import Switchyard.Helper.Shell.Script
import Switchyard.Helper.Utility

/-!
# The shell

The program `sh` runs a script. It knows a few commands itself, among them `exit`, which ends the
script, and `kill`, which may end the shell by a signal; all others are programs. The exit code of
the script is that of its last command.
-/

namespace Switchyard.Helper.Shell

/-- What a script has to do with: its name, its arguments, what was written so far, the last exit
code, how it ended if it did, and how long it took. -/
structure Session where
  name : String
  args : List String
  output : List UInt8 := []
  errors : List UInt8 := []
  code : Nat := 0
  ending : Option Ending := none
  millis : Nat := 0

/-- The number of the shell's own process, as a word. -/
def ownNumber : String := "$$"

namespace Session

/-- The value of a parameter. -/
def parameter (name : List Char) (s : Session) : String :=
  match name with
  | ['$'] => ownNumber
  | ['?'] => toString s.code
  | ['#'] => toString s.args.length
  | ['@'] => " ".intercalate s.args
  | ['*'] => " ".intercalate s.args
  | ['0'] => s.name
  | _ =>
    match Text.digits? 10 name with
    | some n => ((s.args.drop (n - 1)).head?).getD ""
    | none => ""

/-- Adds text to the last of some words. -/
def glue (text : String) : List String → List String
  | [] => [text]
  | [w] => [w ++ text]
  | w :: ws => w :: glue text ws

/-- Adds words, the first of them to the last of those there are. -/
def splice (words : List String) (ws : List String) : List String :=
  match words with
  | [] => ws
  | w :: rest => glue w ws ++ rest

/-- The words that a word becomes. Parameters outside quotes fall apart at blanks. -/
def expand (parts : List Part) (s : Session) : List String :=
  parts.foldl (fun ws p ↦
    match p with
    | .literal cs => glue (String.ofList cs) ws
    | .parameter ['@'] true => splice s.args ws
    | .parameter name true => glue (s.parameter name) ws
    | .parameter name false => splice (Text.words (s.parameter name)) ws) []

/-- The words that are left of a word made of literal text and parameters. A word with quotes in
it is kept even when empty. -/
def expandWord (parts : List Part) (s : Session) : List String :=
  match parts with
  | [] => [""]
  | _ => s.expand parts

/-- Where the two outputs of a command go. A file is one of the two outputs of the script, or else
nobody reads it. -/
def targets (rs : List Redirection) (s : Session) : Target × Target :=
  rs.foldl (fun (first, second) r ↦
    match r with
    | .like 1 2 => (second, second)
    | .like 2 1 => (first, first)
    | .like _ _ => (first, second)
    | .file n name =>
      let target := if s.expand name = ["/dev/stderr"] then .errors
        else if s.expand name = ["/dev/stdout"] then .output
        else .nowhere
      if n = 2 then (first, target) else (target, second)) (.output, .errors)

/-- Writes bytes to where they go. -/
def write (t : Target) (bytes : List UInt8) (s : Session) : Session :=
  match t with
  | .output => { s with output := s.output ++ bytes }
  | .errors => { s with errors := s.errors ++ bytes }
  | .nowhere => s

/-- Takes the outcome of a command. -/
def absorb (o : Outcome) (rs : List Redirection) (s : Session) : Session :=
  let (first, second) := s.targets rs
  let s := (s.write first o.output).write second o.errors
  { s with
    code := match o.ending with
      | .exit code => code
      | .signal => 137
    millis := s.millis + o.millis }

/-- Ends the script with a code. -/
def leave (code : Nat) (s : Session) : Session := { s with ending := some (.exit code), code }

end Session

/-- The bytes of a message of the shell. -/
def message (name text : String) : List UInt8 :=
  Text.Utf8.encode (name ++ ": 1: " ++ text ++ "\n").toList

/-- The number of an exit code, if a word spells one. -/
def exitCode? (word : String) : Option Nat := (Text.digits? 10 word.toList).map (· % 256)

/-- Whether words ask `kill` to end the shell itself. -/
def killsItself (args : List String) : Bool :=
  args.contains ownNumber && !args.contains "-0"

/-- The `echo` of the shell, which always knows escapes. -/
def echo (args : List String) : Outcome :=
  let (quiet, args) := match args with
    | "-n" :: rest => (true, rest)
    | _ => (false, args)
  let (bytes, stopped) := Printf.unescaped (" ".intercalate args)
  .success (if quiet || stopped then bytes else bytes ++ [0x0A])

/-- Runs a program as a command. -/
def external (programs : Programs) (name program : String) (args : List String) : Outcome :=
  match programs program args with
  | .ok o => o
  | .error (.file .denied) => .failure 126 (message name (program ++ ": Permission denied"))
  | .error _ => .failure 127 (message name (program ++ ": not found"))

/-- Runs a command given by its words. -/
def command (programs : Programs) (words : List String) (rs : List Redirection) (s : Session) :
    Session :=
  match words with
  | [] => s.absorb (.success []) rs
  | ":" :: _ => s.absorb (.success []) rs
  | ["exit"] => s.leave s.code
  | "exit" :: word :: _ =>
    match exitCode? word with
    | some code => s.leave code
    | none =>
      (s.absorb (.failure 2 (message s.name ("exit: Illegal number: " ++ word))) rs).leave 2
  | "kill" :: args =>
    if killsItself args then { s with ending := some .signal } else s.absorb (.success []) rs
  | "exec" :: program :: args =>
    let s := s.absorb (external programs s.name program args) rs
    s.leave s.code
  | "echo" :: args => s.absorb (echo args) rs
  | program :: args => s.absorb (external programs s.name program args) rs

/-- Runs a command if its turn has come. -/
def step (programs : Programs) (s : Session) (c : Step) : Session :=
  let due := match c.condition with
    | .always => true
    | .afterSuccess => s.code == 0
    | .afterFailure => s.code != 0
  if s.ending.isSome || !due then s
  else command programs (c.words.flatMap fun w ↦ s.expandWord w) c.redirections s

/-- Runs a script. -/
def runScript (programs : Programs) (script name : String) (args : List String) : Outcome :=
  match parse script with
  | .error wrong => .failure 2 (message name ("Syntax error: " ++ wrong))
  | .ok steps =>
    let s := steps.foldl (step programs) { name, args }
    { output := s.output, errors := s.errors, ending := s.ending.getD (.exit s.code)
      millis := s.millis }

/-- The program `sh`. -/
def run (programs : Programs) (args : List String) : Outcome :=
  match args with
  | "-c" :: script :: name :: rest => runScript programs script name rest
  | ["-c", script] => runScript programs script "sh" []
  | ["-c"] => .failure 2 (Text.Utf8.encode "sh: 0: -c requires an argument\n".toList)
  | [] => .success []
  | file :: _ =>
    .failure 2 (Text.Utf8.encode ("sh: 0: cannot open " ++ file ++ ": No such file\n").toList)

end Switchyard.Helper.Shell
