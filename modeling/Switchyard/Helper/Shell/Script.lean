import Switchyard.Text.Digits

/-!
# Scripts

A script is a list of simple commands, joined by semicolons or line feeds, or by `&&` and `||`,
which run a command only after a success or a failure. A command consists of words; its two outputs
may be redirected. A word is put together from parts, which are literal text or parameters, in
quotes or not. The outputs may go to each other or to nowhere.

## Main definitions

* `Shell.Token`, `Shell.tokens` — the words and marks of a script.
* `Shell.Step`, `Shell.parse` — its commands.
-/

namespace Switchyard.Helper.Shell

/-- A part of a word. -/
inductive Part where
  | literal (text : List Char)
  | parameter (name : List Char) (quoted : Bool)
  deriving Repr, DecidableEq

/-- A word or mark of a script. A redirection names the output it is about. -/
inductive Token where
  | word (parts : List Part)
  | next
  | andThen
  | orElse
  | redirect (output : Nat)
  | duplicate (output : Nat)
  | other (mark : String)
  deriving Repr, DecidableEq

/-- Where in a script the next character stands. -/
inductive Mode where
  | plain
  | escape
  | single
  | double
  | doubleEscape
  | dollar (quoted : Bool)
  | name (quoted : Bool) (read : List Char)
  | braced (quoted : Bool) (read : List Char)
  | comment
  | greater (output : Nat)
  | ampersand
  | bar
  deriving Repr, DecidableEq

/-- What was read so far: tokens and the parts of a word that is not finished, both in reverse. -/
structure Reading where
  tokens : List Token := []
  word : Option (List Part) := none
  mode : Mode := .plain
  deriving Repr

namespace Reading

/-- Adds a part to the word. -/
def push (p : Part) (r : Reading) : Reading :=
  match r.word, p with
  | some (.literal a :: ps), .literal b => { r with word := some (.literal (a ++ b) :: ps) }
  | some ps, _ => { r with word := some (p :: ps) }
  | none, _ => { r with word := some [p] }

/-- Adds a character to the word. -/
def pushChar (c : Char) (r : Reading) : Reading := r.push (.literal [c])

/-- Begins a word if there is none. -/
def begin (r : Reading) : Reading := { r with word := some (r.word.getD []) }

/-- Finishes the word if there is one. -/
def finish (r : Reading) : Reading :=
  match r.word with
  | some ps => { r with tokens := .word ps.reverse :: r.tokens, word := none }
  | none => r

/-- Adds a mark after the word. -/
def mark (t : Token) (r : Reading) : Reading :=
  let r := r.finish
  { r with tokens := t :: r.tokens }

/-- Begins a redirection. A word that is a single digit before it says of which output. -/
def redirect (r : Reading) : Reading :=
  match r.word with
  | some [.literal [c]] =>
    if c.isDigit then { r with word := none, mode := .greater (c.toNat - '0'.toNat) }
    else { r.finish with mode := .greater 1 }
  | _ => { r.finish with mode := .greater 1 }

/-- Takes a character outside quotes. -/
def plain (c : Char) (r : Reading) : Reading :=
  match c with
  | ' ' => r.finish
  | '\t' => r.finish
  | '\n' => r.mark .next
  | ';' => r.mark .next
  | '&' => { r.finish with mode := .ampersand }
  | '|' => { r.finish with mode := .bar }
  | '>' => r.redirect
  | '<' => r.mark (.other "<")
  | '(' => r.mark (.other "(")
  | ')' => r.mark (.other ")")
  | '\'' => { r.begin with mode := .single }
  | '"' => { r.begin with mode := .double }
  | '\\' => { r with mode := .escape }
  | '$' => { r with mode := .dollar false }
  | '#' => if r.word.isNone then { r with mode := .comment } else r.pushChar c
  | _ => r.pushChar c

/-- Takes a character inside double quotes. -/
def inDouble (c : Char) (r : Reading) : Reading :=
  match c with
  | '"' => { r with mode := .plain }
  | '\\' => { r with mode := .doubleEscape }
  | '$' => { r with mode := .dollar true }
  | _ => { r.pushChar c with mode := .double }

/-- Takes a character in the text around a parameter. -/
def around (quoted : Bool) (c : Char) (r : Reading) : Reading :=
  if quoted then { r with mode := .double }.inDouble c else { r with mode := .plain }.plain c

/-- The characters of names. -/
def isNameChar (c : Char) : Bool := c.isAlphanum || c == '_'

/-- The parameters with a mark for a name. -/
def isSpecial (c : Char) : Bool := c.isDigit || "@*#?$!-".toList.contains c

/-- The mode of the text around a parameter. -/
def modeAround (quoted : Bool) : Mode := if quoted then .double else .plain

/-- Takes a character. -/
def next (r : Reading) (c : Char) : Reading :=
  match r.mode with
  | .plain => r.plain c
  | .escape =>
    let r := { r with mode := .plain }
    if c = '\n' then r else r.pushChar c
  | .single => if c = '\'' then { r with mode := .plain } else r.pushChar c
  | .double => r.inDouble c
  | .doubleEscape =>
    let r := { r with mode := .double }
    if c = '\n' then r
    else if "$\x60\"\\".toList.contains c then r.pushChar c
    else (r.pushChar '\\').pushChar c
  | .dollar quoted =>
    if c = '\x7b' then { r with mode := .braced quoted [] }
    else if isSpecial c then { r.push (.parameter [c] quoted) with mode := modeAround quoted }
    else if isNameChar c then { r with mode := .name quoted [c] }
    else (r.pushChar '$').around quoted c
  | .name quoted read =>
    if isNameChar c then { r with mode := .name quoted (c :: read) }
    else (r.push (.parameter read.reverse quoted)).around quoted c
  | .braced quoted read =>
    if c = '\x7d' then
      { r.push (.parameter read.reverse quoted) with mode := modeAround quoted }
    else { r with mode := .braced quoted (c :: read) }
  | .comment => if c = '\n' then { r with mode := .plain }.mark .next else r
  | .greater output =>
    let r := { r with mode := .plain }
    if c = '&' then r.mark (.duplicate output)
    else if c = '>' then r.mark (.redirect output)
    else (r.mark (.redirect output)).plain c
  | .ampersand =>
    let r := { r with mode := .plain }
    if c = '&' then r.mark .andThen else (r.mark (.other "&")).plain c
  | .bar =>
    let r := { r with mode := .plain }
    if c = '|' then r.mark .orElse else (r.mark (.other "|")).plain c

/-- Ends the reading, unless a quote is open. -/
def done (r : Reading) : Option (List Token) :=
  let all (r : Reading) : List Token := r.finish.tokens.reverse
  match r.mode with
  | .single | .double | .doubleEscape | .dollar true | .name true _ | .braced _ _ => none
  | .plain | .comment => some (all r)
  | .escape => some (all (r.pushChar '\\'))
  | .dollar false => some (all (r.pushChar '$'))
  | .name false read => some (all (r.push (.parameter read.reverse false)))
  | .greater output => some (all (r.mark (.redirect output)))
  | .ampersand => some (all (r.mark (.other "&")))
  | .bar => some (all (r.mark (.other "|")))

end Reading

/-- The tokens of a script, if its quotes are closed. -/
def tokens (script : String) : Option (List Token) :=
  (script.toList.foldl Reading.next {}).done

/-- Where an output goes: to one of the two outputs of the script, or nowhere. -/
inductive Target where
  | output
  | errors
  | nowhere
  deriving Repr, DecidableEq

/-- A redirection of an output: to where another goes, or to a file. -/
inductive Redirection where
  | like (output other : Nat)
  | file (output : Nat) (name : List Part)
  deriving Repr, DecidableEq

/-- When a command runs: always, or only after a success or a failure. -/
inductive Condition where
  | always
  | afterSuccess
  | afterFailure
  deriving Repr, DecidableEq

/-- A simple command: its words and redirections, and when it runs. -/
structure Step where
  condition : Condition
  words : List (List Part) := []
  redirections : List Redirection := []
  deriving Repr, DecidableEq

/-- Whether a command has anything in it. -/
def Step.isEmpty (s : Step) : Bool := s.words.isEmpty && s.redirections.isEmpty

/-- The number of an output that a word names. -/
def outputNumber? : List Part → Option Nat
  | [.literal cs] => Text.digits? 10 cs
  | _ => none

/-- Reads tokens into commands, or names the token that is out of place. -/
def stepsFrom : Step → List Token → Except String (List Step)
  | current, [] =>
    if current.isEmpty then
      if current.condition = .always then .ok [] else .error "end of file"
    else .ok [current]
  | current, .word ps :: ts => stepsFrom { current with words := current.words ++ [ps] } ts
  | current, .redirect n :: .word ps :: ts =>
    stepsFrom { current with redirections := current.redirections ++ [.file n ps] } ts
  | current, .duplicate n :: .word ps :: ts =>
    match outputNumber? ps with
    | some m => stepsFrom { current with redirections := current.redirections ++ [.like n m] } ts
    | none => .error "word"
  | _, .redirect _ :: _ => .error "newline"
  | _, .duplicate _ :: _ => .error "newline"
  | current, .next :: ts =>
    if current.isEmpty then stepsFrom current ts
    else (stepsFrom { condition := .always } ts).map (current :: ·)
  | current, .andThen :: ts =>
    if current.isEmpty then .error "\"&&\""
    else (stepsFrom { condition := .afterSuccess } ts).map (current :: ·)
  | current, .orElse :: ts =>
    if current.isEmpty then .error "\"||\""
    else (stepsFrom { condition := .afterFailure } ts).map (current :: ·)
  | _, .other mark :: _ => .error ("\"" ++ mark ++ "\"")

/-- The commands of a script, or what is wrong with it. -/
def parse (script : String) : Except String (List Step) :=
  match tokens script with
  | none => .error "Unterminated quoted string"
  | some ts => (stepsFrom { condition := .always } ts).mapError fun t ↦ t ++ " unexpected"

end Switchyard.Helper.Shell
