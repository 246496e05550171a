import Switchyard.Helper.Printf

/-!
# Small programs

The programs that write a line, do nothing, or wait: `echo`, `printf`, `true`, `false` and `sleep`.
-/

namespace Switchyard.Helper.Utility

/-- Whether a word switches options of `echo`. -/
def isEchoOption (word : String) : Bool :=
  match word.toList with
  | '-' :: c :: cs => (c :: cs).all fun c ↦ c == 'n' || c == 'e' || c == 'E'
  | _ => false

/-- Whether the last option of two that exclude each other is the first of them. -/
def switchedOn (on off : Char) (options : List String) : Bool :=
  ((options.flatMap String.toList).filter fun c ↦ c == on || c == off).getLast? == some on

/-- The program `echo`. Escapes are kept as they are unless the option for them is on. -/
def echo (args : List String) : Outcome :=
  let options := args.takeWhile isEchoOption
  let line := Text.Utf8.encode (" ".intercalate (args.drop options.length)).toList
  let (bytes, stopped) := if switchedOn 'e' 'E' options
    then Printf.unescaped (" ".intercalate (args.drop options.length)) else (line, false)
  let quiet := (options.flatMap String.toList).contains 'n' || stopped
  .success (if quiet then bytes else bytes ++ [0x0A])

/-- The milliseconds of a time in seconds, minutes, hours or days, with an optional fraction. -/
def millis? (word : String) : Option Nat :=
  let (cs, factor) := match word.toList.reverse with
    | 's' :: r => (r.reverse, 1000)
    | 'm' :: r => (r.reverse, 60000)
    | 'h' :: r => (r.reverse, 3600000)
    | 'd' :: r => (r.reverse, 86400000)
    | _ => (word.toList, 1000)
  match Text.pieces (· == '.') cs with
  | [whole] => (Text.digits? 10 whole).map (· * factor)
  | [whole, fraction] => do
    let n ← Text.digits? 10 (whole ++ fraction)
    some (n * factor / Nat.pow 10 fraction.length)
  | _ => none

/-- The program `sleep`. It waits for the sum of its arguments. -/
def sleep (args : List String) : Outcome :=
  let complaint (message : String) : Outcome :=
    .failure 1
      (Text.Utf8.encode (message ++ "\nTry 'sleep --help' for more information.\n").toList)
  match args.find? fun a ↦ (millis? a).isNone with
  | some a => complaint ("sleep: invalid time interval '" ++ a ++ "'")
  | none =>
    if args.isEmpty then complaint "sleep: missing operand"
    else { millis := (args.filterMap millis?).foldl (· + ·) 0 }

/-- The program of a name, if it is one of these. -/
def find? (name : String) : Option (List String → Outcome) :=
  [("echo", echo), ("printf", Printf.run), ("true", fun _ ↦ .success []),
   ("false", fun _ ↦ .failure 1 []), ("sleep", sleep)].lookup name

end Switchyard.Helper.Utility
