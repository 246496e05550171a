import Switchyard.Helper.Process
import Switchyard.Text.Blank
import Switchyard.Text.Digits
import Switchyard.Text.Utf8

/-!
# Formatted output

The program `printf` writes its arguments as its format says. A format is text with escapes, which
begin with a backslash, and directives, which begin with a percent sign and take the next argument.
While arguments are left the format is used again; missing arguments are empty texts and zeros.
-/

namespace Switchyard.Helper.Printf

/-- A width or precision: none, a number, or one that is taken from the arguments. -/
inductive Size where
  | none
  | fixed (n : Nat)
  | taken
  deriving Repr, DecidableEq

/-- A directive: its flags, its width and precision, and what kind of argument it writes. -/
structure Directive where
  flags : List Char
  width : Size
  precision : Size
  kind : Char
  deriving Repr, DecidableEq

/-- A piece of a format. -/
inductive Piece where
  | literal (bytes : List UInt8)
  | stop
  | directive (d : Directive)
  | invalid (text : List Char)
  deriving Repr, DecidableEq

/-- Reads up to `count` digits of a base and says what follows them. -/
def number (base : Nat) : Nat → List Char → Nat → Nat × List Char
  | 0, cs, n => (n, cs)
  | _, [], n => (n, [])
  | count + 1, c :: cs, n =>
    match Text.digitIn base c with
    | some d => number base count cs (n * base + d)
    | none => (n, c :: cs)

/-- The bytes of a character. -/
def bytesOf (c : Char) : List UInt8 := Text.Utf8.encode [c]

/-- The character that a single letter stands for after a backslash. -/
def escaped (c : Char) : Option Char :=
  [('"', '"'), ('\\', '\\'), ('a', '\x07'), ('b', '\x08'), ('e', '\x1b'), ('f', '\x0c'),
    ('n', '\n'), ('r', '\r'), ('t', '\t'), ('v', '\x0b')].lookup c

/-- Reads the byte that at most three octal digits spell. -/
def octal (cs : List Char) : Piece × List Char :=
  let (n, after) := number 8 3 cs 0
  (.literal [UInt8.ofNat n], after)

/-- Reads what follows a backslash. In an argument a zero may stand before three octal digits. -/
def escape (inArgument : Bool) (cs : List Char) : Piece × List Char :=
  match cs with
  | [] => (.literal [0x5C], [])
  | 'c' :: rest => (.stop, rest)
  | 'x' :: rest =>
    let (n, after) := number 16 2 rest 0
    if after.length = rest.length then (.literal [0x5C, 0x78], rest)
    else (.literal [UInt8.ofNat n], after)
  | 'u' :: rest =>
    let (n, after) := number 16 4 rest 0
    (.literal (bytesOf (Char.ofNat n)), after)
  | c :: rest =>
    match escaped c with
    | some d => (.literal (bytesOf d), rest)
    | none =>
      if inArgument && c == '0' then octal rest
      else if (Text.digitIn 8 c).isSome then octal cs
      else (.literal (0x5C :: bytesOf c), rest)

/-- The flags of directives. -/
def isFlag (c : Char) : Bool := "-+ #0'".toList.contains c

/-- Reads a width or precision. -/
def size (cs : List Char) : Size × List Char :=
  match cs with
  | '*' :: rest => (.taken, rest)
  | c :: _ =>
    if c.isDigit then
      let (n, rest) := number 10 cs.length cs 0
      (.fixed n, rest)
    else (.none, cs)
  | [] => (.none, [])

/-- The kinds of arguments. -/
def isKind (c : Char) : Bool := "sbcdiouxX".toList.contains c

/-- Reads what follows a percent sign. -/
def directive (cs : List Char) : Piece × List Char :=
  match cs with
  | '%' :: rest => (.literal [0x25], rest)
  | _ =>
    let flags := cs.takeWhile isFlag
    let (width, rest) := size (cs.drop flags.length)
    let (precision, rest) := match rest with
      | '.' :: after =>
        let (p, rest) := size after
        (if p = Size.none then Size.fixed 0 else p, rest)
      | _ => (Size.none, rest)
    let rest := rest.dropWhile fun c ↦ "hlLjzt".toList.contains c
    match rest with
    | kind :: after =>
      if isKind kind then (.directive ⟨flags, width, precision, kind⟩, after)
      else (.invalid ('%' :: cs.take (cs.length - after.length)), after)
    | [] => (.invalid ('%' :: cs), [])

/-- The pieces of a format, or of an argument with escapes, where a percent sign means itself;
`fuel` is at least the length. -/
def piecesFrom (inArgument : Bool) : Nat → List Char → List Piece
  | 0, _ => []
  | _, [] => []
  | fuel + 1, c :: cs =>
    let (p, rest) :=
      if c == '\\' then escape inArgument cs
      else if c == '%' && !inArgument then directive cs
      else (.literal (bytesOf c), cs)
    p :: piecesFrom inArgument fuel rest

/-- The pieces of a format. -/
def pieces (format : String) : List Piece := piecesFrom false format.length format.toList

/-- What has been written so far: the output, the messages, and whether to write on. -/
structure Progress where
  output : List UInt8 := []
  errors : List Char := []
  failed : Bool := false
  stopped : Bool := false
  used : Bool := false

/-- Writes bytes. -/
def Progress.write (bytes : List UInt8) (p : Progress) : Progress :=
  { p with output := p.output ++ bytes }

/-- Notes a message. The program then ends with a failure. -/
def Progress.complain (message : String) (p : Progress) : Progress :=
  { p with errors := p.errors ++ ("printf: " ++ message ++ "\n").toList, failed := true }

/-- The number that an argument spells, and what is wrong with it. A quote in front stands for the
number of the character behind it. -/
def numeral (arg : String) : Int × Option String :=
  let unsigned (cs : List Char) : Nat × List Char :=
    match cs with
    | '0' :: 'x' :: rest => number 16 rest.length rest 0
    | '0' :: 'X' :: rest => number 16 rest.length rest 0
    | '0' :: rest => number 8 rest.length rest 0
    | _ => number 10 cs.length cs 0
  match arg.toList with
  | [] => (0, none)
  | '\'' :: c :: _ => (c.toNat, none)
  | '"' :: c :: _ => (c.toNat, none)
  | cs =>
    let cs := cs.dropWhile Text.isBlank
    let (sign, body) : Int × List Char := match cs with
      | '-' :: rest => (-1, rest)
      | '+' :: rest => (1, rest)
      | _ => (1, cs)
    let (n, rest) := unsigned body
    if rest.length = body.length then (0, some "expected a numeric value")
    else if rest.isEmpty then (sign * n, none)
    else (sign * n, some "value not completely converted")

/-- Fills a text up to a width. -/
def pad (d : Directive) (width : Nat) (bytes : List UInt8) : List UInt8 :=
  let blanks := List.replicate (width - bytes.length) 0x20
  if d.flags.contains '-' then bytes ++ blanks else blanks ++ bytes

/-- The digits of an integer as a directive writes them. -/
def integerText (d : Directive) (width : Nat) (precision : Option Nat) (n : Int) : List UInt8 :=
  let unsignedKind := d.kind != 'd' && d.kind != 'i'
  let magnitude := if unsignedKind ∧ n < 0 then (n + Text.bound64).toNat else n.natAbs
  let base := if d.kind = 'o' then 8 else if d.kind = 'x' ∨ d.kind = 'X' then 16 else 10
  let digits := Nat.toDigits base magnitude
  let digits := if d.kind = 'X' then digits.map Char.toUpper else digits
  let sign := if unsignedKind then []
    else if n < 0 then ['-']
    else if d.flags.contains '+' then ['+']
    else if d.flags.contains ' ' then [' ']
    else []
  let zeros (m : Nat) : List Char := List.replicate (m - digits.length) '0'
  let body := match precision with
    | some p => zeros p ++ digits
    | none =>
      if d.flags.contains '0' && !d.flags.contains '-' then zeros (width - sign.length) ++ digits
      else digits
  pad d width (Text.Utf8.encode (sign ++ body))

/-- The bytes of an argument with escapes in it, and whether one of them stops all output. -/
def unescaped (arg : String) : List UInt8 × Bool :=
  let ps := piecesFrom true arg.length arg.toList
  let shown := ps.takeWhile (· != .stop)
  (shown.flatMap fun p ↦ match p with
    | .literal bs => bs
    | _ => [], shown.length < ps.length)

/-- Takes the next argument. -/
def next : List String → Option String × List String
  | [] => (none, [])
  | a :: args => (some a, args)

/-- Takes a size, and notes what is wrong with the argument it comes from. -/
def takeSize (s : Size) (args : List String) (p : Progress) :
    Option Int × List String × Progress :=
  match s with
  | .none => (none, args, p)
  | .fixed n => (some n, args, p)
  | .taken =>
    let (arg, args) := next args
    let (n, wrong) := numeral (arg.getD "")
    let p := { p with used := p.used || arg.isSome }
    (some n, args, match wrong with
      | some w => p.complain ("'" ++ arg.getD "" ++ "': " ++ w)
      | none => p)

/-- The end of the range of a kind of integers that a number lies beyond. -/
def beyond (kind : Char) (n : Int) : Option Int :=
  let least : Int := -(Text.bound64 / 2)
  let greatest : Int := Text.bound64 / 2 - 1
  if kind = 'd' ∨ kind = 'i' then
    if n < least then some least else if greatest < n then some greatest else none
  else if Text.bound64 ≤ n.natAbs then some (Text.bound64 - 1) else none

/-- Writes an argument as a directive says. -/
def writeArgument (d : Directive) (args : List String) (p : Progress) : List String × Progress :=
  let (width, args, p) := takeSize d.width args p
  let (precision, args, p) := takeSize d.precision args p
  let d := if width.any (· < 0) then { d with flags := '-' :: d.flags } else d
  let width := (width.map Int.natAbs).getD 0
  let precision := (precision.filter (0 ≤ ·)).map Int.toNat
  let (arg, args) := next args
  let p := { p with used := p.used || arg.isSome }
  let text := arg.getD ""
  let cut (bytes : List UInt8) : List UInt8 := match precision with
    | some n => bytes.take n
    | none => bytes
  match d.kind with
  | 's' => (args, p.write (pad d width (cut (Text.Utf8.encode text.toList))))
  | 'c' => (args, p.write (pad d width ((Text.Utf8.encode text.toList).take 1)))
  | 'b' =>
    let (bytes, stopped) := unescaped text
    (args, { p.write (pad d width (cut bytes)) with stopped })
  | _ =>
    let (n, wrong) := numeral text
    let (n, wrong) := match beyond d.kind n with
      | some bound => (bound, some "Numerical result out of range")
      | none => (n, wrong)
    let p := match wrong with
      | some w => p.complain ("'" ++ text ++ "': " ++ w)
      | none => p
    (args, p.write (integerText d width precision n))

/-- Writes the pieces of a format once. -/
def writeOnce : List Piece → List String → Progress → List String × Progress
  | [], args, p => (args, p)
  | piece :: rest, args, p =>
    match piece with
    | .literal bytes => writeOnce rest args (p.write bytes)
    | .stop => (args, { p with stopped := true })
    | .invalid text =>
      (args,
        { p.complain (String.ofList text ++ ": invalid conversion specification") with
          stopped := true })
    | .directive d =>
      let (args, p) := writeArgument d args p
      if p.stopped then (args, p) else writeOnce rest args p

/-- Writes a format again and again while there are arguments and it takes some; `fuel` is at least
their number. -/
def writeAll (ps : List Piece) : Nat → List String → Progress → List String × Progress
  | 0, args, p => (args, p)
  | fuel + 1, args, p =>
    let (left, p) := writeOnce ps args { p with used := false }
    if p.stopped || left.isEmpty || !p.used then (left, p) else writeAll ps fuel left p

/-- The program `printf`. -/
def run (args : List String) : Outcome :=
  let args := if args.head? = some "--" then args.drop 1 else args
  match args with
  | [] =>
    let complaint := "printf: missing operand\nTry 'printf --help' for more information.\n"
    .failure 1 (Text.Utf8.encode complaint.toList)
  | format :: args =>
    let (left, p) := writeAll (pieces format) (args.length + 1) args {}
    let warning := match left with
      | a :: _ =>
        if p.stopped then ""
        else "printf: warning: ignoring excess arguments, starting with '" ++ a ++ "'\n"
      | [] => ""
    { output := p.output
      errors := Text.Utf8.encode (p.errors ++ warning.toList)
      ending := .exit (if p.failed then 1 else 0) }

end Switchyard.Helper.Printf
