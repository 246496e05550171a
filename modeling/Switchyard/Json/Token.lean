import Switchyard.Text.Digits

/-!
# The tokens of JSON

A text is cut into tokens from left to right, one character at a time. Where no token can begin or
go on, the token `bad` stands and nothing follows it, so the tokens of a text describe it exactly
as far as it is JSON.
-/

namespace Switchyard.Json

/-- A number as it is written: its digits without the point, the power of ten that scales them,
and whether a point or an exponent is written at all. -/
structure Numeral where
  negative : Bool
  digits : Nat
  scale : Int
  whole : Bool
  deriving Repr, DecidableEq, Inhabited

namespace Numeral

/-- Whether double precision cannot hold the number. -/
def tooLarge (n : Numeral) : Bool := Text.overflows n.digits n.scale

/-- The natural number written, if it is written as one. Minus zero is not. -/
def toNat? (n : Numeral) : Option Nat :=
  if n.whole ∧ ¬n.negative then some n.digits else none

/-- The integer written, if it is written as one. Minus zero is not. -/
def toInt? (n : Numeral) : Option Int :=
  if ¬n.whole then none
  else if ¬n.negative then some n.digits
  else if n.digits = 0 then none
  else some (-n.digits)

end Numeral

/-- What a string literal spells: a text, or none because an escape names half of a pair. -/
inductive Spelling where
  | text (s : String)
  | unpaired
  deriving Repr, DecidableEq, Inhabited

/-- The words that are values. -/
inductive Constant where
  | null
  | true
  | false
  deriving Repr, DecidableEq

/-- A token, or the place where there is none. -/
inductive Token where
  | openObject
  | closeObject
  | openArray
  | closeArray
  | colon
  | comma
  | constant (c : Constant)
  | number (n : Numeral)
  | string (s : Spelling)
  | bad
  deriving Repr, DecidableEq

namespace Token

/-- How far a number has been read. -/
inductive NumberPhase where
  | sign
  | zero
  | whole
  | point
  | fraction
  | exponent
  | exponentSign
  | exponentDigits
  deriving Repr, DecidableEq

/-- A number being read. The exponent has its sign apart. -/
structure PartialNumber where
  phase : NumberPhase
  negative : Bool
  digits : Nat
  places : Nat
  exponent : Nat
  exponentNegative : Bool
  deriving Repr, DecidableEq

namespace PartialNumber

/-- Whether the number may end here. -/
def complete (n : PartialNumber) : Bool :=
  match n.phase with
  | .zero | .whole | .fraction | .exponentDigits => true
  | _ => false

/-- The number read. -/
def value (n : PartialNumber) : Numeral :=
  let power : Int := if n.exponentNegative then -n.exponent else n.exponent
  ⟨n.negative, n.digits, power - n.places, n.phase == .zero || n.phase == .whole⟩

/-- Goes on with one character, if the number can. -/
def push (n : PartialNumber) (c : Char) : Option PartialNumber :=
  match Text.digitIn 10 c with
  | some d =>
    match n.phase with
    | .sign =>
      some { n with phase := if d = 0 then .zero else .whole, digits := d }
    | .zero => none
    | .whole => some { n with digits := n.digits * 10 + d }
    | .point | .fraction =>
      some { n with phase := .fraction, digits := n.digits * 10 + d, places := n.places + 1 }
    | .exponent | .exponentSign | .exponentDigits =>
      some { n with phase := .exponentDigits, exponent := n.exponent * 10 + d }
  | none =>
    if c = '.' then
      match n.phase with
      | .zero | .whole => some { n with phase := .point }
      | _ => none
    else if c = 'e' ∨ c = 'E' then
      match n.phase with
      | .zero | .whole | .fraction => some { n with phase := .exponent }
      | _ => none
    else if c = '+' ∨ c = '-' then
      match n.phase with
      | .exponent => some { n with phase := .exponentSign, exponentNegative := c == '-' }
      | _ => none
    else none

end PartialNumber

/-- Whether a digit may follow a number although the number cannot take it: the zeros in front
of a number are refused, not read apart. -/
def splitsDigits (n : PartialNumber) (c : Char) : Bool :=
  n.phase == .zero && (Text.digitIn 10 c).isSome

/-- How far an escape has been read. -/
inductive Escape where
  | none
  | opened
  | unit (count value : Nat)
  deriving Repr, DecidableEq

/-- A string literal being read: its characters so far in reverse, a first half of a pair that
waits for its second, and whether every escape so far was part of a text. -/
structure PartialString where
  chars : List Char
  half : Option Nat
  sound : Bool
  escape : Escape
  deriving Repr, DecidableEq

namespace PartialString

/-- Adds a character. A waiting half is then unpaired. -/
def add (s : PartialString) (c : Char) : PartialString :=
  { s with chars := c :: s.chars, half := .none, sound := s.sound && s.half.isNone,
           escape := .none }

/-- Adds a 16-bit unit: a character of its own, or half of a pair. -/
def addUnit (s : PartialString) (n : Nat) : PartialString :=
  if 0xD800 ≤ n ∧ n < 0xDC00 then
    { s with half := some n, sound := s.sound && s.half.isNone, escape := .none }
  else if 0xDC00 ≤ n ∧ n < 0xE000 then
    match s.half with
    | some first =>
      { s with chars := Char.ofNat (0x10000 + (first - 0xD800) * 0x400 + (n - 0xDC00)) :: s.chars,
               half := .none, escape := .none }
    | .none => { s with sound := false, escape := .none }
  else s.add (Char.ofNat n)

/-- The character that a one-letter escape stands for. -/
def escaped : Char → Option Char
  | '"' => some '"'
  | '\\' => some '\\'
  | '/' => some '/'
  | 'b' => some '\x08'
  | 'f' => some '\x0c'
  | 'n' => some '\n'
  | 'r' => some '\r'
  | 't' => some '\t'
  | _ => .none

/-- Goes on with one character that does not end the literal, if it can. -/
def push (s : PartialString) (c : Char) : Option PartialString :=
  match s.escape with
  | .none =>
    if c = '\\' then some { s with escape := .opened }
    else if c.toNat < 0x20 then .none
    else some (s.add c)
  | .opened =>
    if c = 'u' then some { s with escape := .unit 0 0 }
    else (escaped c).map s.add
  | .unit count value =>
    (Text.digitIn 16 c).map fun d ↦
      if count = 3 then s.addUnit (value * 16 + d)
      else { s with escape := .unit (count + 1) (value * 16 + d) }

/-- What the literal spells when it ends here. -/
def value (s : PartialString) : Spelling :=
  if s.sound ∧ s.half.isNone then .text (String.ofList s.chars.reverse) else .unpaired

end PartialString

/-- What is being read. -/
inductive Mode where
  | between
  | number (n : PartialNumber)
  | string (s : PartialString)
  | word (rest : List Char) (c : Constant)
  deriving Repr, DecidableEq

/-- Reads one character where a token may begin: the token it is, if it is one, and the mode
after it. -/
def start (c : Char) : Option (Option Token × Mode) :=
  match c with
  | ' ' | '\n' | '\r' | '\t' => some (none, .between)
  | '\x7b' => some (some .openObject, .between)
  | '\x7d' => some (some .closeObject, .between)
  | '[' => some (some .openArray, .between)
  | ']' => some (some .closeArray, .between)
  | ':' => some (some .colon, .between)
  | ',' => some (some .comma, .between)
  | '"' => some (none, .string ⟨[], .none, true, .none⟩)
  | '-' => some (none, .number ⟨.sign, true, 0, 0, 0, false⟩)
  | 'n' => some (none, .word ['u', 'l', 'l'] .null)
  | 't' => some (none, .word ['r', 'u', 'e'] .true)
  | 'f' => some (none, .word ['a', 'l', 's', 'e'] .false)
  | _ => ((⟨.sign, false, 0, 0, 0, false⟩ : PartialNumber).push c).bind fun n ↦
      if (Text.digitIn 10 c).isSome then some (none, .number n) else none

/-- The tokens of a text from a mode on. -/
def scan : Mode → List Char → List Token
  | .between, [] => []
  | .number n, [] => if n.complete then [.number n.value] else [.bad]
  | .string _, [] => [.bad]
  | .word _ _, [] => [.bad]
  | .between, c :: cs =>
    match start c with
    | some (token, mode) => token.toList ++ scan mode cs
    | none => [.bad]
  | .number n, c :: cs =>
    match n.push c with
    | some n => scan (.number n) cs
    | none =>
      if n.complete ∧ ¬splitsDigits n c then
        .number n.value ::
          match start c with
          | some (token, mode) => token.toList ++ scan mode cs
          | none => [.bad]
      else [.bad]
  | .string s, c :: cs =>
    if c = '"' ∧ s.escape = .none then .string s.value :: scan .between cs
    else
      match s.push c with
      | some s => scan (.string s) cs
      | none => [.bad]
  | .word rest k, c :: cs =>
    match rest with
    | [] => [.bad]
    | [d] => if c = d then .constant k :: scan .between cs else [.bad]
    | d :: rest => if c = d then scan (.word rest k) cs else [.bad]

/-- The tokens of a text. -/
def ofText (s : String) : List Token := scan .between s.toList

end Token

end Switchyard.Json
