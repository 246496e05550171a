import Switchyard.Text.Digits
import Switchyard.Time.Reading

/-!
# Texts, numbers and dates in settings

Each reader takes what stands at the front of a list of characters and gives back what follows.

A text stands between quotes, or between apostrophes, where a backslash means itself. Three quotes
or apostrophes open a text of several lines, of which a break at the front is dropped; up to two
more of them may stand right before the three that close it.

Integers are written in base ten, with a sign or without, or in base 16, 8 or 2. Between two digits
there may be an underscore. A number too great for 64 bits, or a fraction too great to be
represented, is a fault.

## Main definitions

* `Toml.text`, `Toml.name`, `Toml.integer`, `Toml.fraction`, `Toml.boolean`, `Toml.moment`.
-/

namespace Switchyard.Toml

open Switchyard.Text (after? digitIn)

/-- A result in front of a list of characters that were read already. -/
def prepend (c : Char) (r : Option (List Char × List Char)) : Option (List Char × List Char) :=
  r.map fun (read, rest) ↦ (c :: read, rest)

/-- Whether a character may stand in a text or a comment as it is. -/
def isPlain (c : Char) : Bool := c == '\t' || (0x20 ≤ c.toNat && c.toNat != 0x7F)

/-! ### Texts -/

/-- The character that a backslash and a character stand for. -/
def escapes : List (Char × Char) :=
  [('b', '\x08'), ('f', '\x0c'), ('n', '\n'), ('r', '\r'), ('t', '\t'), ('\\', '\\'), ('"', '"')]

/-- The character whose number some hexadecimal digits spell. -/
def scalarOf (digits : List Char) : Option Char :=
  (Text.digits? 16 digits).bind fun n ↦
    if h : n.isValidChar then some (Char.ofNatAux n h) else none

/-- Reads a text up to its closing quote. -/
def quoted : List Char → Option (List Char × List Char)
  | '"' :: cs => some ([], cs)
  | '\\' :: 'u' :: d₁ :: d₂ :: d₃ :: d₄ :: cs =>
    (scalarOf [d₁, d₂, d₃, d₄]).bind fun c ↦ prepend c (quoted cs)
  | '\\' :: 'U' :: d₁ :: d₂ :: d₃ :: d₄ :: d₅ :: d₆ :: d₇ :: d₈ :: cs =>
    (scalarOf [d₁, d₂, d₃, d₄, d₅, d₆, d₇, d₈]).bind fun c ↦ prepend c (quoted cs)
  | '\\' :: x :: cs => (escapes.lookup x).bind fun c ↦ prepend c (quoted cs)
  | c :: cs => if isPlain c then prepend c (quoted cs) else none
  | [] => none

/-- Reads a text up to its closing apostrophe. -/
def literal : List Char → Option (List Char × List Char)
  | '\'' :: cs => some ([], cs)
  | c :: cs => if isPlain c then prepend c (literal cs) else none
  | [] => none

/-- Whether a break follows blanks. -/
def breaksNext : List Char → Bool
  | ' ' :: cs | '\t' :: cs => breaksNext cs
  | '\n' :: _ | '\r' :: '\n' :: _ => true
  | _ => false

/-- Reads a text of several lines up to the quotes that close it. Behind a backslash at the end of a
line, blanks and breaks are passed over. -/
def quotedLines : Bool → List Char → Option (List Char × List Char)
  | true, ' ' :: cs | true, '\t' :: cs | true, '\n' :: cs | true, '\r' :: '\n' :: cs =>
    quotedLines true cs
  | _, '"' :: '"' :: '"' :: '"' :: '"' :: cs => some (['"', '"'], cs)
  | _, '"' :: '"' :: '"' :: '"' :: cs => some (['"'], cs)
  | _, '"' :: '"' :: '"' :: cs => some ([], cs)
  | _, '\\' :: 'u' :: d₁ :: d₂ :: d₃ :: d₄ :: cs =>
    (scalarOf [d₁, d₂, d₃, d₄]).bind fun c ↦ prepend c (quotedLines false cs)
  | _, '\\' :: 'U' :: d₁ :: d₂ :: d₃ :: d₄ :: d₅ :: d₆ :: d₇ :: d₈ :: cs =>
    (scalarOf [d₁, d₂, d₃, d₄, d₅, d₆, d₇, d₈]).bind fun c ↦ prepend c (quotedLines false cs)
  | _, '\\' :: x :: cs =>
    if breaksNext (x :: cs) then quotedLines true (x :: cs)
    else (escapes.lookup x).bind fun c ↦ prepend c (quotedLines false cs)
  | _, '\n' :: cs | _, '\r' :: '\n' :: cs => prepend '\n' (quotedLines false cs)
  | _, c :: cs => if isPlain c then prepend c (quotedLines false cs) else none
  | _, [] => none

/-- Reads a text of several lines up to the apostrophes that close it. -/
def literalLines : List Char → Option (List Char × List Char)
  | '\'' :: '\'' :: '\'' :: '\'' :: '\'' :: cs => some (['\'', '\''], cs)
  | '\'' :: '\'' :: '\'' :: '\'' :: cs => some (['\''], cs)
  | '\'' :: '\'' :: '\'' :: cs => some ([], cs)
  | '\n' :: cs | '\r' :: '\n' :: cs => prepend '\n' (literalLines cs)
  | c :: cs => if isPlain c then prepend c (literalLines cs) else none
  | [] => none

/-- What follows a break, if there is one. -/
def dropBreak : List Char → List Char
  | '\n' :: cs | '\r' :: '\n' :: cs => cs
  | cs => cs

/-- A text and what follows. -/
def asText (r : Option (List Char × List Char)) : Option (String × List Char) :=
  r.map fun (read, rest) ↦ (String.ofList read, rest)

/-- Reads a text. -/
def text : List Char → Option (String × List Char)
  | '"' :: '"' :: '"' :: cs => asText (quotedLines false (dropBreak cs))
  | '\'' :: '\'' :: '\'' :: cs => asText (literalLines (dropBreak cs))
  | '"' :: cs => asText (quoted cs)
  | '\'' :: cs => asText (literal cs)
  | _ => none

/-- Whether a character may stand in a name without quotes. -/
def isNameChar (c : Char) : Bool := c.isAlphanum || c == '-' || c == '_'

/-- Reads a name, which may stand in quotes. -/
def name : List Char → Option (String × List Char)
  | '"' :: cs => asText (quoted cs)
  | '\'' :: cs => asText (literal cs)
  | cs =>
    let word := cs.takeWhile isNameChar
    if word.isEmpty then none else some (String.ofList word, cs.dropWhile isNameChar)

/-! ### Numbers -/

/-- Reads more digits of a base. -/
def moreDigits (base : Nat) : List Char → Option (List Char × List Char)
  | '_' :: c :: cs => if (digitIn base c).isSome then prepend c (moreDigits base cs) else none
  | c :: cs =>
    if (digitIn base c).isSome then prepend c (moreDigits base cs) else some ([], c :: cs)
  | [] => some ([], [])

/-- Reads digits of a base, at least one. -/
def digits (base : Nat) : List Char → Option (List Char × List Char)
  | c :: cs => if (digitIn base c).isSome then prepend c (moreDigits base cs) else none
  | [] => none

/-- The number that digits spell. -/
def valueOf (base : Nat) (ds : List Char) : Nat := (Text.digits? base ds).getD 0

/-- Reads a sign, and says whether it is negative. -/
def sign : List Char → Bool × List Char
  | '-' :: cs => (true, cs)
  | '+' :: cs => (false, cs)
  | cs => (false, cs)

/-- Reads the digits of a decimal integer, which do not begin with a zero unless it is the only
one. -/
def decimalDigits : List Char → Option (List Char × List Char)
  | '0' :: cs => some (['0'], cs)
  | cs => digits 10 cs

/-- Reads an integer of 64 bits. -/
def integer (cs : List Char) : Option (Int × List Char) := do
  let (n, rest) ←
    match cs with
    | '0' :: 'x' :: cs => unsigned 16 cs
    | '0' :: 'o' :: cs => unsigned 8 cs
    | '0' :: 'b' :: cs => unsigned 2 cs
    | _ =>
      let (negative, cs) := sign cs
      (decimalDigits cs).map fun (ds, rest) ↦
        (if negative then -(valueOf 10 ds : Int) else valueOf 10 ds, rest)
  if Text.fitsSigned n then some (n, rest) else none
where
  /-- Reads the digits of an integer of some base. -/
  unsigned (base : Nat) (cs : List Char) : Option (Int × List Char) :=
    (digits base cs).map fun (ds, rest) ↦ ((valueOf base ds : Int), rest)

/-- Reads an exponent. -/
def exponent : List Char → Option (Int × List Char)
  | 'e' :: cs | 'E' :: cs =>
    let (negative, cs) := sign cs
    (digits 10 cs).map fun (ds, rest) ↦
      (if negative then -(valueOf 10 ds : Int) else valueOf 10 ds, rest)
  | _ => none

/-- Reads a fraction: a number with a decimal point or an exponent, or a word for infinity or for
what is no number. Nothing but what follows is of interest. -/
def fraction (cs : List Char) : Option (List Char) := do
  let (negative, cs) := sign cs
  match (after? "inf".toList cs).or (after? "nan".toList cs) with
  | some rest => some rest
  | none =>
    let (whole, cs) ← decimalDigits cs
    let (part, power, rest) ←
      match cs with
      | '.' :: cs => do
        let (part, cs) ← digits 10 cs
        match cs with
        | 'e' :: _ | 'E' :: _ => (exponent cs).map fun (n, rest) ↦ (part, n, rest)
        | _ => some (part, 0, cs)
      | _ => (exponent cs).map fun (n, rest) ↦ ([], n, rest)
    if !negative && Text.overflows (valueOf 10 (whole ++ part)) (power - part.length) then none
    else some rest

/-- Reads a truth value. -/
def boolean (cs : List Char) : Option (Bool × List Char) :=
  match after? "true".toList cs with
  | some rest => some (true, rest)
  | none => (after? "false".toList cs).map fun rest ↦ (false, rest)

/-! ### Dates and times -/

open Switchyard.Time (Date)
open Switchyard.Time.Reading (fixed)

/-- Reads a number of two digits within bounds. -/
def twoDigits (low high : Nat) (cs : List Char) : Option (Nat × List Char) :=
  (fixed 2 cs).filter fun (n, _) ↦ low ≤ n && n ≤ high

/-- Reads a day of the calendar. -/
def day (cs : List Char) : Option (List Char) := do
  let (year, cs) ← fixed 4 cs
  let (month, cs) ← twoDigits 1 12 (← after? ['-'] cs)
  let (day, cs) ← twoDigits 1 31 (← after? ['-'] cs)
  if (Date.mk year month day).Valid then some cs else none

/-- Reads a time of day. -/
def clock (cs : List Char) : Option (List Char) := do
  let (_, cs) ← twoDigits 0 23 cs
  let (_, cs) ← twoDigits 0 59 (← after? [':'] cs)
  let (_, cs) ← twoDigits 0 60 (← after? [':'] cs)
  match cs with
  | '.' :: rest =>
    if rest.head?.any Char.isDigit then some (rest.dropWhile Char.isDigit) else none
  | _ => some cs

/-- Reads the distance of a local time from universal time, if it is given. -/
def offset : List Char → Option (List Char)
  | 'Z' :: cs | 'z' :: cs => some cs
  | '+' :: cs | '-' :: cs => do
    let (_, cs) ← twoDigits 0 23 cs
    let (_, cs) ← twoDigits 0 59 (← after? [':'] cs)
    some cs
  | cs => some cs

/-- Reads a date, a time of day, or both. Nothing but what follows is of interest. -/
def moment (cs : List Char) : Option (List Char) :=
  match day cs with
  | some rest =>
    match rest with
    | 'T' :: later | 't' :: later | ' ' :: later =>
      match clock later with
      | some later => offset later
      | none => some rest
    | _ => some rest
  | none => clock cs

end Switchyard.Toml
