import Switchyard.Text.Blank
import Switchyard.Text.Cut
import Switchyard.Time.Instant

/-!
# Reading points in time

Two grammars are read. `rfc3339?` is RFC 3339 with fixed widths, a `T`, `t` or space between date
and time, and an offset of `Z`, `z` or signed hours and minutes. `relaxed?` also takes blanks before
a field and between fields, short fields, signed years of any length, `UTC` for the offset, and
any number of colons and blanks, or none, inside it. In both a second of 60 is a leap second, and
both the local and the universal date must lie in the years −262143 to 262142.
-/

namespace Switchyard.Time.Reading

open Switchyard.Text (isBlank after? digitIn)

/-- Reads at most `max` decimal digits onto a number. -/
def takeDigits : Nat → Nat → List Char → Nat × List Char
  | 0, n, cs => (n, cs)
  | _ + 1, n, [] => (n, [])
  | max + 1, n, c :: cs =>
    match digitIn 10 c with
    | some d => takeDigits max (n * 10 + d) cs
    | none => (n, c :: cs)

/-- Reads between `min` and `max` decimal digits as a number. -/
def number (min max : Nat) (cs : List Char) : Option (Nat × List Char) :=
  if (cs.take min).length = min ∧ (cs.take min).all (fun c ↦ (digitIn 10 c).isSome) then
    some (takeDigits max 0 cs)
  else none

/-- Reads exactly `width` decimal digits as a number. -/
def fixed (width : Nat) (cs : List Char) : Option (Nat × List Char) := number width width cs

/-- Reads one given character. -/
def literal (c : Char) : List Char → Option (List Char)
  | d :: cs => if d = c then some cs else none
  | [] => none

/-- Reads the fraction of a second as nanoseconds; digits after the ninth are dropped. Without a
point there is no fraction. -/
def fraction : List Char → Option (Nat × List Char)
  | '.' :: cs => do
    let ds := cs.takeWhile fun c ↦ (digitIn 10 c).isSome
    let kept := ds.take 9
    if kept.isEmpty then none
    else
      some ((takeDigits 9 0 kept).1 * Nat.pow 10 (9 - kept.length), cs.drop ds.length)
  | cs => some (0, cs)

/-- Reads the sign of an offset: whether it is negative. -/
def sign : List Char → Option (Bool × List Char)
  | '+' :: cs => some (false, cs)
  | '-' :: cs => some (true, cs)
  | '\u2212' :: cs => some (true, cs)
  | _ => none

/-- Reads an offset in seconds east of Greenwich. `between` reads what separates the hours from
the minutes. -/
def offset (between : List Char → Option (List Char)) (cs : List Char) : Option (Int × List Char) :=
  match cs with
  | 'Z' :: rest => some (0, rest)
  | 'z' :: rest => some (0, rest)
  | _ => do
    let (negative, cs) ← sign cs
    let (hours, cs) ← fixed 2 cs
    let cs ← between cs
    let (minutes, cs) ← fixed 2 cs
    if minutes < 60 ∧ hours < 24 then
      let amount : Int := hours * 3600 + minutes * 60
      some (if negative then -amount else amount, cs)
    else none

/-- The fields of a local time with its offset. -/
structure Fields where
  date : Date
  hour : Nat
  minute : Nat
  second : Nat
  nanos : Nat
  offset : Int
  deriving Repr, DecidableEq

/-- A year that instants can lie in. -/
def yearInRange (year : Int) : Bool := -262143 ≤ year && year ≤ 262142

/-- The instant of a local time, if its fields are in range. -/
def Fields.toInstant? (f : Fields) : Option Instant :=
  let second := if f.second = 60 then 59 else f.second
  let nanos := if f.second = 60 then f.nanos + 1000000000 else f.nanos
  let total : Int :=
    f.date.toDayCount * 86400 + f.hour * 3600 + f.minute * 60 + second - f.offset
  let t : Instant := ⟨total, nanos⟩
  if f.date.Valid ∧ f.hour < 24 ∧ f.minute < 60 ∧ f.second ≤ 60 ∧ yearInRange f.date.year ∧
      yearInRange t.date.year then
    some t
  else none

/-- Reads the mark between date and time. -/
def dateTimeMark : List Char → Option (List Char)
  | c :: cs => if c = 'T' ∨ c = 't' ∨ c = ' ' then some cs else none
  | [] => none

/-- Reads a whole text as an RFC 3339 time. -/
def rfc3339? (s : String) : Option Instant := do
  let (year, cs) ← fixed 4 s.toList
  let cs ← literal '-' cs
  let (month, cs) ← fixed 2 cs
  let cs ← literal '-' cs
  let (day, cs) ← fixed 2 cs
  let cs ← dateTimeMark cs
  let (hour, cs) ← fixed 2 cs
  let cs ← literal ':' cs
  let (minute, cs) ← fixed 2 cs
  let cs ← literal ':' cs
  let (second, cs) ← fixed 2 cs
  let (nanos, cs) ← fraction cs
  let (offset, cs) ← offset (literal ':') cs
  if cs.isEmpty then
    Fields.toInstant? ⟨⟨year, month, day⟩, hour, minute, second, nanos, offset⟩
  else none

/-- Drops blanks. -/
def skipBlanks (cs : List Char) : List Char := cs.dropWhile isBlank

/-- Reads a year of up to four digits, or one with a sign and any number of digits. -/
def looseYear (cs : List Char) : Option (Int × List Char) :=
  match skipBlanks cs with
  | '-' :: rest => (number 1 rest.length rest).map fun (n, cs) ↦ (-(n : Int), cs)
  | '+' :: rest => (number 1 rest.length rest).map fun (n, cs) ↦ ((n : Int), cs)
  | rest => (number 1 4 rest).map fun (n, cs) ↦ ((n : Int), cs)

/-- Reads one or two digits after blanks. -/
def looseField (cs : List Char) : Option (Nat × List Char) := number 1 2 (skipBlanks cs)

/-- Reads the offset of a relaxed time. -/
def looseOffset (cs : List Char) : Option (Int × List Char) :=
  let cs := skipBlanks cs
  if (cs.take 3).map Char.toUpper = ['U', 'T', 'C'] then some (0, cs.drop 3)
  else offset (fun cs ↦ some (cs.dropWhile fun c ↦ c == ':' || isBlank c)) cs

/-- Reads a whole text as a relaxed time. -/
def relaxed? (s : String) : Option Instant := do
  let (year, cs) ← looseYear s.toList
  let cs ← literal '-' (skipBlanks cs)
  let (month, cs) ← looseField cs
  let cs ← literal '-' (skipBlanks cs)
  let (day, cs) ← looseField cs
  let cs ← dateTimeMark cs
  let (hour, cs) ← looseField cs
  let cs ← literal ':' (skipBlanks cs)
  let (minute, cs) ← looseField cs
  let cs ← literal ':' (skipBlanks cs)
  let (second, cs) ← looseField cs
  let (nanos, cs) ← fraction cs
  let (offset, cs) ← looseOffset cs
  if (skipBlanks cs).isEmpty then
    Fields.toInstant? ⟨⟨year, month, day⟩, hour, minute, second, nanos, offset⟩
  else none

end Switchyard.Time.Reading
