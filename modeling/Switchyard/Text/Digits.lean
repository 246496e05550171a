/-!
# Reading numbers

An unsigned number is an optional plus sign and at least one digit of its base, and it must fit a
given bound. Letters serve as digits above nine in either case. Of numbers with a fraction it
matters only whether double precision can hold them.
-/

namespace Switchyard.Text

/-- The value of a character as a digit, letters counting on from ten. -/
def digitValue (c : Char) : Option Nat :=
  if '0' ≤ c ∧ c ≤ '9' then some (c.toNat - '0'.toNat)
  else if 'a' ≤ c ∧ c ≤ 'z' then some (c.toNat - 'a'.toNat + 10)
  else if 'A' ≤ c ∧ c ≤ 'Z' then some (c.toNat - 'A'.toNat + 10)
  else none

/-- The value of a character as a digit of the given base. -/
def digitIn (base : Nat) (c : Char) : Option Nat :=
  (digitValue c).filter (· < base)

/-- Reads digits onto a number already begun. -/
def digitsFrom (base : Nat) : Nat → List Char → Option Nat
  | n, [] => some n
  | n, c :: cs => (digitIn base c).bind fun d ↦ digitsFrom base (n * base + d) cs

/-- Reads a nonempty list of digits. -/
def digits? (base : Nat) : List Char → Option Nat
  | [] => none
  | cs => digitsFrom base 0 cs

/-- Reads an unsigned number below `bound`, with an optional plus sign. -/
def unsigned? (base bound : Nat) (cs : List Char) : Option Nat :=
  let body := match cs with
    | '+' :: rest => rest
    | _ => cs
  (digits? base body).filter (· < bound)

/-- The bound of numbers written in 32 bits. -/
def bound32 : Nat := 4294967296

/-- The bound of numbers written in 64 bits. -/
def bound64 : Nat := 18446744073709551616

/-- Whether an integer can be written in 64 bits of which one is for its sign. -/
def fitsSigned (n : Int) : Bool := -9223372036854775808 ≤ n && n < 9223372036854775808

/-- The least number that double precision rounds to infinity: half a unit in the last place beyond
the greatest finite one. -/
def infinityBound : Nat := Nat.pow 2 1024 - Nat.pow 2 970

/-- Whether a number, scaled by a power of ten, rounds to infinity in double precision. Numbers
that have far fewer or far more digits than the bound are not compared with it. -/
def overflows (n : Nat) (scale : Int) : Bool :=
  let magnitude : Int := (Nat.toDigits 10 n).length + scale
  if n = 0 then false
  else if magnitude > 310 then true
  else if magnitude < 300 then false
  else if scale < 0 then infinityBound * Nat.pow 10 (-scale).toNat ≤ n
  else infinityBound ≤ n * Nat.pow 10 scale.toNat

/-- Two upper-case hexadecimal digits of a number below 256. -/
def hexByte (n : Nat) : List Char :=
  let digit (d : Nat) : Char := Char.ofNat (if d < 10 then '0'.toNat + d else 'A'.toNat + d - 10)
  [digit (n / 16 % 16), digit (n % 16)]

/-- A number with zeros in front up to the given width. -/
def padded (width n : Nat) : String :=
  let ds := Nat.toDigits 10 n
  String.ofList (List.replicate (width - ds.length) '0' ++ ds)

end Switchyard.Text
