import Switchyard.Text.Blank
import Switchyard.Text.Cut
import Switchyard.Text.Digits

/-!
# Device addresses

A device is known by the six octets of its hardware address. Addresses are written in many ways;
the canonical way is six pairs of upper-case hexadecimal digits with dashes between them. Reading
goes by the length of the text: seventeen characters are cut at colons and dashes, where further
parts are passed over and missing parts are zero, and twelve characters are cut into pairs.
-/

namespace Switchyard

/-- The six octets of a hardware address. -/
structure Mac where
  octets : List Nat
  length_eq : octets.length = 6
  deriving DecidableEq, Repr

namespace Mac

/-- Six octets from the ones given, zeros standing for the missing ones. -/
def ofParts (ns : List Nat) : Mac :=
  ⟨(ns ++ List.replicate 6 0).take 6, by simp [List.length_take, List.length_append]⟩

/-- The characters that separate octets. -/
def isSeparator (c : Char) : Bool := c == ':' || c == '-'

/-- The consecutive pairs of a list of characters. -/
def pairs : List Char → List (List Char)
  | a :: b :: cs => [a, b] :: pairs cs
  | [a] => [[a]]
  | [] => []

/-- The parts of an address text that are read as octets. -/
def parts (cs : List Char) : Option (List (List Char)) :=
  if ¬cs.all (fun c ↦ c.toNat < 128) then none
  else if cs.length = 17 then some ((Text.pieces isSeparator cs).take 6)
  else if cs.length = 12 then some (pairs cs)
  else none

/-- Reads an address without blanks around it. -/
def ofChars? (cs : List Char) : Option Mac := do
  let ps ← parts cs
  let ns ← ps.mapM (Text.unsigned? 16 256)
  some (ofParts ns)

/-- Reads an address; blanks around it are allowed. -/
def parse? (s : String) : Option Mac := ofChars? (Text.trimChars s.toList)

/-- The canonical text. -/
def text (m : Mac) : String := Text.join "-" (m.octets.map fun n ↦ String.ofList (Text.hexByte n))

/-- Whether all octets are zero. -/
def isZero (m : Mac) : Bool := m.octets.all (· == 0)

/-- The canonical text of an address, if the given text is one. -/
def canonical? (s : String) : Option String := (parse? s).map text

end Mac

/-- Whether a part of an IPv4 address is a number up to 255, written without needless zeros. -/
def isIpv4Octet (cs : List Char) : Bool :=
  match cs with
  | ['0'] => true
  | '0' :: _ => false
  | _ => cs.length ≤ 3 && ((Text.digits? 10 cs).any (· < 256))

/-- Whether a text is an IPv4 address. -/
def isIpv4 (s : String) : Bool :=
  let ps := Text.pieces (· == '.') s.toList
  ps.length == 4 && ps.all isIpv4Octet

end Switchyard
