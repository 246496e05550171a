import Switchyard.Liveness

/-!
# The neighbour table

The operating system keeps a table of neighbours on the network, one line for each after a heading.
A line has six columns: the address on the network, the kind of hardware, flags in hexadecimal, the
hardware address, a mask and the interface. A neighbour counts as answering when the flags say that
its entry is complete and its hardware address is not all zeros.

## Main definitions

* `Neighbours.parse` — the answering neighbours of an interface.
* `Neighbours.noAddress` — what is wrong with an interface that cannot be asked on.
-/

namespace Switchyard.Neighbours

/-- The flag of a complete entry. -/
def completeFlag : Nat := 2

/-- A text without the marks of hexadecimal numbers in front of it. -/
def dropMarks : List Char → List Char
  | '0' :: 'x' :: cs => dropMarks cs
  | cs => cs

/-- Reads flags, which have 32 bits. -/
def flags? (cs : List Char) : Option Nat := Text.unsigned? 16 Text.bound32 (dropMarks cs)

/-- Reads a line if it has an answering neighbour of an interface. -/
def sighting? (interface : String) (line : List Char) : Option Sighting :=
  match Text.wordChars line with
  | [ip, _, flags, mac, _, device] => do
    let flags ← flags? flags
    if String.ofList device = interface ∧ flags / completeFlag % 2 = 1 then
      let mac ← Mac.ofChars? mac
      if mac.isZero then none else some ⟨mac.text, String.ofList ip⟩
    else none
  | _ => none

/-- The answering neighbours of an interface in the order of the table. -/
def parse (table interface : String) : List Sighting :=
  ((Text.lines table).drop 1).filterMap (sighting? interface)

/-- What is wrong with an interface that has no address to ask from. -/
def noAddress (interface : String) : Fault :=
  .transport ("interface " ++ interface ++ " has no usable address")

end Switchyard.Neighbours
