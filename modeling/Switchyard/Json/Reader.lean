import Switchyard.Json.Document
import Switchyard.Table

/-!
# Reading values out of JSON

A reader turns a document into a value or names the first misfit from left to right: the text is
malformed, or it is JSON but of another shape. Members of an object that a reader does not know are
passed over, provided they are JSON. A record may also be written as the array of its members in
their order; members left out at the end then keep their defaults.
-/

namespace Switchyard.Json

/-- Why a document has no value of a shape: the text is no JSON, or it is of another shape. -/
inductive Misfit where
  | malformed
  | mistyped
  deriving Repr, DecidableEq

/-- What is wrong, in words. -/
def Misfit.text : Misfit → String
  | malformed => "the text is not JSON"
  | mistyped => "the value has another shape"

/-- A reader of values. -/
abbrev Reader (α : Type) := Document → Except Misfit α

namespace Reader

/-- What a document of an unexpected kind is: malformed if its own text is at fault. -/
def mismatch : Document → Misfit
  | .broken => .malformed
  | .string .unpaired => .malformed
  | .number n => if n.tooLarge then .malformed else .mistyped
  | _ => .mistyped

/-- Reads a text. -/
def text : Reader String
  | .string (.text s) => .ok s
  | d => .error (mismatch d)

/-- Reads a truth value. -/
def bool : Reader Bool
  | .constant .true => .ok true
  | .constant .false => .ok false
  | d => .error (mismatch d)

/-- Reads a natural number below a bound. -/
def natural (bound : Nat) : Reader Nat
  | .number n =>
    match n.toNat? with
    | some k => if k < bound then .ok k else .error (mismatch (.number n))
    | none => .error (mismatch (.number n))
  | d => .error (mismatch d)

/-- Reads an integer of 64 bits. -/
def integer : Reader Int
  | .number n =>
    match n.toInt? with
    | some k =>
      if Text.fitsSigned k then .ok k else .error (mismatch (.number n))
    | none => .error (mismatch (.number n))
  | d => .error (mismatch d)

/-- Reads null as nothing and all else with `r`. -/
def optional {α : Type} (r : Reader α) : Reader (Option α)
  | .constant .null => .ok none
  | d => (r d).map some

/-- Reads the items of an array one after the other. -/
def items {α : Type} (r : Reader α) : List Document → Except Misfit (List α)
  | [] => .ok []
  | d :: ds => do
    let a ← r d
    let rest ← items r ds
    pure (a :: rest)

/-- Reads an array. -/
def list {α : Type} (r : Reader α) : Reader (List α)
  | .array ds closed => do
    let as ← items r ds
    if closed then .ok as else .error .malformed
  | d => .error (mismatch d)

/-- Reads the members of an object used as a table, the later of two with one key winning. -/
def entries {α : Type} (r : Reader α) :
    List (Spelling × Document) → Except Misfit (List (String × α))
  | [] => .ok []
  | (.unpaired, _) :: _ => .error .malformed
  | (.text k, d) :: rest => do
    let a ← r d
    let more ← entries r rest
    pure ((k, a) :: more)

/-- Reads an object as a table. -/
def table {α : Type} (r : Reader α) : Reader (Table String α)
  | .object fields closed => do
    let es ← entries r fields
    if closed then .ok (Table.ofList es) else .error .malformed
  | d => .error (mismatch d)

/-- A record with named members: how each is read into the record, and which must be there. -/
structure Shape (σ : Type) where
  blank : σ
  members : List (String × (Document → σ → Except Misfit σ))
  required : List String

/-- A member that is read by `r` and stored by `store`. -/
def member {α σ : Type} (name : String) (r : Reader α) (store : α → σ → σ) :
    String × (Document → σ → Except Misfit σ) :=
  (name, fun d s ↦ (r d).map fun a ↦ store a s)

namespace Shape

variable {σ : Type}

/-- Reads named members. One that is named twice is a misfit, one that is unknown is passed
over. -/
def readFields (shape : Shape σ) :
    List (Spelling × Document) → List String → σ → Except Misfit (List String × σ)
  | [], seen, s => .ok (seen, s)
  | (.unpaired, _) :: _, _, _ => .error .malformed
  | (.text k, d) :: rest, seen, s =>
    match shape.members.lookup k with
    | some set =>
      if k ∈ seen then .error .mistyped
      else do
        let s ← set d s
        readFields shape rest (k :: seen) s
    | none => if d.whole then readFields shape rest seen s else .error .malformed

/-- Reads members in their order. -/
def readItems (closed : Bool) :
    List (String × (Document → σ → Except Misfit σ)) → List Document → List String → σ →
      Except Misfit (List String × σ)
  | [], [], seen, s => if closed then .ok (seen, s) else .error .malformed
  | [], _ :: _, _, _ => .error .malformed
  | _ :: _, [], seen, s => if closed then .ok (seen, s) else .error .malformed
  | (k, set) :: members, d :: ds, seen, s => do
    let s ← set d s
    readItems closed members ds (k :: seen) s

/-- Reads a record. -/
def read (shape : Shape σ) : Reader σ
  | .object fields closed => do
    let (seen, s) ← shape.readFields fields [] shape.blank
    if ¬closed then .error .malformed
    else if shape.required.all (· ∈ seen) then .ok s
    else .error .mistyped
  | .array ds closed => do
    let (seen, s) ← readItems closed shape.members ds [] shape.blank
    if shape.required.all (· ∈ seen) then .ok s else .error .mistyped
  | d => .error (mismatch d)

end Shape

/-- Reads a whole text with `r`; only blanks may follow the value. -/
def run {α : Type} (r : Reader α) (s : String) : Except Misfit α := do
  let (d, rest) := Document.ofText s
  let a ← r d
  if rest.isEmpty then .ok a else .error .malformed

end Reader

end Switchyard.Json
