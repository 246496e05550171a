import Switchyard.Json.Token

/-!
# JSON documents

A document is read from tokens as far as they are JSON. Where the text breaks off, an array or
object stays open and the value that was due is `broken`, so a document always exists and shows
both what was read and where reading ended. A reader that walks a document from left to right
meets a fault of the text exactly where the text has it.
-/

namespace Switchyard.Json

/-- A JSON value as far as it was read. The flag of an array or object says whether it ends. -/
inductive Document where
  | broken
  | constant (c : Constant)
  | number (n : Numeral)
  | string (s : Spelling)
  | array (items : List Document) (closed : Bool)
  | object (fields : List (Spelling × Document)) (closed : Bool)
  deriving Repr, Inhabited

namespace Document

/-- An array or object that is being read, its members in reverse. The object may have a key that
waits for its value. -/
inductive Frame where
  | array (items : List Document)
  | object (fields : List (Spelling × Document)) (key : Option Spelling)
  deriving Repr

/-- What the next token has to be. -/
inductive Expected where
  | value
  | valueOrEnd
  | keyOrEnd
  | key
  | colon
  | commaOrEnd
  deriving Repr, DecidableEq

/-- An array or object that ends with the value given, if there is one. -/
def Frame.finish (closed : Bool) (last : Option Document) : Frame → Document
  | .array items => .array (last.toList ++ items).reverse closed
  | .object fields key =>
    .object (((key.bind fun k ↦ last.map fun d ↦ (k, d)).toList ++ fields).reverse) closed

/-- The document that is there when reading ends inside the frames, the innermost first. -/
def giveUp : List Frame → Option Document → Document
  | [], last => last.getD .broken
  | f :: fs, last => giveUp fs (some (f.finish false last))

/-- What reading stops with when the tokens do not go on as expected. A value that is due is
broken; elsewhere an array or object just stays open. -/
def stop (frames : List Frame) : Expected → Document
  | .value | .colon => giveUp frames (some .broken)
  | .valueOrEnd | .keyOrEnd | .key | .commaOrEnd => giveUp frames none

/-- Adds a finished value to the innermost frame. -/
def Frame.add (d : Document) : Frame → Frame
  | .array items => .array (d :: items)
  | .object fields (some k) => .object ((k, d) :: fields) none
  | .object fields none => .object fields none

/-- Reads one document and says which tokens are left. -/
def build : List Frame → Expected → List Token → Document × List Token
  | frames, expected, [] => (stop frames expected, [.bad])
  | frames, expected, t :: ts =>
    let finished (d : Document) (fs : List Frame) : Document × List Token :=
      match fs with
      | [] => (d, ts)
      | f :: fs => build (f.add d :: fs) .commaOrEnd ts
    let fail : Document × List Token := (stop frames expected, [.bad])
    let value : Document × List Token :=
      match t with
      | .constant c => finished (.constant c) frames
      | .number n => finished (.number n) frames
      | .string s => finished (.string s) frames
      | .openArray => build (.array [] :: frames) .valueOrEnd ts
      | .openObject => build (.object [] none :: frames) .keyOrEnd ts
      | _ => (stop frames .value, [.bad])
    match expected, t, frames with
    | .value, _, _ => value
    | .valueOrEnd, .closeArray, f :: fs => finished (f.finish true none) fs
    | .valueOrEnd, _, _ => value
    | .keyOrEnd, .closeObject, f :: fs => finished (f.finish true none) fs
    | .keyOrEnd, .string s, .object fields _ :: fs =>
      build (.object fields (some s) :: fs) .colon ts
    | .key, .string s, .object fields _ :: fs => build (.object fields (some s) :: fs) .colon ts
    | .colon, .colon, _ => build frames .value ts
    | .commaOrEnd, .comma, .array _ :: _ => build frames .value ts
    | .commaOrEnd, .comma, .object _ _ :: _ => build frames .key ts
    | .commaOrEnd, .closeArray, .array items :: fs =>
      finished ((Frame.array items).finish true none) fs
    | .commaOrEnd, .closeObject, .object fields key :: fs =>
      finished ((Frame.object fields key).finish true none) fs
    | _, _, _ => fail

/-- Reads a text as a document and says which tokens are left. -/
def ofText (s : String) : Document × List Token :=
  build [] .value (Token.ofText s)

mutual

/-- Whether a value was read to its end. -/
def whole : Document → Bool
  | .broken => false
  | .constant _ => true
  | .number _ => true
  | .string _ => true
  | .array items closed => wholeItems items && closed
  | .object fields closed => wholeFields fields && closed

/-- Whether every item was read to its end. -/
def wholeItems : List Document → Bool
  | [] => true
  | d :: ds => d.whole && wholeItems ds

/-- Whether every field was read to its end. -/
def wholeFields : List (Spelling × Document) → Bool
  | [] => true
  | (_, d) :: fs => d.whole && wholeFields fs

end

mutual

/-- Whether a value can be held in memory: it was read to its end, its strings are texts, its
numbers are finite, and at most `depth` arrays and objects are open at once. -/
def holdable (depth : Nat) : Document → Bool
  | .broken => false
  | .constant _ => true
  | .number n => !n.tooLarge
  | .string s => s != .unpaired
  | .array items closed => 0 < depth && holdableItems (depth - 1) items && closed
  | .object fields closed => 0 < depth && holdableFields (depth - 1) fields && closed

/-- Whether every item can be held. -/
def holdableItems (depth : Nat) : List Document → Bool
  | [] => true
  | d :: ds => d.holdable depth && holdableItems depth ds

/-- Whether every field can be held. -/
def holdableFields (depth : Nat) : List (Spelling × Document) → Bool
  | [] => true
  | (k, d) :: fs => k != .unpaired && d.holdable depth && holdableFields depth fs

end

end Document

end Switchyard.Json
