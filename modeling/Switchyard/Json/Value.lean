import Switchyard.Text.Digits

/-!
# Writing JSON

The values that the library writes have no fractions: they are texts, integers, truth values, null,
and arrays and objects of these. They are written without blanks between tokens, or on several
lines for a reader.
-/

namespace Switchyard.Json

/-- A JSON value to be written. -/
inductive Value where
  | null
  | bool (b : Bool)
  | int (n : Int)
  | text (s : String)
  | array (items : List Value)
  | object (fields : List (String × Value))
  deriving Repr, Inhabited

namespace Value

instance : Coe String Value := ⟨.text⟩
instance : Coe Bool Value := ⟨.bool⟩
instance : Coe Nat Value := ⟨fun n ↦ .int n⟩

/-- A text, or null for none. -/
def ofOption (s : Option String) : Value :=
  match s with
  | some s => .text s
  | none => .null

/-- Two lower-case hexadecimal digits. -/
def hexPair (n : Nat) : List Char :=
  [Nat.digitChar (n / 16 % 16), Nat.digitChar (n % 16)]

/-- A character inside a string literal. -/
def escape (c : Char) : List Char :=
  match c with
  | '"' => ['\\', '"']
  | '\\' => ['\\', '\\']
  | '\n' => ['\\', 'n']
  | '\r' => ['\\', 'r']
  | '\t' => ['\\', 't']
  | '\x08' => ['\\', 'b']
  | '\x0c' => ['\\', 'f']
  | _ => if c.toNat < 0x20 then ['\\', 'u', '0', '0'] ++ hexPair c.toNat else [c]

/-- The literal that spells a text. -/
def quote (s : String) : String :=
  "\"" ++ String.ofList (s.toList.flatMap escape) ++ "\""

mutual

/-- The text of a value. -/
def render : Value → String
  | .null => "null"
  | .bool b => if b then "true" else "false"
  | .int n => toString n
  | .text s => quote s
  | .array vs => "[" ++ renderItems vs ++ "]"
  | .object fs => "\x7b" ++ renderFields fs ++ "\x7d"

/-- The texts of some values with commas between them. -/
def renderItems : List Value → String
  | [] => ""
  | [v] => v.render
  | v :: vs => v.render ++ "," ++ renderItems vs

/-- The texts of some members with commas between them. -/
def renderFields : List (String × Value) → String
  | [] => ""
  | [(k, v)] => quote k ++ ":" ++ v.render
  | (k, v) :: fs => quote k ++ ":" ++ v.render ++ "," ++ renderFields fs

end

/-- The end of a line and the blanks in front of the next one, two for every array and object that
is open. -/
def newLine (depth : Nat) : String := "\n" ++ String.ofList (List.replicate (2 * depth) ' ')

mutual

/-- The text of a value on several lines: every item and every member has a line of its own. -/
def pretty (depth : Nat) : Value → String
  | .array (v :: vs) => "[" ++ prettyItems (depth + 1) (v :: vs) ++ newLine depth ++ "]"
  | .object (f :: fs) => "\x7b" ++ prettyFields (depth + 1) (f :: fs) ++ newLine depth ++ "\x7d"
  | v => v.render

/-- The texts of some values with commas between them, each on its own line. -/
def prettyItems (depth : Nat) : List Value → String
  | [] => ""
  | [v] => newLine depth ++ v.pretty depth
  | v :: vs => newLine depth ++ v.pretty depth ++ "," ++ prettyItems depth vs

/-- The texts of some members with commas between them, each on its own line. -/
def prettyFields (depth : Nat) : List (String × Value) → String
  | [] => ""
  | [(k, v)] => newLine depth ++ quote k ++ ": " ++ v.pretty depth
  | (k, v) :: fs => newLine depth ++ quote k ++ ": " ++ v.pretty depth ++ "," ++ prettyFields depth fs

end

end Value

end Switchyard.Json
