import Switchyard.Text.Blank
import Switchyard.Text.Cut
import Switchyard.Text.Digits
import Switchyard.Text.Utf8

/-!
# Queries

The query of a request target is a list of fields `name=value` between ampersands. In names and
values a plus sign stands for a space and a percent sign with two hexadecimal digits for a byte; a
percent sign without them stands for itself. The bytes are read as UTF-8.
-/

namespace Switchyard.Http.Query

/-- The bytes that some characters of a query stand for. -/
def bytes : List Char → List UInt8
  | [] => []
  | '+' :: cs => 0x20 :: bytes cs
  | '%' :: a :: b :: cs =>
    match Text.digitIn 16 a, Text.digitIn 16 b with
    | some x, some y => UInt8.ofNat (16 * x + y) :: bytes cs
    | _, _ => 0x25 :: bytes (a :: b :: cs)
  | c :: cs => Text.Utf8.encode [c] ++ bytes cs

/-- The text that some characters of a query stand for. -/
def decode (cs : List Char) : String := String.ofList (Text.Utf8.decodeLossy (bytes cs))

/-- A field. Without an equals sign its value is empty. -/
def field (cs : List Char) : String × String :=
  match Text.cutAt '=' cs with
  | some (name, value) => (decode name, decode value)
  | none => (decode cs, "")

/-- The fields of a query in their order. -/
def fields (query : List Char) : List (String × String) :=
  ((Text.pieces (· == '&') query).filter (!·.isEmpty)).map field

/-- The values of the fields with a name. -/
def values (name : String) (fs : List (String × String)) : List String :=
  (fs.filter (·.1 == name)).map (·.2)

/-- Whether none of the names is given more than once. -/
def unambiguous (names : List String) (fs : List (String × String)) : Bool :=
  names.all fun name ↦ (values name fs).length ≤ 1

/-- The value of a field if it is given and not empty. -/
def value? (name : String) (fs : List (String × String)) : Option String :=
  (values name fs).head?.filter (!·.isEmpty)

/-- Whether a byte stands for itself in a query: digits, letters and four marks do. -/
def isPlain (b : UInt8) : Bool :=
  let c := Char.ofNat b.toNat
  b.toNat < 0x80 && (c.isAlphanum || c == '*' || c == '-' || c == '.' || c == '_')

/-- A byte as it is written in a query. -/
def escape (b : UInt8) : List Char :=
  if isPlain b then [Char.ofNat b.toNat]
  else if b = 0x20 then ['+']
  else '%' :: Text.hexByte b.toNat

/-- A text as it is written in a query. -/
def encode (s : String) : String :=
  String.ofList ((Text.Utf8.encode s.toList).flatMap escape)

end Switchyard.Http.Query
