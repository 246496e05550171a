import Switchyard.Text.Blank
import Switchyard.Text.Cut

/-!
# Media types

A media type is a type and a subtype with a slash between them, after which parameters may follow,
each behind a semicolon. What follows the last plus sign of a subtype is its suffix. Types and
subtypes are compared without regard to case.

A parameter is a name, an equals sign and a value; the value is a token or stands in quotes. Spaces
may come before a name and after a quoted value.
-/

namespace Switchyard.Http

/-- A media type without its parameters, in lower case. -/
structure MediaType where
  type : String
  subtype : String
  suffix : Option String
  deriving Repr, DecidableEq

namespace MediaType

/-- The characters of tokens. -/
def isTokenChar (c : Char) : Bool := c.isAlphanum || "!#$%&'*+-.^_`|~".toList.contains c

/-- The characters inside quotes. A quote there is one only at the very start. -/
def isQuotedChar (c : Char) : Bool := 0x20 ≤ c.toNat && c.toNat ≤ 0x7E

/-- What may come next while parameters are read. -/
inductive ParameterState where
  | beforeName
  | name
  | beforeValue
  | value
  | quoted (empty : Bool)
  | afterQuoted
  deriving Repr, DecidableEq

/-- Takes one character of the parameters. -/
def ParameterState.next (s : ParameterState) (c : Char) : Option ParameterState :=
  match s with
  | .beforeName => if c = ' ' then some .beforeName else if isTokenChar c then some .name else none
  | .name => if c = '=' then some .beforeValue else if isTokenChar c then some .name else none
  | .beforeValue =>
    if c = '"' then some (.quoted true) else if isTokenChar c then some .value else none
  | .value => if c = ';' then some .beforeName else if isTokenChar c then some .value else none
  | .quoted empty =>
    if c = '"' ∧ ¬empty then some .afterQuoted
    else if isQuotedChar c then some (.quoted false)
    else none
  | .afterQuoted =>
    if c = ' ' then some .afterQuoted else if c = ';' then some .beforeName else none

/-- Whether parameters may end here. -/
def ParameterState.mayEnd : ParameterState → Bool
  | .beforeName | .beforeValue | .value | .afterQuoted => true
  | .name | .quoted _ => false

/-- Whether a text consists of parameters. -/
def areParameters (cs : List Char) : Bool :=
  (cs.foldlM ParameterState.next .beforeName).any (·.mayEnd)

/-- The subtype and the suffix that some characters spell. A plus sign in front begins no
suffix. -/
def splitSuffix (cs : List Char) : List Char × Option (List Char) :=
  let suffix := (cs.reverse.takeWhile (· != '+')).reverse
  let subtype := cs.take (cs.length - suffix.length - 1)
  if suffix.length < cs.length ∧ subtype ≠ [] then (subtype, some suffix) else (cs, none)

/-- Reads a media type. -/
def parse? (s : String) : Option MediaType := do
  let (type, rest) ← Text.cutAt '/' s.toList
  let (subtype, parameters) := (Text.cutAt ';' rest).getD (rest, [])
  let named := !type.isEmpty && type.all isTokenChar && subtype.all isTokenChar
  if named && (!subtype.isEmpty || !rest.contains ';') && areParameters parameters then
    let lower (cs : List Char) : String := String.ofList (cs.map Char.toLower)
    let (subtype, suffix) := splitSuffix subtype
    some ⟨lower type, lower subtype, suffix.map lower⟩
  else none

/-- Whether a media type is that of JSON documents. -/
def isJson (m : MediaType) : Bool :=
  m.type == "application" && (m.subtype == "json" || m.suffix == some "json")

end MediaType

end Switchyard.Http
