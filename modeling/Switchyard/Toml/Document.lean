import Switchyard.Toml.Literal
import Switchyard.Toml.Value

/-!
# Files of settings

A file consists of lines. A line holds a setting, which is a key, an equals sign and a value, or a
header, or nothing; behind that there may be a comment. What follows a header up to the next one
belongs to the table that it names. Arrays may go over several lines, and so may what is in them.

Values nest less than 80 deep, and a key has less than 80 names.

## Main definitions

* `Toml.value` — reads a value.
* `Toml.sections` — the sections of a file.
* `Toml.read?` — the table that a file means.
-/

namespace Switchyard.Toml

/-! ### Between values -/

/-- Passes over blanks. -/
def skipBlanks (cs : List Char) : List Char := cs.dropWhile fun c ↦ c == ' ' || c == '\t'

/-- Passes over blanks, breaks and comments, beginning inside a comment or outside. -/
def skipGaps : Bool → List Char → List Char
  | _, '\n' :: cs | _, '\r' :: '\n' :: cs => skipGaps false cs
  | false, ' ' :: cs | false, '\t' :: cs => skipGaps false cs
  | false, '#' :: cs => skipGaps true cs
  | true, c :: cs => if isPlain c then skipGaps true cs else c :: cs
  | _, cs => cs

/-- Passes over the rest of a line, where nothing but a comment may stand. -/
def endLine (cs : List Char) : Option (List Char) :=
  let cs := skipBlanks cs
  let cs := if cs.head? = some '#' then cs.dropWhile isPlain else cs
  match cs with
  | [] => some []
  | '\n' :: cs | '\r' :: '\n' :: cs => some cs
  | _ => none

/-! ### Values -/

/-- The number that keeps nesting and keys within bounds. -/
def depthBound : Nat := 80

/-- Reads names with dots between them, less than a number of them. -/
def names : Nat → List Char → Option (List String × List Char)
  | 0, _ | 1, _ => none
  | bound + 1, cs => do
    let (n, cs) ← name (skipBlanks cs)
    match skipBlanks cs with
    | '.' :: cs => (names bound cs).map fun (ns, cs) ↦ (n :: ns, cs)
    | cs => some ([n], cs)

/-- Reads a key. -/
def key (cs : List Char) : Option (Key × List Char) := do
  let (ns, cs) ← names depthBound cs
  let last ← ns.getLast?
  some (⟨ns.dropLast, last⟩, cs)

/-- Reads a setting, its value with the given reader. -/
def setting (value : List Char → Option (Value × List Char)) (cs : List Char) :
    Option (Setting × List Char) := do
  let (key, cs) ← key cs
  let (v, cs) ← value (skipBlanks (← Text.after? ['='] cs))
  some (⟨key, v⟩, cs)

/-- Reads the items of an array up to its closing bracket. -/
def items (value : List Char → Option (Value × List Char)) :
    Nat → List Char → Option (List Value × List Char)
  | 0, _ => none
  | fuel + 1, cs =>
    match skipGaps false cs with
    | ']' :: cs => some ([], cs)
    | cs => do
      let (v, cs) ← value cs
      match skipGaps false cs with
      | ',' :: cs => (items value fuel cs).map fun (vs, cs) ↦ (v :: vs, cs)
      | ']' :: cs => some ([v], cs)
      | _ => none

/-- Reads the settings of a table up to its closing brace. A comma stands between them only. -/
def settings (value : List Char → Option (Value × List Char)) :
    Nat → List Char → Option (List Setting × List Char)
  | 0, _ => none
  | fuel + 1, cs => do
    let (s, cs) ← setting value cs
    match skipBlanks cs with
    | ',' :: cs => (settings value fuel cs).map fun (ss, cs) ↦ (s :: ss, cs)
    | '\x7d' :: cs => some ([s], cs)
    | _ => none

/-- Reads a value without brackets or braces. -/
def simpleValue (cs : List Char) : Option (Value × List Char) :=
  match cs with
  | '"' :: _ | '\'' :: _ => (text cs).map fun (s, cs) ↦ (.text s, cs)
  | 't' :: _ | 'f' :: _ => (boolean cs).map fun (b, cs) ↦ (.boolean b, cs)
  | _ =>
    match moment cs with
    | some cs => some (.moment, cs)
    | none =>
      match fraction cs with
      | some cs => some (.fraction, cs)
      | none => (integer cs).map fun (n, cs) ↦ (.integer n, cs)

/-- Reads a value that nests less than a number. -/
def value : Nat → List Char → Option (Value × List Char)
  | bound + 1, '[' :: cs =>
    if bound = 0 then none
    else (items (value bound) (cs.length + 1) cs).map fun (vs, cs) ↦ (.array vs, cs)
  | bound + 1, '\x7b' :: cs =>
    if bound = 0 then none
    else
      match skipBlanks cs with
      | '\x7d' :: cs => some (.table .braces [], cs)
      | cs => do
        let (ss, cs) ← settings (value bound) (cs.length + 1) cs
        let entries ← Entries.addAll ss []
        some (.table .braces entries, cs)
  | _, cs => simpleValue cs

/-! ### Sections -/

/-- A header, and whether it adds a table to a list of tables. -/
structure Header where
  key : Key
  listed : Bool
  deriving Repr, DecidableEq

/-- A header with the settings that follow it. The first section of a file has no header. -/
structure Section where
  header : Option Header
  settings : List Setting
  deriving Repr

/-- Reads a header. -/
def header : List Char → Option (Header × List Char)
  | '[' :: '[' :: cs => do
    let (key, cs) ← key cs
    some (⟨key, true⟩, ← Text.after? "]]".toList cs)
  | '[' :: cs => do
    let (key, cs) ← key cs
    some (⟨key, false⟩, ← Text.after? [']'] cs)
  | _ => none

/-- Reads sections, of which the first is begun already; its settings are given in reverse. -/
def sectionsFrom (current : Option Header) : Nat → List Setting → List Char → Option (List Section)
  | 0, _, _ => none
  | fuel + 1, ss, cs =>
    match skipBlanks cs with
    | [] => some [⟨current, ss.reverse⟩]
    | '[' :: cs => do
      let (h, cs) ← header ('[' :: cs)
      let later ← sectionsFrom (some h) fuel [] (← endLine cs)
      some (⟨current, ss.reverse⟩ :: later)
    | c :: cs =>
      if c == '#' || c == '\n' || c == '\r' then
        (endLine (c :: cs)).bind (sectionsFrom current fuel ss)
      else do
        let (s, cs) ← setting (value depthBound) (c :: cs)
        sectionsFrom current fuel (s :: ss) (← endLine cs)

/-- The sections of a file. -/
def sections (text : String) : Option (List Section) :=
  let cs := match text.toList with
    | '\uFEFF' :: cs => cs
    | cs => cs
  sectionsFrom none (cs.length + 1) [] cs

/-- Adds a section to a table. -/
def Section.addTo (s : Section) (es : Entries) : Option Entries :=
  match s.header with
  | none => es.addAll s.settings
  | some h =>
    let change := if h.listed then Entries.appendTable else Entries.openTable
    Entries.changeAt (change h.key.name s.settings) h.key.path es

/-- The table that a file means, if it is well-formed. -/
def read? (text : String) : Option Entries := do
  let parts ← sections text
  parts.foldlM (fun es s ↦ s.addTo es) []

end Switchyard.Toml
