/-!
# Tables of settings

A table names values, and a value may be a table again. A table is not always complete when it comes
about: keys with dots and headers may add to it later, from other places of a file. Who may add to
it depends on how it came about.

* What is in braces is complete.
* To a table that has a header of its own, only other headers may add.
* To a table that dotted keys made, dotted keys may add; it gets no header of its own.
* A table that only stands on the way to one with a header may get a header of its own later.
  Dotted keys may pass through it, but not end in it.

A name means one value only, apart from a name under which tables are listed: each header of such a
list adds a table, and whatever else uses the name adds to the last one.

## Main definitions

* `Toml.Value`, `Toml.Entries`.
* `Toml.Entries.add` — adds a value under a key.
* `Toml.Entries.openTable`, `Toml.Entries.appendTable` — what the two kinds of headers do.
-/

namespace Switchyard.Toml

/-- How a table came about. -/
inductive Origin where
  | header
  | onTheWay
  | dottedKey
  | braces
  deriving Repr, DecidableEq

/-- A value. Of fractions and of dates and times it only matters that they are none of the others.
Of a list of tables, the last table comes first. -/
inductive Value where
  | text (s : String)
  | integer (n : Int)
  | boolean (b : Bool)
  | fraction
  | moment
  | array (items : List Value)
  | table (origin : Origin) (entries : List (String × Value))
  | tables (last : List (String × Value)) (earlier : List (List (String × Value)))
  deriving Repr, Inhabited

/-- What a table holds. -/
abbrev Entries := List (String × Value)

/-- A key: the names in front of its dots, and the name behind the last dot. -/
structure Key where
  path : List String
  name : String
  deriving Repr, DecidableEq

/-- A key and its value. -/
structure Setting where
  key : Key
  value : Value
  deriving Repr

namespace Entries

/-- Writes a value under a name, in place of one that is there. -/
def write (name : String) (v : Value) : Entries → Entries
  | [] => [(name, v)]
  | e :: es => if e.1 = name then (name, v) :: es else e :: write name v es

/-- Whether a dotted key may go through a table of an origin, or end in it. -/
def admits (ends : Bool) : Origin → Bool
  | .dottedKey => true
  | .onTheWay => !ends
  | .header | .braces => false

/-- Adds a value under a name of the table that a path leads to. -/
def addAt (name : String) (v : Value) : List String → Entries → Option Entries
  | [], es => if (es.lookup name).isSome then none else some (es ++ [(name, v)])
  | p :: ps, es =>
    match es.lookup p with
    | none => (addAt name v ps []).map fun inner ↦ write p (.table .dottedKey inner) es
    | some (.table origin inner) =>
      if admits ps.isEmpty origin then
        (addAt name v ps inner).map fun inner ↦ write p (.table origin inner) es
      else none
    | some (.tables last earlier) =>
      if ps.isEmpty then none
      else (addAt name v ps last).map fun last ↦ write p (.tables last earlier) es
    | some _ => none

/-- Adds a setting. -/
def add (s : Setting) (es : Entries) : Option Entries := addAt s.key.name s.value s.key.path es

/-- Adds settings one after the other. -/
def addAll (ss : List Setting) (es : Entries) : Option Entries := ss.foldlM (fun es s ↦ es.add s) es

/-- Changes the table that the path of a header leads to. -/
def changeAt (change : Entries → Option Entries) : List String → Entries → Option Entries
  | [], es => change es
  | p :: ps, es =>
    match es.lookup p with
    | none => (changeAt change ps []).map fun inner ↦ write p (.table .onTheWay inner) es
    | some (.table origin inner) =>
      if origin = .braces then none
      else (changeAt change ps inner).map fun inner ↦ write p (.table origin inner) es
    | some (.tables last earlier) =>
      (changeAt change ps last).map fun last ↦ write p (.tables last earlier) es
    | some _ => none

/-- Adds settings under the header of a table. -/
def openTable (name : String) (ss : List Setting) (es : Entries) : Option Entries :=
  match es.lookup name with
  | none => (addAll ss []).map fun inner ↦ write name (.table .header inner) es
  | some (.table .onTheWay inner) =>
    (addAll ss inner).map fun inner ↦ write name (.table .header inner) es
  | some _ => none

/-- Adds settings under the header of a list of tables. -/
def appendTable (name : String) (ss : List Setting) (es : Entries) : Option Entries :=
  match es.lookup name with
  | none => (addAll ss []).map fun inner ↦ write name (.tables inner []) es
  | some (.tables last earlier) =>
    (addAll ss []).map fun inner ↦ write name (.tables inner (last :: earlier)) es
  | some _ => none

end Entries

end Switchyard.Toml
