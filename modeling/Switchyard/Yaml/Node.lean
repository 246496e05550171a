import Switchyard.Yaml.Token

/-!
# The nodes of a document

A document is a tree of scalars, sequences and mappings. A node may be given a name by an anchor; an
alias stands for the node of its name that began last. Where a node is due and there is none, an
empty scalar stands. A stream is a list of documents.

## Main definitions

* `Yaml.Node`.
* `Yaml.documents` — the documents of a text, if it is well-formed.
-/

namespace Switchyard.Yaml

/-- A node. A node that is still being read when an alias names it is `endless`. -/
inductive Node where
  | scalar (text : String)
  | sequence (items : List Node)
  | mapping (entries : List (Node × Node))
  | endless
  deriving Repr, Inhabited

/-- What is left to read: tokens, the named nodes, and the declared handles of tags. -/
structure Feed where
  tokens : List Token
  named : List (String × Node) := []
  handles : List String := []
  deriving Repr

namespace Feed

/-- The next token. -/
def peek (f : Feed) : Option Token := f.tokens.head?

/-- Whether the next token is the given one. -/
def sees (t : Token) (f : Feed) : Bool := f.peek == some t

/-- Whether the next token is one of some. -/
def seesAny (ts : List Token) (f : Feed) : Bool := f.peek.any ts.contains

/-- Moves on by a token. -/
def skip (f : Feed) : Feed := { f with tokens := f.tokens.drop 1 }

/-- Names a node that is about to be read. -/
def announce (name : Option String) (f : Feed) : Feed :=
  match name with
  | some name => { f with named := (name, .endless) :: f.named }
  | none => f

/-- Puts a node that was read where it was announced, with so many names before it. -/
def settle (name : Option String) (before : Nat) (n : Node) (f : Feed) : Feed :=
  match name with
  | some name => { f with named := f.named.set (f.named.length - before - 1) (name, n) }
  | none => f

/-- Whether the handle of a tag is known. -/
def knows (handle : String) (f : Feed) : Bool := (["", "!", "!!"] ++ f.handles).contains handle

/-- Reads the anchor and the tag of a node, in either order, and says whether there is one. -/
def properties (f : Feed) : Option (Option String × Bool × Feed) :=
  match f.tokens with
  | .anchor name :: .tag handle :: ts => found (some name) (some handle) ts
  | .tag handle :: .anchor name :: ts => found (some name) (some handle) ts
  | .anchor name :: ts => found (some name) none ts
  | .tag handle :: ts => found none (some handle) ts
  | ts => found none none ts
where
  /-- Checks the handle. -/
  found (name handle : Option String) (ts : List Token) : Option (Option String × Bool × Feed) :=
    if handle.all f.knows then
      some (name, name.isSome || handle.isSome, { f with tokens := ts })
    else none

end Feed

/-- The empty scalar. -/
def Node.empty : Node := .scalar ""

/-- The text of a scalar. -/
def Node.text? : Node → Option String
  | .scalar text => some text
  | _ => none

/-- What is being read: a node, or the rest of a collection whose items so far are given in
reverse. -/
inductive Goal where
  | node (block indentless : Bool)
  | blockItems (items : List Node)
  | indentlessItems (items : List Node)
  | blockEntries (entries : List (Node × Node))
  | flowItems (first : Bool) (items : List Node)
  | flowEntries (first : Bool) (entries : List (Node × Node))

/-- Reads what is to be read. -/
def read : Nat → Goal → Feed → Option (Node × Feed)
  | 0, _, _ => none
  | fuel + 1, goal, f =>
    let nodeUnless (block indentless : Bool) (ends : List Token) (f : Feed) :=
      if f.seesAny ends then some (.empty, f) else read fuel (.node block indentless) f
    let valueUnless (block indentless : Bool) (ends : List Token) (f : Feed) :=
      if f.sees .value then nodeUnless block indentless ends f.skip else some (.empty, f)
    match goal with
    | .node block indentless =>
      match f.peek with
      | some (.alias name) => (f.named.lookup name).map fun n ↦ (n, f.skip)
      | _ => do
        let before := f.named.length
        let (name, hasProperties, f) ← f.properties
        let f := f.announce name
        let done (r : Node × Feed) : Node × Feed := (r.1, r.2.settle name before r.1)
        match f.peek with
        | some (.scalar text) => some (done (.scalar text, f.skip))
        | some .openBracket => (read fuel (.flowItems true []) f.skip).map done
        | some .openBrace => (read fuel (.flowEntries true []) f.skip).map done
        | t =>
          if indentless && t == some .entry then (read fuel (.indentlessItems []) f).map done
          else if block && t == some .sequenceStart then
            (read fuel (.blockItems []) f.skip).map done
          else if block && t == some .mappingStart then
            (read fuel (.blockEntries []) f.skip).map done
          else if hasProperties then some (done (.empty, f))
          else none
    | .blockItems items =>
      if f.sees .entry then do
        let (n, f) ← nodeUnless true false [.entry, .blockEnd] f.skip
        read fuel (.blockItems (n :: items)) f
      else if f.sees .blockEnd then some (.sequence items.reverse, f.skip)
      else none
    | .indentlessItems items =>
      if f.sees .entry then do
        let (n, f) ← nodeUnless true false [.entry, .key, .value, .blockEnd] f.skip
        read fuel (.indentlessItems (n :: items)) f
      else some (.sequence items.reverse, f)
    | .blockEntries entries =>
      if f.sees .blockEnd then some (.mapping entries.reverse, f.skip)
      else if f.sees .key || f.sees .value then do
        let ends := [Token.key, .value, .blockEnd]
        let (k, f) ← if f.sees .key then nodeUnless true true ends f.skip else none
        let (v, f) ← valueUnless true true ends f
        read fuel (.blockEntries ((k, v) :: entries)) f
      else none
    | .flowItems first items =>
      if f.sees .closeBracket then some (.sequence items.reverse, f.skip)
      else do
        let f ← if first then some f else if f.sees .comma then some f.skip else none
        if f.sees .key then
          let f := f.skip
          let ends := [Token.comma, .closeBracket]
          let (k, f) ←
            if f.seesAny (.value :: ends) then some (.empty, f.skip)
            else read fuel (.node false false) f
          let (v, f) ← valueUnless false false ends f
          read fuel (.flowItems false (.mapping [(k, v)] :: items)) f
        else if f.sees .closeBracket then some (.sequence items.reverse, f.skip)
        else
          let (n, f) ← read fuel (.node false false) f
          read fuel (.flowItems false (n :: items)) f
    | .flowEntries first entries =>
      if f.sees .closeBrace then some (.mapping entries.reverse, f.skip)
      else do
        let f ← if first then some f else if f.sees .comma then some f.skip else none
        let ends := [Token.comma, .closeBrace]
        if f.sees .key then
          let (k, f) ← nodeUnless false false (.value :: ends) f.skip
          let (v, f) ← valueUnless false false ends f
          read fuel (.flowEntries false ((k, v) :: entries)) f
        else if f.sees .closeBrace then some (.mapping entries.reverse, f.skip)
        else
          let (n, f) ← read fuel (.node false false) f
          read fuel (.flowEntries false ((n, .empty) :: entries)) f

/-- Reads the directives in front of a document. A version may be given once and has to be 1.1 or
1.2, and no handle may be declared twice. -/
def directives : Bool → List String → List Token → Option (List String × List Token)
  | seen, handles, .version major minor :: ts =>
    if seen || major != 1 || (minor != 1 && minor != 2) then none else directives true handles ts
  | seen, handles, .tagHandle h :: ts =>
    if handles.contains h then none else directives seen (h :: handles) ts
  | _, handles, ts => some (handles, ts)

/-- Whether a document has no content before its end. -/
def endsDocument (ts : List Token) : Bool :=
  match ts with
  | .version _ _ :: _ | .tagHandle _ :: _ | .documentStart :: _ | .documentEnd :: _ => true
  | .streamEnd :: _ | [] => true
  | _ => false

/-- Reads the content of a document. -/
def content (handles : List String) (ts : List Token) : Option (Node × List Token) :=
  if endsDocument ts then some (.empty, ts)
  else
    (read (2 * ts.length + 2) (.node true false) { tokens := ts, handles }).map fun (n, f) ↦
      (n, f.tokens)

/-- Reads documents to the end. Only the first may begin without a mark. -/
def documentsFrom : Nat → Bool → List Token → Option (List Node)
  | 0, _, _ => none
  | fuel + 1, first, ts =>
    let ts := if first then ts else ts.dropWhile (· == .documentEnd)
    match ts with
    | [] => some []
    | [.streamEnd] => some []
    | _ => do
      let (handles, body) ← directives false [] ts
      let body ←
        match body with
        | .documentStart :: body => some body
        | _ => if first && body.length == ts.length then some body else none
      let (n, rest) ← content handles body
      let rest := if rest.head? == some .documentEnd then rest.drop 1 else rest
      let ns ← documentsFrom fuel false rest
      some (n :: ns)

/-- The documents of a text, if it is well-formed. -/
def documents (text : String) : Option (List Node) := do
  let ts ← tokens text.toList
  documentsFrom (ts.length + 1) true ts

end Switchyard.Yaml
