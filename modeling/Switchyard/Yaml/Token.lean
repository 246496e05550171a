import Switchyard.Text.Utf8
import Switchyard.Yaml.Scalar

/-!
# The tokens of a document

A text is cut into tokens: scalars, names, brackets and marks. Indentation opens and closes blocks,
which have tokens of their own. A key in front of a colon is only known to be one when the colon is
met, so its tokens are put in afterwards, at the place where the key began. Such a key has to stand
on one line and within 1024 characters.

## Main definitions

* `Yaml.Token`.
* `Yaml.Scanner` — the state of the reading.
* `Yaml.tokens` — the tokens of a text, if it can be cut into tokens.
-/

namespace Switchyard.Yaml

/-- A token. -/
inductive Token where
  | version (major minor : Nat)
  | tagHandle (handle : String)
  | documentStart
  | documentEnd
  | sequenceStart
  | mappingStart
  | blockEnd
  | openBracket
  | closeBracket
  | openBrace
  | closeBrace
  | comma
  | entry
  | key
  | value
  | alias (name : String)
  | anchor (name : String)
  | tag (handle : String)
  | scalar (text : String)
  | streamEnd
  deriving Repr, DecidableEq

/-- A place where a key may have begun: its place among the tokens and in the text, and whether
nothing but a key can be there. -/
structure PossibleKey where
  token : Nat
  index : Nat
  line : Nat
  column : Nat
  required : Bool
  deriving Repr, DecidableEq

/-- The state of the reading. The tokens and indentations are kept in reverse, and indentations
are counted from one. For the text outside all brackets and for each bracket that is open there is
one place where a key may have begun. -/
structure Scanner where
  cursor : Cursor
  tokens : List Token := []
  count : Nat := 0
  indent : Nat := 0
  outer : List Nat := []
  keys : List (Option PossibleKey) := [none]
  keyAllowed : Bool := true
  ended : Bool := false
  deriving Repr

namespace Scanner

/-- Whether a bracket is open. -/
def inFlow (s : Scanner) : Bool := 1 < s.keys.length

/-- Adds a token. -/
def emit (t : Token) (s : Scanner) : Scanner :=
  { s with tokens := t :: s.tokens, count := s.count + 1 }

/-- Puts a token in at a place. -/
def emitAt (place : Nat) (t : Token) (s : Scanner) : Scanner :=
  let later := s.count - place
  { s with tokens := s.tokens.take later ++ t :: s.tokens.drop later, count := s.count + 1 }

/-- Closes the blocks that are indented as far as a column or further, columns counted from one. -/
def closeBlocks (column : Nat) (s : Scanner) : Scanner :=
  if s.inFlow then s else go s.outer s
where
  /-- Closes blocks inside the given outer indentations. -/
  go : List Nat → Scanner → Scanner
    | [], s => s
    | o :: os, s =>
      if column < s.indent then go os { s.emit .blockEnd with indent := o, outer := os } else s

/-- Opens a block at a column, counted from one, if it is indented further than the one around
it. -/
def openBlock (column place : Nat) (t : Token) (s : Scanner) : Scanner :=
  if s.inFlow || column ≤ s.indent then s
  else { s.emitAt place t with indent := column, outer := s.indent :: s.outer }

/-- Forgets a place where a key may have begun, unless there has to be one. -/
def dropKey (s : Scanner) : Option Scanner :=
  match s.keys with
  | some k :: ks => if k.required then none else some { s with keys := none :: ks }
  | _ => some s

/-- Remembers that a key may begin here. -/
def saveKey (s : Scanner) : Option Scanner :=
  if s.keyAllowed then
    let c := s.cursor
    let required := !s.inFlow && s.indent == c.column + 1
    match s.dropKey with
    | some s =>
      some { s with keys := some ⟨s.count, c.index, c.line, c.column, required⟩ :: s.keys.drop 1 }
    | none => none
  else some s

/-- Whether a place is too far back for a key that goes on here. -/
def isStale (c : Cursor) (k : PossibleKey) : Bool := k.line < c.line || k.index + 1024 < c.index

/-- Forgets the places that are too far back. -/
def dropStale (s : Scanner) : Option Scanner :=
  if s.keys.any fun k ↦ k.any fun k ↦ isStale s.cursor k && k.required then none
  else some { s with keys := s.keys.map fun k ↦ k.filter (!isStale s.cursor ·) }

/-- Moves on to the next token. Tabs do not indent. -/
def skipGaps : Nat → Scanner → Scanner
  | 0, s => s
  | fuel + 1, s =>
    let c := if s.cursor.column == 0 && s.cursor.sees '\uFEFF' then s.cursor.skip else s.cursor
    let tabs := s.inFlow || !s.keyAllowed
    let c := c.skipRun fun x ↦ x == ' ' || (tabs && x == '\t')
    let c := if c.sees '#' then c.skipLine else c
    if c.peek.any isBreak then
      skipGaps fuel { s with cursor := c.skipBreak, keyAllowed := s.keyAllowed || !s.inFlow }
    else { s with cursor := c }

/-! ### Tokens -/

/-- Reads a mark of some characters. -/
def mark (length : Nat) (t : Token) (s : Scanner) : Scanner :=
  { s.emit t with cursor := s.cursor.skipMany length }

/-- Reads what opens brackets. -/
def opening (t : Token) (s : Scanner) : Option Scanner := do
  let s ← s.saveKey
  some { s.mark 1 t with keys := none :: s.keys, keyAllowed := true }

/-- Reads what closes brackets. -/
def closing (t : Token) (s : Scanner) : Option Scanner := do
  let s ← s.dropKey
  let keys := if s.inFlow then s.keys.drop 1 else s.keys
  some { s.mark 1 t with keys, keyAllowed := false }

/-- Reads a comma. -/
def comma (s : Scanner) : Option Scanner := do
  let s ← s.dropKey
  some { s.mark 1 .comma with keyAllowed := true }

/-- Reads the mark of an entry of a sequence. -/
def entry (s : Scanner) : Option Scanner := do
  if !s.inFlow && !s.keyAllowed then none
  let s ← (s.openBlock (s.cursor.column + 1) s.count .sequenceStart).dropKey
  some { s.mark 1 .entry with keyAllowed := true }

/-- Reads the mark of a key. -/
def explicitKey (s : Scanner) : Option Scanner := do
  if !s.inFlow && !s.keyAllowed then none
  let s ← (s.openBlock (s.cursor.column + 1) s.count .mappingStart).dropKey
  some { s.mark 1 .key with keyAllowed := !s.inFlow }

/-- Reads a colon. What began where a key may have begun is one. -/
def colon (s : Scanner) : Option Scanner :=
  match s.keys with
  | some k :: ks =>
    let s := (s.emitAt k.token .key).openBlock (k.column + 1) k.token .mappingStart
    some { s.mark 1 .value with keys := none :: ks, keyAllowed := false }
  | _ =>
    if s.inFlow then some { s.mark 1 .value with keyAllowed := false }
    else if s.keyAllowed then
      some
        { (s.openBlock (s.cursor.column + 1) s.count .mappingStart).mark 1 .value with
          keyAllowed := true }
    else none

/-- The characters that may stand behind a name. -/
def endsName (c : Cursor) : Bool :=
  c.gapAt 0 || c.peek.any fun x ↦ "?:,]\x7d%@\x60".toList.contains x

/-- Reads an anchor or alias. -/
def name (make : String → Token) (s : Scanner) : Option Scanner := do
  let s ← s.saveKey
  let c := s.cursor.skip
  let word := c.run isWordChar
  let c := c.skipMany word.length
  if word.isEmpty || !endsName c then none
  some { s.emit (make (String.ofList word)) with cursor := c, keyAllowed := false }

/-- The characters of tags. -/
def isTagChar (wide : Bool) (x : Char) : Bool :=
  isWordChar x || ";/?:@&=+$.%!~*'()".toList.contains x || (wide && ",[]".toList.contains x)

/-- Whether every percent sign stands before two hexadecimal digits, and the bytes so written and
the characters around them are a text. -/
def escapesOk (cs : List Char) : Bool :=
  (bytes cs).any fun bs ↦ (Text.Utf8.decode? bs).isSome
where
  /-- The bytes that the characters stand for. -/
  bytes : List Char → Option (List UInt8)
    | [] => some []
    | '%' :: a :: b :: cs => do
      let x ← Text.digitIn 16 a
      let y ← Text.digitIn 16 b
      let bs ← bytes cs
      some (UInt8.ofNat (16 * x + y) :: bs)
    | '%' :: _ => none
    | c :: cs => (bytes cs).map (Text.Utf8.encode [c] ++ ·)

/-- Reads a tag. Only its handle matters, which is empty for a tag in pointed brackets. -/
def tagFrom (c : Cursor) : Option (String × Cursor) := do
  if c.peekAt 1 == some '<' then
    let c := c.skipMany 2
    let uri := c.run (isTagChar true)
    let c := c.skipMany uri.length
    if uri.isEmpty || !escapesOk uri || !c.sees '>' then none
    some ("", c.skip)
  else
    let word := c.skip.run isWordChar
    let after := c.skip.skipMany word.length
    if after.sees '!' then
      let rest := after.skip.run (isTagChar false)
      if rest.isEmpty || !escapesOk rest then none
      some ("!" ++ String.ofList word ++ "!", after.skip.skipMany rest.length)
    else
      let rest := after.run (isTagChar false)
      if !escapesOk (word ++ rest) then none
      some ("!", after.skipMany rest.length)

/-- Reads a tag. -/
def tag (s : Scanner) : Option Scanner := do
  let s ← s.saveKey
  let (handle, c) ← tagFrom s.cursor
  if !(c.gapAt 0 || (s.inFlow && c.sees ',')) then none
  some { s.emit (.tag handle) with cursor := c, keyAllowed := false }

/-- Reads a block. -/
def blockScalar (folded : Bool) (s : Scanner) : Option Scanner := do
  let s ← s.dropKey
  let (text, c) ← block folded s.indent s.cursor
  some { s.emit (.scalar text) with cursor := c, keyAllowed := true }

/-- Reads a quoted scalar. -/
def quotedScalar (double : Bool) (s : Scanner) : Option Scanner := do
  let s ← s.saveKey
  let (text, c) ← quoted double s.cursor
  some { s.emit (.scalar text) with cursor := c, keyAllowed := false }

/-- Reads a plain scalar. -/
def plainScalar (s : Scanner) : Option Scanner := do
  let s ← s.saveKey
  let (text, broken, c) ← plain s.inFlow s.indent s.cursor
  some { s.emit (.scalar text) with cursor := c, keyAllowed := broken }

/-! ### Directives -/

/-- Reads a number of a version. -/
def versionNumber (c : Cursor) : Option (Nat × Cursor) :=
  let digits := c.run Char.isDigit
  if digits.length ≤ 9 then (Text.digits? 10 digits).map fun n ↦ (n, c.skipMany digits.length)
  else none

/-- Reads what a directive is about, the cursor standing behind its name. -/
def directiveBody (name : List Char) (c : Cursor) : Option (Token × Cursor) :=
  let c := c.skipRun isSpaceOrTab
  if name = "YAML".toList then do
    let (major, c) ← versionNumber c
    if !c.sees '.' then none
    let (minor, c) ← versionNumber c.skip
    some (.version major minor, c)
  else if name = "TAG".toList then do
    let word := c.skip.run isWordChar
    let after := c.skip.skipMany word.length
    if !c.sees '!' then none
    let (handle, c) ←
      if after.sees '!' then some ("!" ++ String.ofList word ++ "!", after.skip)
      else if word.isEmpty then some ("!", after)
      else none
    if !c.peek.any isSpaceOrTab then none
    let c := c.skipRun isSpaceOrTab
    let uri := c.run (isTagChar true)
    let c := c.skipMany uri.length
    if uri.isEmpty || !escapesOk uri || !c.gapAt 0 then none
    some (.tagHandle handle, c)
  else none

/-- Reads a directive. -/
def directive (s : Scanner) : Option Scanner := do
  let s ← (s.closeBlocks 0).dropKey
  let name := s.cursor.skip.run isWordChar
  let c := s.cursor.skip.skipMany name.length
  if !c.gapAt 0 then none
  let (token, c) ← directiveBody name c
  let c := c.skipRun isSpaceOrTab
  let c := if c.sees '#' then c.skipLine else c
  if !c.lineEndsAt 0 then none
  let c := if c.rest.isEmpty then c else c.skipBreak
  some { s.emit token with cursor := c, keyAllowed := false }

/-- Reads the mark that begins or ends a document. -/
def documentMark (t : Token) (s : Scanner) : Option Scanner := do
  let s ← (s.closeBlocks 0).dropKey
  some { s.mark 3 t with keyAllowed := false }

/-- Ends the tokens. -/
def finish (s : Scanner) : Option Scanner := do
  let s ← (s.closeBlocks 0).dropKey
  some { s.emit .streamEnd with keyAllowed := false, ended := true }

/-- The characters that begin no plain scalar, unless something else than a gap follows some of
them. -/
def isIndicator (x : Char) : Bool := "-?:,[]\x7b\x7d#&*!|>'\"%@\x60".toList.contains x

/-- Reads one token. -/
def step (s : Scanner) : Option Scanner := do
  let s ← (s.skipGaps (s.cursor.rest.length + 1)).dropStale
  let c := s.cursor
  let s := s.closeBlocks (c.column + 1)
  let flow := s.inFlow
  let gap := c.gapAt 1
  match c.peek with
  | none => s.finish
  | some x =>
    if c.column == 0 && x == '%' then s.directive
    else if c.marks '-' then s.documentMark .documentStart
    else if c.marks '.' then s.documentMark .documentEnd
    else if x == '[' then s.opening .openBracket
    else if x == '\x7b' then s.opening .openBrace
    else if x == ']' then s.closing .closeBracket
    else if x == '\x7d' then s.closing .closeBrace
    else if x == ',' then s.comma
    else if x == '-' && gap then s.entry
    else if x == '?' && (flow || gap) then s.explicitKey
    else if x == ':' && (flow || gap) then s.colon
    else if x == '*' then s.name .alias
    else if x == '&' then s.name .anchor
    else if x == '!' then s.tag
    else if x == '|' && !flow then s.blockScalar false
    else if x == '>' && !flow then s.blockScalar true
    else if x == '\'' then s.quotedScalar false
    else if x == '"' then s.quotedScalar true
    else if isBreak x || isSpaceOrTab x then none
    else if !isIndicator x || x == '-' || (!flow && (x == '?' || x == ':')) then s.plainScalar
    else none

/-- Reads tokens to the end. -/
def run : Nat → Scanner → Option Scanner
  | 0, _ => none
  | fuel + 1, s => if s.ended then some s else s.step.bind (run fuel)

end Scanner

/-- The tokens of a text. -/
def tokens (text : List Char) : Option (List Token) :=
  let text := if text.head? = some '\uFEFF' then text.drop 1 else text
  if text.all isAllowed then
    (Scanner.run (text.length + 2) { cursor := { rest := text } }).map (·.tokens.reverse)
  else none

end Switchyard.Yaml
