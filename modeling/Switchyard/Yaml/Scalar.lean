import Switchyard.Text.Digits
import Switchyard.Yaml.Cursor

/-!
# Scalars

A scalar is a text, written plainly, in quotes, or as a block of lines. Plain and quoted scalars may
go over several lines: a single break between them becomes a space, of several breaks the first is
dropped. Blocks keep their breaks, or fold them likewise between lines that are not indented
further.

## Main definitions

* `Yaml.plain`, `Yaml.quoted`, `Yaml.block` — the three ways to write a scalar.
-/

namespace Switchyard.Yaml

/-- The blanks between two parts of a scalar: whether a line was broken, the blanks before that, the
first break and the breaks after it. -/
structure Blanks where
  broken : Bool := false
  spaces : List Char := []
  first : List Char := []
  more : List Char := []
  deriving Repr, DecidableEq

/-- What blanks between two parts of a scalar mean. -/
def Blanks.text (b : Blanks) : List Char :=
  if b.broken then
    if b.first = ['\n'] then if b.more.isEmpty then [' '] else b.more
    else b.first ++ b.more
  else b.spaces

/-- Reads blanks and breaks. With an indentation given, a tab before it is a fault. -/
def blanks (indent : Option Nat) : Nat → Blanks → Cursor → Option (Blanks × Cursor)
  | 0, _, _ => none
  | fuel + 1, b, c =>
    match c.peek with
    | none => some (b, c)
    | some x =>
      if isSpaceOrTab x then
        if b.broken && x == '\t' && indent.any (c.column < ·) then none
        else if b.broken then blanks indent fuel b c.skip
        else blanks indent fuel { b with spaces := b.spaces ++ [x] } c.skip
      else if isBreak x then
        if b.broken then blanks indent fuel { b with more := b.more ++ c.breakText } c.skipBreak
        else
          blanks indent fuel { broken := true, first := c.breakText, more := b.more } c.skipBreak
      else some (b, c)

/-! ### Plain scalars -/

/-- The marks of collections in brackets. -/
def isFlowMark (x : Char) : Bool := ",[]\x7b\x7d".toList.contains x

/-- The characters that may not stand right behind a colon in brackets. -/
def isColonFault (x : Char) : Bool := ",?[]\x7b\x7d".toList.contains x

/-- Reads the characters of a plain scalar up to a gap or a mark. -/
def plainRun (flow : Bool) : Nat → List Char → Cursor → Option (List Char × Cursor)
  | 0, _, _ => none
  | fuel + 1, read, c =>
    match c.peek with
    | none => some (read, c)
    | some x =>
      if isBreak x || isSpaceOrTab x then some (read, c)
      else if flow && x == ':' && (c.peekAt 1).any isColonFault then none
      else if (x == ':' && c.gapAt 1) || (flow && isFlowMark x) then some (read, c)
      else plainRun flow fuel (read ++ [x]) c.skip

/-- Reads on a plain scalar, where `text` and the blanks after it are read already. -/
def plainFrom (flow : Bool) (indent : Nat) :
    Nat → List Char → Blanks → Cursor → Option (List Char × Blanks × Cursor)
  | 0, _, _, _ => none
  | fuel + 1, text, b, c =>
    if c.atDocumentMark || c.sees '#' then some (text, b, c)
    else do
      let (part, c) ← plainRun flow (c.rest.length + 1) [] c
      let (text, b) := if part.isEmpty then (text, b) else (text ++ b.text ++ part, {})
      if c.rest.isEmpty || !c.gapAt 0 then some (text, b, c)
      else do
        let (b, c) ← blanks (some indent) (c.rest.length + 1) b c
        if !flow && c.column < indent then some (text, b, c)
        else plainFrom flow indent fuel text b c

/-- A plain scalar. It is also told whether the scalar ends behind a break. -/
def plain (flow : Bool) (indent : Nat) (c : Cursor) : Option (String × Bool × Cursor) := do
  let (text, b, c) ← plainFrom flow indent (c.rest.length + 1) [] {} c
  some (String.ofList text, b.broken, c)

/-! ### Quoted scalars -/

/-- The character that a single character stands for behind a backslash. -/
def escapedChar (x : Char) : Option Char :=
  [('0', '\x00'), ('a', '\x07'), ('b', '\x08'), ('t', '\t'), ('\t', '\t'), ('n', '\n'),
    ('v', '\x0b'), ('f', '\x0c'), ('r', '\r'), ('e', '\x1b'), (' ', ' '), ('"', '"'), ('/', '/'),
    ('\\', '\\'), ('N', '\u0085'), ('_', '\u00a0'), ('L', '\u2028'), ('P', '\u2029')].lookup x

/-- The number of hexadecimal digits behind a letter that gives a character by its number. -/
def codeLength (x : Char) : Option Nat := [('x', 2), ('u', 4), ('U', 8)].lookup x

/-- Reads an escape, the cursor standing at the backslash. -/
def escape (c : Cursor) : Option (Char × Cursor) := do
  let x ← c.peekAt 1
  match escapedChar x, codeLength x with
  | some y, _ => some (y, c.skipMany 2)
  | none, some n =>
    let digits := (c.rest.drop 2).take n
    let code ← Text.digits? 16 digits
    if h : digits.length = n ∧ code.isValidChar then
      some (Char.ofNatAux code h.2, c.skipMany (2 + n))
    else none
  | none, none => none

/-- Reads the characters of a quoted scalar up to a gap or the closing quote. It is also told
whether an escaped break was read. -/
def quotedRun (double : Bool) : Nat → List Char → Cursor → Option (List Char × Bool × Cursor)
  | 0, _, _ => none
  | fuel + 1, read, c =>
    match c.peek with
    | none => some (read, false, c)
    | some x =>
      if isBreak x || isSpaceOrTab x then some (read, false, c)
      else if !double && x == '\'' && c.peekAt 1 == some '\'' then
        quotedRun double fuel (read ++ ['\'']) (c.skipMany 2)
      else if x == (if double then '"' else '\'') then some (read, false, c)
      else if double && x == '\\' then
        if (c.peekAt 1).any isBreak then some (read, true, c.skip.skipBreak)
        else
          match escape c with
          | some (y, c) => quotedRun double fuel (read ++ [y]) c
          | none => none
      else quotedRun double fuel (read ++ [x]) c.skip

/-- Reads on a quoted scalar, where `text` is read already. -/
def quotedFrom (double : Bool) : Nat → List Char → Cursor → Option (List Char × Cursor)
  | 0, _, _ => none
  | fuel + 1, text, c =>
    if c.atDocumentMark || c.rest.isEmpty then none
    else do
      let (part, broken, c) ← quotedRun double (c.rest.length + 1) [] c
      let text := text ++ part
      if c.sees (if double then '"' else '\'') then some (text, c.skip)
      else do
        let (b, c) ← blanks none (c.rest.length + 1) { broken } c
        quotedFrom double fuel (text ++ b.text) c

/-- A quoted scalar, the cursor standing at its opening quote. -/
def quoted (double : Bool) (c : Cursor) : Option (String × Cursor) := do
  let (text, c) ← quotedFrom double (c.rest.length + 1) [] c.skip
  some (String.ofList text, c)

/-! ### Blocks -/

/-- What becomes of the breaks at the end of a block. -/
inductive Chomping where
  | strip
  | clip
  | keep
  deriving Repr, DecidableEq

/-- What a character says about the breaks at the end of a block. -/
def chompingMark (x : Char) : Option Chomping := [('-', Chomping.strip), ('+', .keep)].lookup x

/-- What a digit says about the indentation of a block. -/
def indentMark (x : Char) : Option Nat := (Text.digitIn 10 x).filter (0 < ·)

/-- Reads the heading of a block behind its first mark: what becomes of its last breaks, and by how
much it is indented if that is given. The two may come in either order. -/
def blockMarks (c : Cursor) : Option (Chomping × Option Nat × Cursor) :=
  let mark (n : Nat) : Option Chomping := (c.peekAt n).bind chompingMark
  let digit (n : Nat) : Option Char := (c.peekAt n).filter Char.isDigit
  match mark 0, digit 0 with
  | some k, _ =>
    match digit 1 with
    | some d => (indentMark d).map fun i ↦ (k, some i, c.skipMany 2)
    | none => some (k, none, c.skip)
  | none, some d =>
    (indentMark d).map fun i ↦
      match mark 1 with
      | some k => (k, some i, c.skipMany 2)
      | none => (.clip, some i, c.skip)
  | none, none => some (.clip, none, c)

/-- Reads the heading of a block to the end of its line. -/
def blockHeading (c : Cursor) : Option (Chomping × Option Nat × Cursor) := do
  let (k, i, c) ← blockMarks c
  let c := c.skipRun isSpaceOrTab
  let c := if c.sees '#' then c.skipLine else c
  if c.rest.isEmpty then some (k, i, c)
  else if c.lineEndsAt 0 then some (k, i, c.skipBreak)
  else none

/-- Reads empty lines of a block up to its next line, with the indentation if it is known and the
greatest one met. -/
def emptyLines (indent : Option Nat) : Nat → Nat → List Char → Cursor →
    Option (Nat × List Char × Cursor)
  | 0, _, _, _ => none
  | fuel + 1, greatest, breaks, c =>
    let spaces := (c.run (· == ' ')).length
    let c := c.skipMany (match indent with
      | some n => min spaces (n - c.column)
      | none => spaces)
    let greatest := max greatest c.column
    if c.sees '\t' && indent.all (c.column < ·) then none
    else if c.peek.any isBreak then
      emptyLines indent fuel greatest (breaks ++ c.breakText) c.skipBreak
    else some (greatest, breaks, c)

/-- Reads the lines of a block. Given are the text so far, the break that ended the last line,
whether that line began with a blank, and the breaks of empty lines after it. -/
def blockLines (folded : Bool) (indent : Nat) : Nat → List Char → List Char → Bool → List Char →
    Cursor → Option (List Char × List Char × List Char × Cursor)
  | 0, _, _, _, _, _ => none
  | fuel + 1, text, last, blank, breaks, c =>
    if c.column != indent || c.rest.isEmpty then some (text, last, breaks, c)
    else do
      let nowBlank := c.peek.any isSpaceOrTab
      let joint :=
        if folded && last == ['\n'] && !blank && !nowBlank then
          if breaks.isEmpty then [' '] else []
        else last
      let line := c.run (!isBreak ·)
      let c := c.skipMany line.length
      let (ending, c) := if c.rest.isEmpty then ([], c) else (c.breakText, c.skipBreak)
      let (_, more, c) ← emptyLines (some indent) (c.rest.length + 1) 0 [] c
      blockLines folded indent fuel (text ++ joint ++ breaks ++ line) ending nowBlank more c

/-- A block, the cursor standing at its first mark. The indentation around it is given, counted
from one. -/
def block (folded : Bool) (around : Nat) (c : Cursor) : Option (String × Cursor) := do
  let (chomping, given, c) ← blockHeading c.skip
  let given := given.map fun i ↦ if 0 < around then around - 1 + i else i
  let (greatest, breaks, c) ← emptyLines given (c.rest.length + 1) 0 [] c
  let indent := given.getD (max greatest (max around 1))
  let (text, last, breaks, c) ← blockLines folded indent (c.rest.length + 1) [] [] false breaks c
  let ending := match chomping with
    | .strip => []
    | .clip => last
    | .keep => last ++ breaks
  some (String.ofList (text ++ ending), c)

end Switchyard.Yaml
