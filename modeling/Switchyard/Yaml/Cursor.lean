/-!
# Reading a document by lines and columns

A cursor stands in a text, at a line and a column. Five characters break lines; a carriage return
and the line feed behind it are one break.
-/

namespace Switchyard.Yaml

/-- A place in a text. -/
structure Cursor where
  rest : List Char
  index : Nat := 0
  line : Nat := 0
  column : Nat := 0
  deriving Repr, DecidableEq

/-- Whether a character may stand in a document. -/
def isAllowed (c : Char) : Bool :=
  let n := c.toNat
  n == 0x09 || n == 0x0A || n == 0x0D || (0x20 ≤ n && n ≤ 0x7E) || n == 0x85 ||
    (0xA0 ≤ n && n ≤ 0xFFFD) || 0x10000 ≤ n

/-- Whether a character breaks lines. -/
def isBreak (c : Char) : Bool :=
  c == '\n' || c == '\r' || c == '\u0085' || c == '\u2028' || c == '\u2029'

/-- Whether a character is a space or a tab. -/
def isSpaceOrTab (c : Char) : Bool := c == ' ' || c == '\t'

/-- Whether a character goes into the names of anchors and tags. -/
def isWordChar (c : Char) : Bool := c.isAlphanum || c == '_' || c == '-'

namespace Cursor

/-- The character at a distance. -/
def peekAt (n : Nat) (c : Cursor) : Option Char := c.rest[n]?

/-- The next character. -/
def peek (c : Cursor) : Option Char := c.rest.head?

/-- Whether the next character is the given one. -/
def sees (x : Char) (c : Cursor) : Bool := c.peek == some x

/-- Whether the text ends, or the line does, at a distance. -/
def lineEndsAt (n : Nat) (c : Cursor) : Bool := (c.peekAt n).all isBreak

/-- Whether there is a space, a tab or the end of the line at a distance. -/
def gapAt (n : Nat) (c : Cursor) : Bool :=
  (c.peekAt n).all fun x ↦ isBreak x || isSpaceOrTab x

/-- Moves on by one character of the line. -/
def skip (c : Cursor) : Cursor :=
  { c with rest := c.rest.drop 1, index := c.index + 1, column := c.column + 1 }

/-- Moves on by some characters of the line. -/
def skipMany (n : Nat) (c : Cursor) : Cursor :=
  { c with rest := c.rest.drop n, index := c.index + n, column := c.column + n }

/-- The length of the break at the front of a text. -/
def breakLength : List Char → Nat
  | '\r' :: '\n' :: _ => 2
  | c :: _ => if isBreak c then 1 else 0
  | [] => 0

/-- Moves on past a break to the next line. -/
def skipBreak (c : Cursor) : Cursor :=
  let n := breakLength c.rest
  { rest := c.rest.drop n, index := c.index + n, line := c.line + 1, column := 0 }

/-- What a break means in a text: a line feed, unless it separates lines or paragraphs. -/
def breakText (c : Cursor) : List Char :=
  match c.peek with
  | some '\u2028' => ['\u2028']
  | some '\u2029' => ['\u2029']
  | _ => ['\n']

/-- Whether a line begins with three characters of a kind and a gap. -/
def marks (x : Char) (c : Cursor) : Bool :=
  c.column == 0 && c.rest.take 3 == [x, x, x] && c.gapAt 3

/-- Whether a document begins or ends here. -/
def atDocumentMark (c : Cursor) : Bool := c.marks '-' || c.marks '.'

/-- The characters up to the first that does not satisfy `p`. -/
def run (p : Char → Bool) (c : Cursor) : List Char := c.rest.takeWhile p

/-- Moves on past the characters that satisfy `p`. -/
def skipRun (p : Char → Bool) (c : Cursor) : Cursor := c.skipMany (c.run p).length

/-- Moves on to the end of the line. -/
def skipLine (c : Cursor) : Cursor := c.skipRun (!isBreak ·)

end Cursor

end Switchyard.Yaml
