/-!
# Blank characters, trimming and words

A text is taken apart at blanks in three ways: blanks at its ends are trimmed, blanks inside it
separate words, and line feeds separate lines. Blank means the Unicode class White_Space, so the
no-break space and the ideographic space are blank, while the zero-width space and the control
characters U+001C to U+001F are not.
-/

namespace Switchyard.Text

/-- The characters of the Unicode class White_Space. -/
def isBlank (c : Char) : Bool :=
  let n := c.toNat
  (0x09 ≤ n && n ≤ 0x0D) || n == 0x20 || n == 0x85 || n == 0xA0 || n == 0x1680 ||
    (0x2000 ≤ n && n ≤ 0x200A) || n == 0x2028 || n == 0x2029 || n == 0x202F || n == 0x205F ||
    n == 0x3000

/-- A list without its longest final run of members that satisfy `p`. -/
def dropEndWhile (p : Char → Bool) (cs : List Char) : List Char :=
  (cs.reverse.dropWhile p).reverse

/-- A list of characters without the blanks at its two ends. -/
def trimChars (cs : List Char) : List Char :=
  dropEndWhile isBlank (cs.dropWhile isBlank)

/-- A text without the blanks at its two ends. -/
def trim (s : String) : String :=
  String.ofList (trimChars s.toList)

/-- The pieces between the characters that satisfy `p`: one more than there are separators. -/
def pieces (p : Char → Bool) : List Char → List (List Char)
  | [] => [[]]
  | c :: cs =>
    if p c then [] :: pieces p cs
    else
      match pieces p cs with
      | [] => [[c]]
      | w :: ws => (c :: w) :: ws

/-- The blank-separated words of a list of characters. -/
def wordChars (cs : List Char) : List (List Char) :=
  (pieces isBlank cs).filter (fun w ↦ !w.isEmpty)

/-- The blank-separated words of a text. -/
def words (s : String) : List String :=
  (wordChars s.toList).map String.ofList

/-- A line without the carriage return that may precede its line feed. -/
def dropReturn (cs : List Char) : List Char :=
  if cs.getLast? = some '\r' then cs.dropLast else cs

/-- The lines of a text. A line feed ends a line, so a final one does not begin another; a
carriage return before it belongs to the line end. -/
def lines (s : String) : List (List Char) :=
  match (pieces (· == '\n') s.toList).reverse with
  | [] => []
  | last :: earlier =>
    earlier.reverse.map dropReturn ++ (if last.isEmpty then [] else [last])

theorem pieces_ne_nil (p : Char → Bool) (cs : List Char) : pieces p cs ≠ [] := by
  induction cs with
  | nil => simp [pieces]
  | cons c cs ih =>
    unfold pieces
    split
    · simp
    · split <;> simp

end Switchyard.Text
