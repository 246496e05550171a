/-!
# Words of a command line

A command line is split into words at spaces, tabs and line feeds. Quotes keep such characters in a
word, a backslash keeps the next character, and a number sign where a word could begin starts a
comment up to the end of the line. Inside double quotes a backslash keeps only a dollar sign, a
backquote, a double quote, a backslash or a line feed; a line feed that is kept this way disappears.
A quote that is not closed makes the line unreadable.
-/

namespace Switchyard.Helper

/-- Where in a command line the next character stands. -/
inductive LineState where
  | blank
  | blankEscape
  | bare
  | bareEscape
  | single
  | double
  | doubleEscape
  | comment
  deriving Repr, DecidableEq

/-- The characters between words. -/
def separates (c : Char) : Bool := c == ' ' || c == '\t' || c == '\n'

/-- The characters that a backslash keeps inside double quotes. -/
def keptInDouble (c : Char) : Bool := c == '$' || c == '\x60' || c == '"' || c == '\\'

/-- Splits what follows, where the current word, in reverse, has been read so far. -/
def splitFrom : LineState → List Char → List Char → Option (List (List Char))
  | .blank, _, [] => some []
  | .comment, _, [] => some []
  | .bare, w, [] => some [w.reverse]
  | .blankEscape, w, [] => some [('\\' :: w).reverse]
  | .bareEscape, w, [] => some [('\\' :: w).reverse]
  | .single, _, [] => none
  | .double, _, [] => none
  | .doubleEscape, _, [] => none
  | .blank, w, c :: cs =>
    if separates c then splitFrom .blank w cs
    else if c = '\'' then splitFrom .single w cs
    else if c = '"' then splitFrom .double w cs
    else if c = '\\' then splitFrom .blankEscape w cs
    else if c = '#' then splitFrom .comment w cs
    else splitFrom .bare (c :: w) cs
  | .blankEscape, w, c :: cs =>
    if c = '\n' then splitFrom .blank w cs else splitFrom .bare (c :: w) cs
  | .bare, w, c :: cs =>
    if separates c then (splitFrom .blank [] cs).map (w.reverse :: ·)
    else if c = '\'' then splitFrom .single w cs
    else if c = '"' then splitFrom .double w cs
    else if c = '\\' then splitFrom .bareEscape w cs
    else splitFrom .bare (c :: w) cs
  | .bareEscape, w, c :: cs =>
    if c = '\n' then splitFrom .bare w cs else splitFrom .bare (c :: w) cs
  | .single, w, c :: cs =>
    if c = '\'' then splitFrom .bare w cs else splitFrom .single (c :: w) cs
  | .double, w, c :: cs =>
    if c = '"' then splitFrom .bare w cs
    else if c = '\\' then splitFrom .doubleEscape w cs
    else splitFrom .double (c :: w) cs
  | .doubleEscape, w, c :: cs =>
    if c = '\n' then splitFrom .double w cs
    else if keptInDouble c then splitFrom .double (c :: w) cs
    else splitFrom .double (c :: '\\' :: w) cs
  | .comment, w, c :: cs =>
    if c = '\n' then splitFrom .blank w cs else splitFrom .comment w cs

/-- The words of a command line, if its quotes are closed. -/
def splitLine (line : String) : Option (List String) :=
  (splitFrom .blank [] line.toList).map fun ws ↦ ws.map String.ofList

end Switchyard.Helper
