import Switchyard.Text.Blank
import Switchyard.Text.Cut

/-!
# The status of a command

A command is new, or pending with a reason, until it is done: with success, with an error, or
cancelled after too many attempts. Between nodes a status travels as a line of text. Reading takes
every text: one that is not among the written forms is an error, so nothing unknown is ever run
again.
-/

namespace Switchyard

/-- How far a command is. A cancellation may carry a note. -/
inductive Status where
  | new
  | pending (reason : String)
  | ok
  | error (reason : String)
  | cancelled (note : Option String)
  deriving Repr, DecidableEq, Inhabited

namespace Status

/-- Whether the command is done. -/
def isTerminal : Status → Bool
  | .new => false
  | .pending _ => false
  | .ok => true
  | .error _ => true
  | .cancelled _ => true

/-- Whether the command is still to be run. -/
def isRunnable (s : Status) : Bool := !s.isTerminal

/-- Whether the command is pending. -/
def isPending : Status → Bool
  | .pending _ => true
  | _ => false

/-- The words that mark an error as a cancellation. -/
def cancelledText : String := "cancelled, too many retries"

/-- The line of text that stands for a status. -/
def text : Status → String
  | .new => ""
  | .pending reason => "pending: " ++ reason
  | .ok => "ok"
  | .error reason => "error: " ++ reason
  | .cancelled none => "error: " ++ cancelledText
  | .cancelled (some note) => "error: " ++ cancelledText ++ " (" ++ note ++ ")"

/-- The note in what follows the words of a cancellation: without commas in front, and without
the parentheses around it. -/
def noteIn (cs : List Char) : List Char :=
  let unmarked := Text.trimChars ((Text.trimChars cs).dropWhile (· == ','))
  Text.trimChars (Text.dropEndWhile (· == ')') (unmarked.dropWhile (· == '(')))

/-- Reads what follows the mark of an error. -/
def ofReason (cs : List Char) : Status :=
  match Text.after? cancelledText.toList cs with
  | some rest =>
    let note := noteIn rest
    .cancelled (if note.isEmpty then none else some (String.ofList note))
  | none => .error (String.ofList cs)

/-- Reads a status from characters without blanks at the ends. -/
def ofTrimmed (cs : List Char) : Status :=
  if cs.isEmpty then .new
  else if cs = ['o', 'k'] then .ok
  else
    match Text.after? "pending:".toList cs with
    | some rest => .pending (String.ofList (Text.trimChars rest))
    | none =>
      match Text.after? "error:".toList cs with
      | some rest => ofReason (Text.trimChars rest)
      | none => .error (String.ofList cs)

/-- Reads a status from its line of text. -/
def parse (s : String) : Status := ofTrimmed (Text.trimChars s.toList)

end Status

end Switchyard
