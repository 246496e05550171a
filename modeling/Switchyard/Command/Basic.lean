import Switchyard.Command.Key
import Switchyard.Command.Status
import Switchyard.Time.Instant

/-!
# Commands

A command is a line of text that an operator gives, with the story of what became of it. Its first
word selects what is done. The flags belong to the moment the command was given: one copy for
every client, keeping what is already stored, and keeping out of the system log.
-/

namespace Switchyard

/-- What was asked for when a command was given. -/
structure Flags where
  all : Bool := false
  noOverwrite : Bool := false
  noSyslog : Bool := false
  deriving Repr, DecidableEq, Inhabited

/-- A command and its story: when it was given, how far it is, what it answered, how often it was
retried, which node touched it last, the client it is meant for and the device it concerns. -/
structure Command where
  text : String
  timestamp : Option Time.Instant := none
  status : Status := .new
  result : String := ""
  retries : UInt32 := 0
  node : String := ""
  client : Option String := none
  device : Option String := none
  flags : Flags := {}
  deriving Repr, DecidableEq, Inhabited

namespace Command

/-- The number of attempts a command gets before it is cancelled. -/
def maxAttempts : UInt32 := 4

/-- A new command given at a moment. -/
def new (now : Time.Instant) (text : String) : Command := { text, timestamp := some now }

/-- The text after a leading word `all`, if something follows it. -/
def afterAll? (text : String) : Option String :=
  match Text.after? "all ".toList text.toList with
  | some rest =>
    let body := Text.trimChars rest
    if body.isEmpty then none else some (String.ofList body)
  | none => none

/-- Reads what an operator typed: the text without blanks at the ends, and whether a leading word
`all` asks for a copy for every client. -/
def fromOperator (typed : String) : String × Bool :=
  let text := Text.trim typed
  match afterAll? text with
  | some rest => (rest, true)
  | none => (text, false)

/-- The new command that an operator typed at a moment. -/
def ofTyped (now : Time.Instant) (typed : String) : Command :=
  let (text, all) := fromOperator typed
  { new now text with flags := { all } }

/-- What the command is known by. -/
def key (c : Command) : Key := ⟨c.client, c.text⟩

/-- The words of the command text. -/
def words (c : Command) : List String := Text.words c.text

/-- The first word, or the empty text. -/
def verb (c : Command) : String := c.words.headD ""

/-- The command with another status. -/
def finish (c : Command) (status : Status) : Command := { c with status }

/-- The command refused because its text is not understood. -/
def invalid (c : Command) : Command := c.finish (.error "invalid command")

/-- The command with a timestamp, the given one if it has none. -/
def stamped (now : Time.Instant) (c : Command) : Command :=
  { c with timestamp := some (c.timestamp.getD now) }

/-- Whether a text is one of the commands that the root runs itself: saving, loading and listing
snapshots of the inventory. -/
def isForRoot (text : String) : Bool :=
  match Text.words text with
  | ["devices", "save"] => true
  | ["devices", "load"] => true
  | ["devices", "load", _] => true
  | ["devices", "files", "list"] => true
  | _ => false

end Command

end Switchyard
