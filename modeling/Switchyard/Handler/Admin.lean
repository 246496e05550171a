import Switchyard.Client.Bench
import Switchyard.Text.Digits

/-!
# Commands for the node itself

`command delete` takes a command out of the ledger; `command interval` and `arp interval` change the
two intervals.
-/

namespace Switchyard.Handler

variable {ω : Type}

/-- Takes the command out of the ledger whose wire form the words spell. -/
def deleteCommand (words : List String) : Handler (Bench ω) := fun c n ↦
  let key := Key.parse (Text.join " " words)
  match n.ledger.delete key with
  | .ok (_, ledger) =>
    ({ c with result := "deleted " ++ key.wire, status := .ok }, { n with ledger })
  | .error fault => (c.finish (.error fault.message), n)

/-- The reason for an interval that is refused. -/
def refusal : Fault → String
  | .rejected reason => reason
  | fault => fault.message

/-- Changes an interval to the number of seconds that a word spells. -/
def setInterval (set : Nat → Intervals → Except Fault Intervals) (word : String) :
    Handler (Bench ω) := fun c n ↦
  match Text.unsigned? 10 Text.bound64 word.toList with
  | none => (c.invalid, n)
  | some seconds =>
    match set seconds n.site.intervals with
    | .error fault => (c.finish (.error (refusal fault)), n)
    | .ok intervals =>
      ({ c with result := "interval set to " ++ toString seconds ++ " seconds", status := .ok },
        { n with site := { n.site with intervals } })

/-- The commands for the node itself. -/
def admin : Handler (Bench ω) := fun c n ↦
  match c.words with
  | "command" :: "delete" :: word :: words => deleteCommand (word :: words) c n
  | ["command", "interval", seconds] => setInterval Intervals.setCommand seconds c n
  | ["arp", "interval", seconds] => setInterval Intervals.setLiveness seconds c n
  | _ => (c.invalid, n)

/-- The first words of the commands for the node itself. -/
def adminVerbs : List String := ["command", "arp"]

end Switchyard.Handler
