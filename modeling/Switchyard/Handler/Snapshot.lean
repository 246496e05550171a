import Switchyard.Inventory.Archive
import Switchyard.Node

/-!
# Snapshot commands

`devices save`, `devices load` and `devices files list` work on the archive of the node.
-/

namespace Switchyard.Handler

/-- Carries out a snapshot command given by its words and answers with the result. -/
def snapshotAction (now : Time.Instant) (words : List String) (n : Node Archive) :
    Option (Except Fault (String × Node Archive)) :=
  let load (file : Option String) : Except Fault (String × Node Archive) :=
    (n.inventory.load file n.site).map fun (count, inventory) ↦
      ("loaded " ++ toString count ++ " devices", { n with inventory })
  match words with
  | ["devices", "save"] =>
    some ((n.site.save now n.inventory.devices).map fun (name, site) ↦ (name, { n with site }))
  | ["devices", "load"] => some (load none)
  | ["devices", "load", file] => some (load (some file))
  | ["devices", "files", "list"] =>
    some (n.site.snapshots.map fun names ↦ (Text.join "\n" names, n))
  | _ => none

/-- The snapshot commands. -/
def snapshot (now : Time.Instant) : Handler Archive := fun c n ↦
  match snapshotAction now c.words n with
  | none => (c.invalid, n)
  | some (.ok (result, n)) => ({ c with result, status := .ok }, n)
  | some (.error fault) => (c.finish (.error fault.message), n)

/-- The first word of the snapshot commands. -/
def snapshotVerbs : List String := ["devices"]

end Switchyard.Handler
