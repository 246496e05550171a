import Switchyard.Proofs.Root.Submit

/-!
# What happens at the root, one turn after the other

The root changes in turns: an operator gives or deletes a command, a client reports commands or
devices or announces itself, or a table arrives that holds what operators gave together with
reports. Such a table is no turn of its own kind: it is its new commands one after the other, and
then its reports. So what every single step keeps holds after any turns.

## Main definitions

* `Root.Turn`, `Root.after` : what may happen, and the root after some turns.
* `Root.Turn.steps` : the single steps of a turn.
* `Root.writtenIn` : the keys that operators touch in some turns.

## Main results

* `Root.after_steps` : turns are their steps, one after the other.
* `Root.keyed_after`, `Root.owner_after` : what all turns keep.
* `Root.get?_after_of_isTerminal` : what is done stays until an operator touches it.
-/

namespace Switchyard.Root

/-- What may happen at the root. -/
inductive Turn where
  | submit (now : Time.Instant) (c : Command)
  | accept (now : Time.Instant) (cs : List Command)
  | acceptPush (now : Time.Instant) (cs : List Command)
  | delete (k : Key)
  | acceptDevices (now : Time.Instant) (ds : List Device)
  | register (now : Time.Instant) (a : Announcement)

/-- An operator deletes a command. Nothing changes if it is not there. -/
def delete (k : Key) (r : Root) : Root :=
  match r.ledger.delete k with
  | .ok (_, ledger) => r.withLedger ledger
  | .error _ => r

/-- The root after a turn. -/
def turn : Turn → Root → Root
  | .submit now c, r => (r.submit now c).2
  | .accept now cs, r => (r.accept now cs).2
  | .acceptPush now cs, r => (r.acceptPush now cs).2
  | .delete k, r => r.delete k
  | .acceptDevices now ds, r => (r.acceptDevices now ds).2
  | .register now a, r => (r.register now a).2

/-- The root after some turns. -/
def after : List Turn → Root → Root
  | [], r => r
  | t :: ts, r => after ts (r.turn t)

/-- The single steps of a turn: a table is its new commands, one after the other, and then its
reports. -/
def Turn.steps : Turn → List Turn
  | .accept now cs =>
    (cs.filter (·.status == .new)).map (.submit now) ++
      [.acceptPush now (cs.filter fun c ↦ !(c.status == .new))]
  | t => [t]

/-- The keys that operators write or delete in a turn. -/
def written : Turn → Root → List Key
  | .submit now c, r => (r.submit now c).1
  | .accept now cs, r => writtenBy now (cs.filter (·.status == .new)) r
  | .delete k, _ => [k]
  | _, _ => []

/-- The keys that operators write or delete in some turns. -/
def writtenIn : List Turn → Root → List Key
  | [], _ => []
  | t :: ts, r => written t r ++ writtenIn ts (r.turn t)

variable {r : Root} {k : Key}

theorem after_append (ts us : List Turn) (r : Root) :
    r.after (ts ++ us) = (r.after ts).after us := by
  induction ts generalizing r with
  | nil => rfl
  | cons t ts ih => exact ih _

/-! ### Tables -/

theorem after_map_submit (now : Time.Instant) (cs : List Command) (r : Root) :
    r.after (cs.map (.submit now)) = (r.submitAll now cs).2 := by
  induction cs generalizing r with
  | nil => rfl
  | cons c cs ih => exact ih _

/-- A turn is its steps. -/
theorem after_steps_turn (t : Turn) (r : Root) : r.after t.steps = r.turn t := by
  cases t with
  | accept now cs =>
    rw [Turn.steps, after_append, after_map_submit, turn, accept, List.partition_eq_filter_filter]
    rfl
  | _ => rfl

/-- Turns are their steps, one after the other. -/
theorem after_steps (ts : List Turn) (r : Root) : r.after (ts.flatMap Turn.steps) = r.after ts := by
  induction ts generalizing r with
  | nil => rfl
  | cons t ts ih => rw [List.flatMap_cons, after_append, after_steps_turn, ih, after]

/-! ### What all turns keep -/

theorem get?_delete (k' k : Key) (r : Root) :
    (r.delete k').ledger.get? k = if k = k' then none else r.ledger.get? k := by
  rw [delete]
  split
  next hd => exact Ledger.get?_delete hd k
  next hd =>
    split
    next hk => rw [hk, Ledger.get?_eq_none_of_delete_error hd]
    next => rfl

theorem keyed_turn (h : r.ledger.Keyed) (t : Turn) : (r.turn t).ledger.Keyed := by
  cases t with
  | submit now c => exact keyed_submit h now c
  | accept now cs => exact keyed_accept h now cs
  | acceptPush now cs => exact h.mergePushed cs
  | delete k =>
    intro k' c hc
    rw [turn, get?_delete] at hc
    split at hc
    · cases hc
    · exact h k' c hc
  | acceptDevices now ds => exact h
  | register now a => exact h

theorem owner_turn (t : Turn) (r : Root) : (r.turn t).ledger.owner = r.ledger.owner := by
  cases t with
  | submit now c => exact owner_submit now c r
  | accept now cs =>
    refine accept_induction (P := fun r' ↦ r'.ledger.owner = r.ledger.owner) rfl ?_ ?_
    · exact fun r' h c _ _ ↦ (owner_submit now c r').trans h
    · exact fun r' h ds _ ↦ (Ledger.owner_mergePushed ds r'.ledger).trans h
  | acceptPush now cs => exact Ledger.owner_mergePushed cs r.ledger
  | delete k =>
    rw [turn, delete]
    split
    next hd => exact Ledger.owner_delete hd
    next => rfl
  | acceptDevices now ds => rfl
  | register now a => rfl

theorem keyed_after (h : r.ledger.Keyed) (ts : List Turn) : (r.after ts).ledger.Keyed := by
  induction ts generalizing r with
  | nil => exact h
  | cons t ts ih => exact ih (keyed_turn h t)

theorem owner_after (ts : List Turn) (r : Root) : (r.after ts).ledger.owner = r.ledger.owner := by
  induction ts generalizing r with
  | nil => rfl
  | cons t ts ih => exact (ih _).trans (owner_turn t r)

/-- What is done stays, unless an operator touches its key. -/
theorem get?_after_of_isTerminal {c : Command} {ts : List Turn} (hc : r.ledger.get? k = some c)
    (hdone : c.status.isTerminal = true) (hk : k ∉ writtenIn ts r) :
    (r.after ts).ledger.get? k = some c := by
  induction ts generalizing r with
  | nil => exact hc
  | cons t ts ih =>
    obtain ⟨hfirst, hrest⟩ : k ∉ written t r ∧ k ∉ writtenIn ts (r.turn t) := by
      simpa [writtenIn] using hk
    refine ih ?_ hrest
    cases t with
    | submit now d => exact (get?_submit_of_not_mem hfirst).trans hc
    | accept now ds => exact get?_accept_of_isTerminal hc hdone hfirst
    | acceptPush now ds => exact Ledger.get?_mergePushed_of_isTerminal hc hdone ds
    | delete k' =>
      rw [turn, get?_delete, if_neg (by simpa [written] using hfirst), hc]
    | acceptDevices now ds => exact hc
    | register now a => exact hc

end Switchyard.Root
