import Switchyard.Proofs.Ledger.Lookup

/-!
# What any operations on a ledger keep

A ledger changes by five operations: an operator gives or deletes a command, what was pulled or
pushed is merged, the outcome of an attempt is kept. Whatever operations follow one another, every
command stands under its own key, and what is done stays as it is until an operator writes or
deletes its key. A merge leaves the flags of a command alone that is there already.

## Main definitions

* `Ledger.Operation` : the operations on a ledger.
* `Ledger.after`, `Ledger.touched` : the ledger after some operations, and the keys that operators
  write or delete by them.

## Main results

* `Ledger.Keyed.after` : every command stands under its own key.
* `Ledger.get?_after_of_isTerminal` : what is done stays.
* `Ledger.exists_get?_mergePulled`, `Ledger.exists_get?_mergePushed` : merging keeps flags.
-/

namespace Switchyard.Ledger

/-- What may be done to a ledger. -/
inductive Operation where
  | give (now : Time.Instant) (c : Command) (clients : List String)
  | delete (k : Key)
  | mergePulled (cs : List Command)
  | mergePushed (now : Time.Instant) (cs : List Command)
  | complete (c : Command)
  deriving Repr, DecidableEq

namespace Operation

/-- The ledger after an operation. Deleting what is not there changes nothing. -/
def apply : Operation → Ledger → Ledger
  | .give now c clients, l => (l.give now c clients).2
  | .delete k, l =>
    match l.delete k with
    | .ok (_, rest) => rest
    | .error _ => l
  | .mergePulled cs, l => (l.mergePulled cs).2
  | .mergePushed now cs, l => (l.mergePushed now cs).2
  | .complete c, l => (l.complete c).2

/-- The keys that an operator writes or deletes by an operation. -/
def touched : Operation → Ledger → List Key
  | .give now c clients, l => (l.give now c clients).1
  | .delete k, _ => [k]
  | _, _ => []

end Operation

/-- The ledger after some operations. -/
def after : List Operation → Ledger → Ledger
  | [], l => l
  | op :: ops, l => after ops (op.apply l)

/-- The keys that operators write or delete by some operations. -/
def touched : List Operation → Ledger → List Key
  | [], _ => []
  | op :: ops, l => op.touched l ++ touched ops (op.apply l)

variable {l : Ledger} {k : Key} {c s : Command} {now : Time.Instant}

theorem after_append (ops ops' : List Operation) (l : Ledger) :
    l.after (ops ++ ops') = (l.after ops).after ops' := by
  induction ops generalizing l with
  | nil => rfl
  | cons op ops ih => exact ih _

/-! ### Keys -/

theorem Keyed.giveCopies (h : l.Keyed) (cs : List Command) : (l.giveCopies cs).2.Keyed := by
  intro k c hc
  by_cases hk : k ∈ (l.giveCopies cs).1
  · obtain ⟨d, -, hkey, hget⟩ := get?_giveCopies_of_mem hk
    rw [← Option.some.inj (hget.symm.trans hc), hkey]
  · rw [get?_giveCopies_of_not_mem hk] at hc
    exact h k c hc

theorem Keyed.complete (h : l.Keyed) (c : Command) : (l.complete c).2.Keyed := by
  rw [Ledger.complete]
  split
  · exact h
  · split
    · exact h
    · exact h.store c

/-- Every operation keeps commands under their own keys. -/
theorem Keyed.apply (h : l.Keyed) (op : Operation) : (op.apply l).Keyed := by
  cases op with
  | give now c clients => exact h.giveCopies _
  | delete k =>
    rw [Operation.apply]
    split
    next hd => exact h.delete hd
    next => exact h
  | mergePulled cs => exact h.mergePulled cs
  | mergePushed now cs => exact h.mergePushed cs
  | complete c => exact h.complete c

/-- After any operations commands stand under their own keys. -/
theorem Keyed.after (h : l.Keyed) (ops : List Operation) : (l.after ops).Keyed := by
  induction ops generalizing l with
  | nil => exact h
  | cons op ops ih => exact ih (h.apply op)

/-! ### What is done -/

/-- What is done stays in every operation by which no operator touches its key. -/
theorem get?_apply_of_isTerminal (hc : l.get? k = some c) (hdone : c.status.isTerminal = true)
    {op : Operation} (hk : k ∉ op.touched l) : (op.apply l).get? k = some c := by
  cases op with
  | give now d clients => exact (get?_give_of_not_mem hk).trans hc
  | delete k' =>
    rw [Operation.apply]
    split
    next hd => rw [get?_delete hd, if_neg (fun h ↦ hk (List.mem_singleton.2 h)), hc]
    next => exact hc
  | mergePulled cs => exact get?_mergePulled_of_isTerminal hc hdone cs
  | mergePushed now cs => exact get?_mergePushed_of_isTerminal hc hdone cs
  | complete d => exact get?_complete_of_isTerminal hc hdone d

/-- What is done stays in any operations by which no operator touches its key. -/
theorem get?_after_of_isTerminal (hc : l.get? k = some c) (hdone : c.status.isTerminal = true)
    {ops : List Operation} (hk : k ∉ l.touched ops) : (l.after ops).get? k = some c := by
  induction ops generalizing l with
  | nil => exact hc
  | cons op ops ih =>
    obtain ⟨hnow, hlater⟩ := not_or.1 (mt List.mem_append.2 hk)
    exact ih (get?_apply_of_isTerminal hc hdone hnow) hlater

/-! ### Flags -/

theorem flags_afterPull (owner : String) (c s : Command) :
    (afterPull owner c (some s)).flags = s.flags := by
  simp only [afterPull]
  split <;> rfl

theorem flags_afterPush (c s : Command) : (afterPush now c (some s)).flags = s.flags := by
  simp only [afterPush]
  split <;> rfl

/-- A pull keeps the flags of what is there. -/
theorem exists_get?_mergePulled (hs : l.get? k = some s) (cs : List Command) :
    ∃ c, (l.mergePulled cs).2.get? k = some c ∧ c.flags = s.flags := by
  refine mergePulled_induction (P := fun stood ↦ ∃ c, stood = some c ∧ c.flags = s.flags)
    ⟨s, hs, rfl⟩ ?_
  rintro _ ⟨t, rfl, hflags⟩ d - -
  exact ⟨_, rfl, (flags_afterPull l.owner d t).trans hflags⟩

/-- A push keeps the flags of what is there. -/
theorem exists_get?_mergePushed (hs : l.get? k = some s) (now : Time.Instant)
    (cs : List Command) :
    ∃ c, (l.mergePushed now cs).2.get? k = some c ∧ c.flags = s.flags := by
  refine mergePushed_induction (P := fun stood ↦ ∃ c, stood = some c ∧ c.flags = s.flags)
    ⟨s, hs, rfl⟩ ?_
  rintro _ ⟨t, rfl, hflags⟩ d - -
  exact ⟨_, rfl, (flags_afterPush d t).trans hflags⟩

end Switchyard.Ledger
