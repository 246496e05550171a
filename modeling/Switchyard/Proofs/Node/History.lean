import Switchyard.Proofs.Ledger.History
import Switchyard.Proofs.Node.Attempt

/-!
# What any handlers leave of a ledger

Handlers need not be those of a client. A crew answers each command as it likes, under whatever
status, and while it works on one it may operate on the ledger of its node: give and delete
commands, merge, keep outcomes. An execution pass then comes down to operations on the ledger, those
of the crew and the outcomes kept, in turn. So a crew may even make passes itself, and what others
do to the ledger meanwhile can be counted among its operations.

Whatever operations and passes follow one another at a node, the ledger at each moment, also in the
middle of a pass, is what the operations so far have made of it, and has what operations keep.

## Main definitions

* `Crew` : handlers that change the ledger by operations.
* `Node.Deed` : an operation, a pass with some crew, or a change of the surroundings.
* `Node.record` : the operations that deeds come down to.

## Main results

* `Node.ledger_runPending` : a pass comes down to operations.
* `Node.kept_by_deeds` : what all ledgers have that deeds lead to.
-/

namespace Switchyard

open Ledger (Operation)

/-- Handlers that answer as they like and change the ledger by operations. The script of a command
lists the operations that are made while it is carried out. -/
structure Crew (ε : Type) where
  dispatch : Dispatch ε
  script : Command → Node ε → List Operation
  ledger_run : ∀ c n, (dispatch.run c n).2.ledger = n.ledger.after (script c n)

namespace Node

variable {ε : Type} {n : Node ε}

/-! ### Passes -/

/-- The operations of an attempt: those of the crew, and then the outcome is kept if there is one. -/
def attemptRecord (w : Crew ε) (k : Key) (n : Node ε) : List Operation :=
  match n.beginning k with
  | .handOver given =>
    w.script given n ++ (n.carryOut w.dispatch given).1.toList.map .complete
  | _ => []

/-- The operations of attempts, one after the other, until one of them ends the pass. -/
def passRecord (w : Crew ε) : List Key → Node ε → List Operation
  | [], _ => []
  | k :: ks, n => n.attemptRecord w k ++
      if (n.attempt w.dispatch k).1.isSome then passRecord w ks (n.attempt w.dispatch k).2 else []

theorem ledger_carryOut (w : Crew ε) (given : Command) (n : Node ε) :
    (n.carryOut w.dispatch given).2.ledger =
      n.ledger.after (w.script given n ++
        (n.carryOut w.dispatch given).1.toList.map .complete) := by
  rw [Ledger.after_append, ← w.ledger_run]
  cases ho : (n.carryOut w.dispatch given).1 with
  | none => rw [snd_carryOut_of_none ho]; rfl
  | some o => rw [snd_carryOut_of_some ho]; rfl

theorem ledger_attempt (w : Crew ε) (k : Key) (n : Node ε) :
    (n.attempt w.dispatch k).2.ledger = n.ledger.after (n.attemptRecord w k) := by
  rw [attemptRecord]
  cases hbegin : n.beginning k with
  | skip => rw [attempt_of_skip hbegin]; rfl
  | overflow => rw [attempt_of_overflow hbegin]; rfl
  | handOver given => rw [attempt_of_handOver hbegin]; exact ledger_carryOut w given n

theorem ledger_attemptAll (w : Crew ε) (ks : List Key) (n : Node ε) :
    (n.attemptAll w.dispatch ks).2.ledger = n.ledger.after (n.passRecord w ks) := by
  induction ks generalizing n with
  | nil => rfl
  | cons k ks ih =>
    rw [passRecord, Ledger.after_append, ← ledger_attempt]
    cases hmade : (n.attempt w.dispatch k).1 with
    | none => rw [attemptAll_cons_of_none hmade]; rfl
    | some made => rw [attemptAll_cons_of_some hmade, Option.isSome_some, if_pos rfl, ← ih]

/-- An execution pass comes down to operations on the ledger. -/
theorem ledger_runPending (w : Crew ε) (n : Node ε) : (n.runPending w.dispatch).2.ledger =
    n.ledger.after (n.passRecord w n.ledger.runnableKeys) :=
  ledger_attemptAll w _ n

/-! ### Deeds -/

/-- What may happen at a node: an operation on its ledger, an execution pass with some crew, or a
change of its devices and surroundings. -/
inductive Deed (ε : Type) where
  | operation (op : Operation)
  | pass (w : Crew ε)
  | rearrange (inventory : Inventory) (site : ε)

namespace Deed

/-- The node after a deed. -/
def apply : Deed ε → Node ε → Node ε
  | .operation op, n => { n with ledger := op.apply n.ledger }
  | .pass w, n => (n.runPending w.dispatch).2
  | .rearrange inventory site, n => { n with inventory, site }

/-- The operations that a deed comes down to. -/
def record : Deed ε → Node ε → List Operation
  | .operation op, _ => [op]
  | .pass w, n => n.passRecord w n.ledger.runnableKeys
  | .rearrange _ _, _ => []

theorem ledger_apply (d : Deed ε) (n : Node ε) :
    (d.apply n).ledger = n.ledger.after (d.record n) := by
  cases d with
  | operation op => rfl
  | pass w => exact ledger_runPending w n
  | rearrange inventory site => rfl

theorem keyed_apply (hn : n.ledger.Keyed) (d : Deed ε) : (d.apply n).ledger.Keyed := by
  rw [ledger_apply]
  exact hn.after _

end Deed

/-- The node after some deeds. -/
def after : List (Deed ε) → Node ε → Node ε
  | [], n => n
  | d :: ds, n => after ds (d.apply n)

theorem after_append (ds ds' : List (Deed ε)) (n : Node ε) :
    n.after (ds ++ ds') = (n.after ds).after ds' := by
  induction ds generalizing n with
  | nil => rfl
  | cons d ds ih => exact ih _

/-- The operations that some deeds come down to. -/
def record : List (Deed ε) → Node ε → List Operation
  | [], _ => []
  | d :: ds, n => d.record n ++ record ds (d.apply n)

/-- Deeds make of a ledger what their operations make of it. -/
theorem ledger_after (ds : List (Deed ε)) (n : Node ε) :
    (n.after ds).ledger = n.ledger.after (n.record ds) := by
  induction ds generalizing n with
  | nil => rfl
  | cons d ds ih => rw [after, record, Ledger.after_append, ← Deed.ledger_apply, ih]

/-- Deeds keep commands under their own keys. -/
theorem keyed_after (hn : n.ledger.Keyed) (ds : List (Deed ε)) : (n.after ds).ledger.Keyed := by
  rw [ledger_after]
  exact hn.after _

/-- Deeds at a node change its ledger by the operations that they come down to. In every ledger to
which operations lead from the empty one, every command stands under its own key. What is done is
left as it is by every merge and every outcome, and stays so in all later operations until an
operator writes or deletes its key. A merge leaves the flags of what is there. -/
theorem kept_by_deeds (owner : String) :
    (∀ (n : Node ε) ds, (n.after ds).ledger = n.ledger.after (n.record ds)) ∧
    ∀ ops,
      let l := Ledger.after ops { owner }
      (∀ k c, l.get? k = some c → c.key = k) ∧
      (∀ k c, l.get? k = some c → c.status.isTerminal = true →
        (∀ cs, (l.mergePulled cs).2.get? k = some c) ∧
        (∀ now cs, (l.mergePushed now cs).2.get? k = some c) ∧
        (∀ o, (l.complete o).2.get? k = some c) ∧
        ∀ later, k ∉ l.touched later → (l.after later).get? k = some c) ∧
      ∀ k s, l.get? k = some s →
        (∀ cs, ∃ c, (l.mergePulled cs).2.get? k = some c ∧ c.flags = s.flags) ∧
        ∀ now cs, ∃ c, (l.mergePushed now cs).2.get? k = some c ∧ c.flags = s.flags := by
  refine ⟨fun n ds ↦ ledger_after ds n, fun ops ↦ ⟨?_, fun k c hc hdone ↦ ?_, fun k s hs ↦ ?_⟩⟩
  · exact (Ledger.Keyed.of_empty rfl).after ops
  · exact ⟨Ledger.get?_mergePulled_of_isTerminal hc hdone,
      fun _ ↦ Ledger.get?_mergePushed_of_isTerminal hc hdone,
      Ledger.get?_complete_of_isTerminal hc hdone,
      fun _ hk ↦ Ledger.get?_after_of_isTerminal hc hdone hk⟩
  · exact ⟨Ledger.exists_get?_mergePulled hs, Ledger.exists_get?_mergePushed hs⟩

/-! ### A crew that meddles -/

/-- The command as somebody else reports it: waiting, and with other flags. -/
def late (c : Command) : Command :=
  { c with status := .pending "late", flags := { noSyslog := true } }

/-- A crew that merges a late report of each command while it works on it, and answers with another
command that is done. -/
def meddlers : Crew Unit where
  dispatch _ := some fun c n ↦
    ({ text := "another", retries := 9, status := .ok },
      { n with ledger := (n.ledger.mergePushed default [late c, late c]).2 })
  script c _ := [.mergePushed default [late c, late c]]
  ledger_run _ _ := rfl

/-- An operator gives a sweep, and the crew works on it. -/
def meddling : List (Deed Unit) :=
  [.operation (.give default (.new default "scan gwd") []), .pass meddlers]

/-- A sweep that the crew has worked on is done and stands under its own key. It stays so in another
pass, and when it is reported late. -/
theorem kept_by_meddlers :
    let n : Node Unit := ⟨{ owner := "c1" }, .listened, ()⟩
    let l := (n.after meddling).ledger
    ∃ c, l.get? ⟨none, "scan gwd"⟩ = some c ∧ c.status = .ok ∧ c.key = ⟨none, "scan gwd"⟩ ∧
      (l.mergePushed default [late c, late c]).2.get? ⟨none, "scan gwd"⟩ = some c ∧
      ((n.after meddling).after [.pass meddlers]).ledger.get? ⟨none, "scan gwd"⟩ = some c := by
  intro n l
  obtain ⟨hrecord, hkept⟩ := @kept_by_deeds Unit "c1"
  have hdone : (l.get? ⟨none, "scan gwd"⟩).map (·.status) = some .ok := by decide
  obtain ⟨c, hc, hok⟩ := Option.map_eq_some_iff.1 hdone
  obtain ⟨hkey, hstays, -⟩ := hkept (n.record meddling)
  rw [← hrecord n meddling] at hkey hstays
  obtain ⟨-, hpushed, -, hlater⟩ := hstays _ c hc (by rw [hok]; rfl)
  refine ⟨c, hc, hok, hkey _ c hc, hpushed default _, ?_⟩
  rw [hrecord]
  exact hlater _ (by decide)

end Node

end Switchyard
