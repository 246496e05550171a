import Mathlib.Data.List.Perm.Subperm
import Switchyard.Proofs.Node.History
import Switchyard.Proofs.Node.Pass

/-!
# What a pass hands over

A pass goes through the keys that were to be run when it began. A key has its turn when all before
it have had theirs. If its command is then still there and still to be run, it is handed over to
the dispatch, and the outcome is kept unless the command is gone or done by then. Else nothing
happens at this turn.

Handlers may do to the ledger what they like meanwhile. So what a pass hands over is described turn
by turn, from the node as the earlier turns left it. That these are the commands that the dispatch
was handed, in this order and no others, is seen by a dispatch that takes notes.

A turn may end the pass. Its command waits with as many retries as can be counted, and then it is
not handed over, or the answer does, and then it is not kept. The keys after it have no turn.

## Main definitions

* `Handover` : a command handed over, and what came back.
* `Dispatch.noting` : a dispatch that takes notes of what it is handed.
* `Node.handed` : what is handed over at the turns of some keys.
* `Node.EndsPass` : the turns that end a pass.
* `Handover.Goes` : what becomes of a handover.

## Main results

* `Node.attemptAll_noting` : the notes are what is handed over.
* `Node.fst_attempt_eq_none_iff` : when a turn ends the pass.
* `Node.goes_of_handover?` : what one turn leaves.
* `Node.pass_hands_over` : a pass, turn by turn, and a pass whose handlers leave the ledger alone.
-/

namespace Switchyard

/-- A command as it was handed to a dispatch, the answer, and the devices known afterwards. -/
structure Handover where
  given : Command
  answer : Command
  inventory : Inventory
  deriving Repr, DecidableEq

/-- What is kept of a handover, if anything is: the answer, cancelled if it still waits after its
last attempt. -/
def Handover.outcome (h : Handover) : Option Command := h.answer.settled h.inventory

variable {ε : Type}

/-! ### Taking notes -/

namespace Dispatch

/-- A dispatch that takes notes of what it is handed, and else answers as before. -/
def noting (d : Dispatch ε) : Dispatch (ε × List Handover) := fun _ ↦ some fun c n ↦
  let (answer, m) := d.run c ⟨n.ledger, n.inventory, n.site.1⟩
  (answer, ⟨m.ledger, m.inventory, m.site, n.site.2 ++ [⟨c, answer, m.inventory⟩]⟩)

/-- The handlers of a dispatch leave the ledger alone. -/
def LeavesLedger (d : Dispatch ε) : Prop := ∀ c n, (d.run c n).2.ledger = n.ledger

/-- The key of an answer is that of the command. -/
theorem key_run (d : Dispatch ε) (c : Command) (n : Node ε) : (d.run c n).1.key = c.key := by
  unfold run
  split <;> rfl

/-- Putting the key of the command back twice is putting it back once. -/
theorem rekey_run (d : Dispatch ε) (c : Command) (n : Node ε) :
    { (d.run c n).1 with text := c.text, client := c.client } = (d.run c n).1 := by
  unfold run
  split <;> rfl

end Dispatch

namespace Node

/-- The node with notes beside its surroundings. -/
def withNotes (notes : List Handover) (n : Node ε) : Node (ε × List Handover) :=
  ⟨n.ledger, n.inventory, n.site, notes⟩

variable {d : Dispatch ε} {k : Key} {n : Node ε} {h : Handover}

theorem run_noting (d : Dispatch ε) (c : Command) (n : Node ε) (notes : List Handover) :
    d.noting.run c (n.withNotes notes) = ((d.run c n).1, (d.run c n).2.withNotes
      (notes ++ [⟨c, (d.run c n).1, (d.run c n).2.inventory⟩])) :=
  Prod.ext (d.rekey_run c n) rfl

theorem carryOut_noting (d : Dispatch ε) (given : Command) (n : Node ε) (notes : List Handover) :
    (n.withNotes notes).carryOut d.noting given = ((n.carryOut d given).1,
      (n.carryOut d given).2.withNotes
        (notes ++ [⟨given, (d.run given n).1, (d.run given n).2.inventory⟩])) := by
  have hfst : ((n.withNotes notes).carryOut d.noting given).1 = (n.carryOut d given).1 := by
    rw [fst_carryOut, fst_carryOut, run_noting]
    rfl
  refine Prod.ext hfst ?_
  cases ho : (n.carryOut d given).1 with
  | none => rw [snd_carryOut_of_none (hfst.trans ho), snd_carryOut_of_none ho, run_noting]
  | some o =>
    rw [snd_carryOut_of_some (hfst.trans ho), snd_carryOut_of_some ho, run_noting]
    rfl

/-! ### One turn -/

/-- What is handed over at the turn of a key, if its command is there and still to be run. -/
def handover? (d : Dispatch ε) (k : Key) (n : Node ε) : Option Handover :=
  match n.beginning k with
  | .handOver given =>
    let (answer, m) := d.run given n
    some ⟨given, answer, m.inventory⟩
  | _ => none

theorem handover?_eq_some_iff : n.handover? d k = some h ↔ ∃ given, n.beginning k = .handOver given ∧
    h = ⟨given, (d.run given n).1, (d.run given n).2.inventory⟩ := by
  unfold handover?
  cases n.beginning k with
  | skip => simp
  | overflow => simp
  | handOver given => simp [eq_comm]

theorem handover?_of_handOver {given : Command} (hbegin : n.beginning k = .handOver given) :
    n.handover? d k = some ⟨given, (d.run given n).1, (d.run given n).2.inventory⟩ :=
  handover?_eq_some_iff.2 ⟨given, hbegin, rfl⟩

/-- A command is handed over exactly if it is there, still to be run, and can be counted. -/
theorem exists_handover?_iff (d : Dispatch ε) : (∃ h, n.handover? d k = some h) ↔
    ∃ c, n.ledger.get? k = some c ∧ c.status.isRunnable = true ∧ c.tries < 2 ^ 32 := by
  constructor
  · rintro ⟨h, hh⟩
    obtain ⟨given, hbegin, -⟩ := handover?_eq_some_iff.1 hh
    obtain ⟨c, hc, hrun, hgiven⟩ := beginning_eq_handOver_iff.1 hbegin
    have hlt := given.retries.toNat_lt
    rw [(Command.attempted_eq_some_iff.1 hgiven).1] at hlt
    exact ⟨c, hc, hrun, hlt⟩
  · rintro ⟨c, hc, hrun, hlt⟩
    obtain ⟨given, hgiven⟩ := Command.exists_attempted hlt n.ledger.owner
    exact ⟨_, handover?_of_handOver (beginning_eq_handOver_iff.2 ⟨c, hc, hrun, hgiven⟩)⟩

/-- The outcome of a handover is that of carrying its command out. -/
theorem fst_carryOut_of_handover? (hh : n.handover? d k = some h) :
    (n.carryOut d h.given).1 = h.outcome := by
  obtain ⟨given, -, rfl⟩ := handover?_eq_some_iff.1 hh
  exact fst_carryOut d given n

theorem attempt_of_handover? (hh : n.handover? d k = some h) :
    n.attempt d k = (h.outcome.map fun _ ↦ true, (n.carryOut d h.given).2) := by
  rw [← fst_carryOut_of_handover? hh]
  obtain ⟨given, hbegin, rfl⟩ := handover?_eq_some_iff.1 hh
  exact attempt_of_handOver hbegin

/-- Without a handover nothing happens. -/
theorem snd_attempt_of_handover?_eq_none (hh : n.handover? d k = none) :
    (n.attempt d k).2 = n := by
  cases hbegin : n.beginning k with
  | skip => rw [attempt_of_skip hbegin]
  | overflow => rw [attempt_of_overflow hbegin]
  | handOver given =>
    rw [handover?_of_handOver hbegin] at hh
    cases hh

/-- Of a command that is still to be run, an attempt without a handover is not answered. -/
theorem fst_attempt_of_handover?_eq_none {c : Command} (hc : n.ledger.get? k = some c)
    (hrun : c.status.isRunnable = true) (hh : n.handover? d k = none) :
    (n.attempt d k).1 = none := by
  cases hbegin : n.beginning k with
  | skip =>
    have hdone := beginning_eq_skip_iff.1 hbegin c hc
    exact absurd hrun (Status.not_isRunnable_of_isTerminal hdone)
  | overflow => rw [attempt_of_overflow hbegin]
  | handOver given =>
    rw [handover?_of_handOver hbegin] at hh
    cases hh

/-- An attempt that is answered says whether something was handed over. -/
theorem isSome_handover? {made : Bool} (hmade : (n.attempt d k).1 = some made) :
    (n.handover? d k).isSome = made := by
  cases hbegin : n.beginning k with
  | skip =>
    rw [attempt_of_skip hbegin] at hmade
    rw [← Option.some.inj hmade, Option.isSome_eq_false_iff, Option.isNone_iff_eq_none]
    exact Option.eq_none_iff_forall_ne_some.2 fun h hh ↦ by
      obtain ⟨given, hother, -⟩ := handover?_eq_some_iff.1 hh
      rw [hbegin] at hother
      cases hother
  | overflow =>
    rw [attempt_of_overflow hbegin] at hmade
    cases hmade
  | handOver given =>
    rw [attempt_of_handOver hbegin] at hmade
    obtain ⟨o, -, rfl⟩ := Option.map_eq_some_iff.1 hmade
    rw [handover?_of_handOver hbegin, Option.isSome_some]

/-- The turn of a key ends the pass: its command waits with as many retries as can be counted, or
the answer to it does. -/
def EndsPass (d : Dispatch ε) (k : Key) (n : Node ε) : Prop :=
  (∃ c, n.ledger.get? k = some c ∧ c.status.isPending = true ∧ c.retries.toNat = 2 ^ 32 - 1) ∨
    ∃ h, n.handover? d k = some h ∧ h.answer.status.isPending = true ∧
      h.answer.retries.toNat = 2 ^ 32 - 1

theorem fst_attempt_eq_none_iff : (n.attempt d k).1 = none ↔ n.EndsPass d k := by
  have hfull (c : Command) (hrun : c.status.isRunnable = true) :
      c.attempted n.ledger.owner = none ↔
        c.status.isPending = true ∧ c.retries.toNat = 2 ^ 32 - 1 := by
    have hlt := c.retries.toNat_lt
    rw [Command.attempted_eq_none_iff, Command.tries]
    split
    next hwait =>
      rw [and_iff_right hwait]
      omega
    next hnot => exact iff_of_false (by omega) fun h ↦ hnot h.1
  constructor
  · intro hnone
    cases hbegin : n.beginning k with
    | skip =>
      rw [attempt_of_skip hbegin] at hnone
      cases hnone
    | overflow =>
      obtain ⟨c, hc, hrun, hgiven⟩ := beginning_eq_overflow_iff.1 hbegin
      exact Or.inl ⟨c, hc, (hfull c hrun).1 hgiven⟩
    | handOver given =>
      have hh := handover?_of_handOver (d := d) hbegin
      rw [attempt_of_handover? hh, Option.map_eq_none_iff] at hnone
      exact Or.inr ⟨_, hh, Command.settled_eq_none_iff.1 hnone⟩
  · rintro (⟨c, hc, hwait, hlast⟩ | ⟨h, hh, hlast⟩)
    · have hrun := Status.isRunnable_of_isPending hwait
      rw [attempt_of_overflow (beginning_eq_overflow_iff.2
        ⟨c, hc, hrun, (hfull c hrun).2 ⟨hwait, hlast⟩⟩)]
    · rw [attempt_of_handover? hh, Handover.outcome, Command.settled_eq_none_iff.2 hlast,
        Option.map_none]

/-- A dispatch that takes notes notes what is handed over. -/
theorem attempt_noting (d : Dispatch ε) (k : Key) (n : Node ε) (notes : List Handover) :
    (n.withNotes notes).attempt d.noting k = ((n.attempt d k).1,
      (n.attempt d k).2.withNotes (notes ++ (n.handover? d k).toList)) := by
  have hsame : (n.withNotes notes).beginning k = n.beginning k := rfl
  cases hbegin : n.beginning k with
  | skip =>
    rw [attempt_of_skip (hsame.trans hbegin), attempt_of_skip hbegin]
    simp [handover?, hbegin]
  | overflow =>
    rw [attempt_of_overflow (hsame.trans hbegin), attempt_of_overflow hbegin]
    simp [handover?, hbegin]
  | handOver given =>
    rw [attempt_of_handOver (hsame.trans hbegin), attempt_of_handOver hbegin, carryOut_noting,
      handover?_of_handOver hbegin]
    rfl

/-! ### The turns of some keys -/

/-- What is handed over at the turns of some keys, until one of them ends the pass. -/
def handed (d : Dispatch ε) : List Key → Node ε → List Handover
  | [], _ => []
  | k :: ks, n => (n.handover? d k).toList ++
      if (n.attempt d k).1.isSome then handed d ks (n.attempt d k).2 else []

theorem handed_cons_of_none {ks : List Key} (hmade : (n.attempt d k).1 = none) :
    n.handed d (k :: ks) = (n.handover? d k).toList := by
  rw [handed, hmade, Option.isSome_none, if_neg (by simp), List.append_nil]

theorem handed_cons_of_some {ks : List Key} {made : Bool} (hmade : (n.attempt d k).1 = some made) :
    n.handed d (k :: ks) = (n.handover? d k).toList ++ (n.attempt d k).2.handed d ks := by
  rw [handed, hmade, Option.isSome_some, if_pos rfl]

theorem attemptAll_append_of_none {ks : List Key} (hended : (n.attemptAll d ks).1 = none)
    (ks' : List Key) : n.attemptAll d (ks ++ ks') = n.attemptAll d ks := by
  induction ks generalizing n with
  | nil => cases hended
  | cons k ks ih =>
    rw [List.cons_append]
    cases hmade : (n.attempt d k).1 with
    | none => rw [attemptAll_cons_of_none hmade, attemptAll_cons_of_none hmade]
    | some made =>
      rw [attemptAll_cons_of_some hmade, Option.map_eq_none_iff] at hended
      rw [attemptAll_cons_of_some hmade, attemptAll_cons_of_some hmade, ih hended]

theorem attemptAll_append_of_some {ks : List Key} {count : Nat}
    (hreached : (n.attemptAll d ks).1 = some count) (ks' : List Key) :
    n.attemptAll d (ks ++ ks') = (((n.attemptAll d ks).2.attemptAll d ks').1.map (count + ·),
      ((n.attemptAll d ks).2.attemptAll d ks').2) := by
  induction ks generalizing n count with
  | nil =>
    obtain rfl := Option.some.inj hreached
    simp [attemptAll]
  | cons k ks ih =>
    rw [List.cons_append]
    cases hmade : (n.attempt d k).1 with
    | none =>
      rw [attemptAll_cons_of_none hmade] at hreached
      cases hreached
    | some made =>
      rw [attemptAll_cons_of_some hmade] at hreached ⊢
      obtain ⟨rest, hrest, rfl⟩ := Option.map_eq_some_iff.1 hreached
      rw [attemptAll_cons_of_some hmade, ih hrest, Option.map_map]
      simp only [Function.comp_def, Nat.add_assoc]

theorem handed_append_of_none {ks : List Key} (hended : (n.attemptAll d ks).1 = none)
    (ks' : List Key) : n.handed d (ks ++ ks') = n.handed d ks := by
  induction ks generalizing n with
  | nil => cases hended
  | cons k ks ih =>
    rw [List.cons_append]
    cases hmade : (n.attempt d k).1 with
    | none => rw [handed_cons_of_none hmade, handed_cons_of_none hmade]
    | some made =>
      rw [attemptAll_cons_of_some hmade, Option.map_eq_none_iff] at hended
      rw [handed_cons_of_some hmade, handed_cons_of_some hmade, ih hended]

theorem handed_append_of_some {ks : List Key} {count : Nat}
    (hreached : (n.attemptAll d ks).1 = some count) (ks' : List Key) :
    n.handed d (ks ++ ks') = n.handed d ks ++ (n.attemptAll d ks).2.handed d ks' := by
  induction ks generalizing n count with
  | nil => rfl
  | cons k ks ih =>
    rw [List.cons_append]
    cases hmade : (n.attempt d k).1 with
    | none =>
      rw [attemptAll_cons_of_none hmade] at hreached
      cases hreached
    | some made =>
      rw [attemptAll_cons_of_some hmade] at hreached ⊢
      obtain ⟨rest, hrest, -⟩ := Option.map_eq_some_iff.1 hreached
      rw [handed_cons_of_some hmade, handed_cons_of_some hmade, ih hrest, List.append_assoc]

/-- The attempts that are counted are the handovers. -/
theorem eq_length_handed {ks : List Key} {count : Nat} (hcount : (n.attemptAll d ks).1 = some count) :
    count = (n.handed d ks).length := by
  induction ks generalizing n count with
  | nil => exact (Option.some.inj hcount).symm
  | cons k ks ih =>
    cases hmade : (n.attempt d k).1 with
    | none =>
      rw [attemptAll_cons_of_none hmade] at hcount
      cases hcount
    | some made =>
      rw [attemptAll_cons_of_some hmade] at hcount
      obtain ⟨rest, hrest, rfl⟩ := Option.map_eq_some_iff.1 hcount
      have hhanded := isSome_handover? hmade
      rw [handed_cons_of_some hmade, List.length_append, ih hrest, ← hhanded]
      cases n.handover? d k <;> rfl

/-- Attempts end early exactly if the turn of a key that is reached ends them. -/
theorem fst_attemptAll_eq_none_iff {ks : List Key} : (n.attemptAll d ks).1 = none ↔
    ∃ before k after, ks = before ++ k :: after ∧ (n.attemptAll d before).1 ≠ none ∧
      (n.attemptAll d before).2.EndsPass d k := by
  constructor
  · intro hended
    induction ks generalizing n with
    | nil => cases hended
    | cons k ks ih =>
      cases hmade : (n.attempt d k).1 with
      | none => exact ⟨[], k, ks, rfl, Option.some_ne_none _, fst_attempt_eq_none_iff.1 hmade⟩
      | some made =>
        rw [attemptAll_cons_of_some hmade, Option.map_eq_none_iff] at hended
        obtain ⟨before, k', after, rfl, hreached, hends⟩ := ih hended
        refine ⟨k :: before, k', after, rfl, ?_, ?_⟩
        · rwa [attemptAll_cons_of_some hmade, ne_eq, Option.map_eq_none_iff]
        · rwa [attemptAll_cons_of_some hmade]
  · rintro ⟨before, k, after, rfl, hreached, hends⟩
    obtain ⟨count, hcount⟩ := Option.ne_none_iff_exists'.1 hreached
    rw [attemptAll_append_of_some hcount, Option.map_eq_none_iff,
      attemptAll_cons_of_none (fst_attempt_eq_none_iff.2 hends)]

/-- One turn more, if it is reached. -/
theorem snd_attemptAll_concat {ks : List Key} (hreached : (n.attemptAll d ks).1 ≠ none) :
    (n.attemptAll d (ks ++ [k])).2 = ((n.attemptAll d ks).2.attempt d k).2 := by
  obtain ⟨count, hcount⟩ := Option.ne_none_iff_exists'.1 hreached
  rw [attemptAll_append_of_some hcount]
  cases hmade : ((n.attemptAll d ks).2.attempt d k).1 with
  | none => rw [attemptAll_cons_of_none hmade]
  | some made => rw [attemptAll_cons_of_some hmade, attemptAll_nil]

/-- What is handed over is answered by the dispatch. -/
theorem exists_answer_of_mem_handed {ks : List Key} (hh : h ∈ n.handed d ks) :
    ∃ m, h.answer = (d.run h.given m).1 ∧ h.inventory = (d.run h.given m).2.inventory := by
  induction ks generalizing n with
  | nil => cases hh
  | cons k ks ih =>
    rw [handed, List.mem_append] at hh
    rcases hh with hnow | hlater
    · obtain ⟨given, -, rfl⟩ := handover?_eq_some_iff.1 (Option.mem_toList.1 hnow)
      exact ⟨n, rfl, rfl⟩
    · split at hlater
      · exact ih hlater
      · cases hlater

/-- The notes of a dispatch are what is handed over, and taking them changes nothing else. -/
theorem attemptAll_noting (d : Dispatch ε) (ks : List Key) (n : Node ε) (notes : List Handover) :
    (n.withNotes notes).attemptAll d.noting ks = ((n.attemptAll d ks).1,
      (n.attemptAll d ks).2.withNotes (notes ++ n.handed d ks)) := by
  induction ks generalizing n notes with
  | nil => rw [handed, List.append_nil]; rfl
  | cons k ks ih =>
    have hfst : ((n.withNotes notes).attempt d.noting k).1 = (n.attempt d k).1 := by
      rw [attempt_noting]
    cases hmade : (n.attempt d k).1 with
    | none =>
      rw [attemptAll_cons_of_none (hfst.trans hmade), attemptAll_cons_of_none hmade,
        handed_cons_of_none hmade, attempt_noting]
    | some made =>
      rw [attemptAll_cons_of_some (hfst.trans hmade), attemptAll_cons_of_some hmade,
        handed_cons_of_some hmade, attempt_noting, ih, List.append_assoc]

end Node

/-! ### What a turn leaves -/

/-- How a handover goes at the turn of a key, from the node before the turn to the node after it:
the command that stood under the key is handed over as an attempt, and the outcome is kept unless
the handler has left the command gone or done. If there is no outcome, everything stays as the
handler left it, and so it does under all other keys in any case. -/
structure Handover.Goes (d : Dispatch ε) (k : Key) (n n' : Node ε) (h : Handover) : Prop where
  stood : ∃ c, n.ledger.get? k = some c ∧ c.status.isRunnable = true ∧
    c.attempted n.ledger.owner = some h.given
  answer : h.answer = (d.run h.given n).1
  inventory : h.inventory = (d.run h.given n).2.inventory
  gone : (d.run h.given n).2.ledger.get? k = none → n'.ledger.get? k = none
  done : ∀ s, (d.run h.given n).2.ledger.get? k = some s → s.status.isTerminal = true →
    n'.ledger.get? k = some s
  kept : ∀ s o, (d.run h.given n).2.ledger.get? k = some s → s.status.isRunnable = true →
    h.outcome = some o → n'.ledger.get? k = some o
  ended : h.outcome = none → n' = (d.run h.given n).2
  others : ∀ k', k' ≠ k → n'.ledger.get? k' = (d.run h.given n).2.ledger.get? k'

namespace Node

variable {d : Dispatch ε} {w : Crew ε} {k : Key} {ks : List Key} {n : Node ε} {h : Handover}

/-- What is handed over at the turn of a key has this key, and so has the outcome. -/
theorem key_of_handover? (hn : n.ledger.Keyed) (hh : n.handover? d k = some h) :
    h.given.key = k ∧ ∀ o, h.outcome = some o → o.key = k := by
  obtain ⟨given, hbegin, rfl⟩ := handover?_eq_some_iff.1 hh
  have hkey := (handsOver_of_beginning hn hbegin).2
  exact ⟨hkey, fun o ho ↦ (Command.key_of_settled ho).trans ((d.key_run ..).trans hkey)⟩

/-- What one turn leaves. -/
theorem goes_of_handover? (hn : n.ledger.Keyed) (hh : n.handover? d k = some h) :
    h.Goes d k n (n.attempt d k).2 := by
  have hattempt : (n.attempt d k).2 = (n.carryOut d h.given).2 := by rw [attempt_of_handover? hh]
  have hfst := fst_carryOut_of_handover? hh
  have hkey := (key_of_handover? hn hh).2
  have hended (hnone : h.outcome = none) : (n.attempt d k).2 = (d.run h.given n).2 :=
    hattempt.trans (snd_carryOut_of_none (hfst.trans hnone))
  have hget {o : Command} (ho : h.outcome = some o) (k' : Key) :
      (n.attempt d k).2.ledger.get? k' =
        if k = k' then Ledger.afterOutcome o ((d.run h.given n).2.ledger.get? k')
        else (d.run h.given n).2.ledger.get? k' := by
    rw [hattempt, snd_carryOut_of_some (hfst.trans ho), ← hkey o ho]
    exact Ledger.get?_complete ..
  obtain ⟨given, hbegin, hgiven⟩ := handover?_eq_some_iff.1 hh
  obtain ⟨c, hc, hrun, hcounted⟩ := beginning_eq_handOver_iff.1 hbegin
  refine ⟨⟨c, hc, hrun, by rw [hgiven]; exact hcounted⟩, by rw [hgiven], by rw [hgiven],
    fun hnone ↦ ?_, fun s hs hdone ↦ ?_, fun s o hs hsrun ho ↦ ?_, hended, fun k' hk' ↦ ?_⟩
  · cases ho : h.outcome with
    | none => rw [hended ho, hnone]
    | some o => rw [hget ho, if_pos rfl, hnone, Ledger.afterOutcome]
  · cases ho : h.outcome with
    | none => rw [hended ho, hs]
    | some o => rw [hget ho, if_pos rfl, hs, Ledger.afterOutcome, if_pos hdone]
  · rw [hget ho, if_pos rfl, hs, Ledger.afterOutcome, Status.isRunnable_iff.1 hsrun]
    rfl
  · cases ho : h.outcome with
    | none => rw [hended ho]
    | some o => rw [hget ho, if_neg (Ne.symm hk')]

/-! ### Crews -/

theorem keyed_attempt_crew (hn : n.ledger.Keyed) (w : Crew ε) (k : Key) :
    (n.attempt w.dispatch k).2.ledger.Keyed := by
  rw [ledger_attempt]
  exact hn.after _

theorem keyed_attemptAll_crew (hn : n.ledger.Keyed) (w : Crew ε) (ks : List Key) :
    (n.attemptAll w.dispatch ks).2.ledger.Keyed := by
  rw [ledger_attemptAll]
  exact hn.after _

/-- Whatever handlers do meanwhile, every key is handed over at its own turn, if at all. -/
theorem keys_handed_sublist (hn : n.ledger.Keyed) (w : Crew ε) (ks : List Key) :
    ((n.handed w.dispatch ks).map (·.given.key)).Sublist ks := by
  induction ks generalizing n with
  | nil => exact List.Sublist.refl _
  | cons k ks ih =>
    have hnow : ((n.handover? w.dispatch k).toList.map (·.given.key)).Sublist [k] := by
      cases hh : n.handover? w.dispatch k with
      | none => exact List.nil_sublist _
      | some h =>
        rw [Option.toList_some, List.map_singleton, (key_of_handover? hn hh).1]
    rw [handed, List.map_append]
    split
    · exact hnow.append (ih (keyed_attempt_crew hn w k))
    · exact hnow.append (List.nil_sublist ks)

theorem filter_handed_of_notMem (hn : n.ledger.Keyed) (w : Crew ε) (hk : k ∉ ks) :
    (n.handed w.dispatch ks).filter (·.given.key = k) = [] := by
  refine List.filter_eq_nil_iff.2 fun h hh hkey ↦ hk ?_
  rw [← of_decide_eq_true hkey]
  exact (keys_handed_sublist hn w ks).subset (List.mem_map_of_mem hh)

/-- Of different keys each is handed over once at most. -/
theorem filter_handed_of_mem (hn : n.ledger.Keyed) (w : Crew ε) (hks : ks.Nodup)
    (hh : h ∈ n.handed w.dispatch ks) :
    (n.handed w.dispatch ks).filter (·.given.key = h.given.key) = [h] :=
  Table.filter_eq_singleton (hks.sublist (keys_handed_sublist hn w ks)) hh

/-- The turn of a key is the only one at which it is handed over, if the pass comes so far. -/
theorem mem_handed_iff {ks' : List Key} (hn : n.ledger.Keyed) (w : Crew ε)
    (hks : (ks ++ k :: ks').Nodup) :
    h ∈ n.handed w.dispatch (ks ++ k :: ks') ∧ h.given.key = k ↔
      (n.attemptAll w.dispatch ks).1 ≠ none ∧
        (n.attemptAll w.dispatch ks).2.handover? w.dispatch k = some h := by
  have hm := keyed_attemptAll_crew hn w ks
  obtain ⟨hbefore, hafter⟩ : k ∉ ks ∧ k ∉ ks' := by
    simpa using (List.nodup_cons.1 (List.nodup_middle.1 hks)).1
  have hearlier (hearly : h ∈ n.handed w.dispatch ks) : h.given.key ≠ k := by
    rintro rfl
    exact hbefore ((keys_handed_sublist hn w ks).subset (List.mem_map_of_mem hearly))
  cases hreached : (n.attemptAll w.dispatch ks).1 with
  | none =>
    rw [handed_append_of_none hreached]
    exact iff_of_false (fun hh ↦ hearlier hh.1 hh.2) fun hh ↦ hh.1 rfl
  | some count =>
    rw [handed_append_of_some hreached, handed, List.mem_append, List.mem_append,
      Option.mem_toList]
    constructor
    · rintro ⟨hearly | hnow | hlate, hkey⟩
      · exact absurd hkey (hearlier hearly)
      · exact ⟨Option.some_ne_none _, hnow⟩
      · split at hlate
        · have hsub := keys_handed_sublist (keyed_attempt_crew hm w k) w ks'
          exact absurd (hkey ▸ hsub.subset (List.mem_map_of_mem hlate)) hafter
        · cases hlate
    · rintro ⟨-, hh⟩
      exact ⟨Or.inr (Or.inl hh), (key_of_handover? hm hh).1⟩

/-! ### Handlers that leave the ledger alone -/

theorem owner_attempt_of_leaves (hd : d.LeavesLedger) (k : Key) (n : Node ε) :
    (n.attempt d k).2.ledger.owner = n.ledger.owner := by
  cases hh : n.handover? d k with
  | none => rw [snd_attempt_of_handover?_eq_none hh]
  | some h =>
    rw [attempt_of_handover? hh]
    cases ho : (n.carryOut d h.given).1 with
    | none =>
      rw [snd_carryOut_of_none ho]
      exact congrArg Ledger.owner (hd ..)
    | some o =>
      rw [snd_carryOut_of_some ho]
      exact (Ledger.owner_complete ..).trans (congrArg Ledger.owner (hd ..))

/-- Then a turn changes what stands under its own key only. -/
theorem get?_attempt_of_ne (hd : d.LeavesLedger) (hn : n.ledger.Keyed) {k' : Key} (hk : k' ≠ k) :
    (n.attempt d k).2.ledger.get? k' = n.ledger.get? k' := by
  cases hh : n.handover? d k with
  | none => rw [snd_attempt_of_handover?_eq_none hh]
  | some h => rw [(goes_of_handover? hn hh).others k' hk, hd]

section LeavesLedger

variable (hd : w.dispatch.LeavesLedger) (hn : n.ledger.Keyed)

include hd

theorem owner_attemptAll_of_leaves (ks : List Key) (n : Node ε) :
    (n.attemptAll w.dispatch ks).2.ledger.owner = n.ledger.owner :=
  attemptAll_induction (P := fun m ↦ m.ledger.owner = n.ledger.owner)
    (fun k m hm ↦ (owner_attempt_of_leaves hd k m).trans hm) rfl ks

include hn

theorem get?_attemptAll_of_notMem (hk : k ∉ ks) :
    (n.attemptAll w.dispatch ks).2.ledger.get? k = n.ledger.get? k := by
  induction ks generalizing n with
  | nil => rfl
  | cons k' ks ih =>
    obtain ⟨hne, hk⟩ := not_or.1 (mt List.mem_cons.2 hk)
    have hnow := get?_attempt_of_ne hd hn hne
    cases hmade : (n.attempt w.dispatch k').1 with
    | none => rw [attemptAll_cons_of_none hmade, hnow]
    | some made => rw [attemptAll_cons_of_some hmade, ih (keyed_attempt_crew hn w k') hk, hnow]

/-- If the pass comes to its end, every command that is to be run is handed over as it stood when
the pass began, and after the pass its outcome stands under its key. -/
theorem exists_mem_handed {c : Command} (hks : ks.Nodup) (hk : k ∈ ks)
    (hcount : (n.attemptAll w.dispatch ks).1 ≠ none)
    (hc : n.ledger.get? k = some c) (hrun : c.status.isRunnable = true) :
    ∃ h ∈ n.handed w.dispatch ks, ∃ o, c.attempted n.ledger.owner = some h.given ∧
      h.outcome = some o ∧ o.key = k ∧
      (n.attemptAll w.dispatch ks).2.ledger.get? k = some o := by
  obtain ⟨before, after, rfl⟩ := List.append_of_mem hk
  obtain ⟨hbefore, hafter⟩ : k ∉ before ∧ k ∉ after := by
    simpa using (List.nodup_cons.1 (List.nodup_middle.1 hks)).1
  have hm := keyed_attemptAll_crew hn w before
  have hstood : (n.attemptAll w.dispatch before).2.ledger.get? k = some c :=
    (get?_attemptAll_of_notMem hd hn hbefore).trans hc
  obtain ⟨count, hreached⟩ : ∃ count, (n.attemptAll w.dispatch before).1 = some count := by
    rw [← Option.ne_none_iff_exists']
    exact fun hended ↦ hcount (by rw [attemptAll_append_of_none hended, hended])
  obtain ⟨made, hmade⟩ :
      ∃ made, ((n.attemptAll w.dispatch before).2.attempt w.dispatch k).1 = some made := by
    rw [← Option.ne_none_iff_exists']
    exact fun hended ↦ hcount (fst_attemptAll_eq_none_iff.2 ⟨before, k, after, rfl,
      hreached ▸ Option.some_ne_none count, fst_attempt_eq_none_iff.1 hended⟩)
  cases hbegin : (n.attemptAll w.dispatch before).2.beginning k with
  | skip =>
    have hdone := beginning_eq_skip_iff.1 hbegin c hstood
    exact absurd hrun (Status.not_isRunnable_of_isTerminal hdone)
  | overflow =>
    rw [attempt_of_overflow hbegin] at hmade
    cases hmade
  | handOver given =>
    have hh := handover?_of_handOver (d := w.dispatch) hbegin
    have hgoes := goes_of_handover? hm hh
    obtain ⟨c', hc', -, hgiven⟩ := hgoes.stood
    obtain rfl := Option.some.inj (hc'.symm.trans hstood)
    rw [owner_attemptAll_of_leaves hd] at hgiven
    rw [attempt_of_handover? hh] at hmade
    obtain ⟨o, ho, -⟩ := Option.map_eq_some_iff.1 hmade
    refine ⟨_, ((mem_handed_iff hn w hks).2 ⟨hreached ▸ Option.some_ne_none count, hh⟩).1, o,
      hgiven, ho, (key_of_handover? hm hh).2 o ho, ?_⟩
    rw [attemptAll_append_of_some hreached,
      attemptAll_cons_of_some (by rw [attempt_of_handover? hh, ho, Option.map_some]),
      get?_attemptAll_of_notMem hd (keyed_attempt_crew hm w k) hafter]
    exact hgoes.kept c' o (by rw [hd, hstood]) hrun ho

/-- If the pass comes to its end, every command that is to be run is handed over, in the order of
the keys. -/
theorem keys_handed (hks : ks.Nodup) (hcount : (n.attemptAll w.dispatch ks).1 ≠ none)
    (hrun : ∀ k ∈ ks, ∃ c, n.ledger.get? k = some c ∧ c.status.isRunnable = true) :
    (n.handed w.dispatch ks).map (·.given.key) = ks := by
  have hsub := keys_handed_sublist hn w ks
  refine hsub.eq_of_length_le ?_
  have hmem : ks ⊆ (n.handed w.dispatch ks).map (·.given.key) := by
    intro k hk
    obtain ⟨c, hc, hcrun⟩ := hrun k hk
    obtain ⟨h, hmem, o, hgiven, -⟩ := exists_mem_handed hd hn hks hk hcount hc hcrun
    exact List.mem_map.2 ⟨h, hmem, (Command.key_attempted hgiven).trans (hn k c hc)⟩
  exact (hks.subperm hmem).length_le

end LeavesLedger

/-! ### The pass -/

theorem pairwise_runnableKeys (l : Ledger) : l.runnableKeys.Pairwise (· < ·) :=
  List.pairwise_map.2 (l.commands.sorted.sublist List.filter_sublist)

/-- In a pass the dispatch is handed commands in the order of their keys, each key at most once and
only keys that were to be run when the pass began. A key is handed over if and only if its turn
comes and its command is then there, still to be run, and not already retried as often as can be
counted; then the outcome is kept, unless the handler leaves the command gone or done, which it
stays. At any other turn nothing changes. The outcome is the answer, but what waits with three
retries or more is cancelled, and what waits with as many as can be counted has none. The pass comes
to its end and answers with the number of handovers, unless the turn of a key ends it: the command
or the answer waits with as many retries as can be counted. If the handlers leave the ledger alone,
a pass that comes to its end hands every command over that is to be run, and its outcome stands
under its key afterwards. What is done stays in any case. -/
theorem pass_hands_over (w : Crew ε) (hn : n.ledger.Keyed) :
    let keys := n.ledger.runnableKeys
    let handed := n.handed w.dispatch keys
    let passed := n.runPending w.dispatch
    ((n.withNotes []).runPending w.dispatch.noting).2.site.2 = handed ∧
    keys.Pairwise (· < ·) ∧ (handed.map (·.given.key)).Sublist keys ∧
    (∀ ks k ks', keys = ks ++ k :: ks' →
      let m := (n.attemptAll w.dispatch ks).2
      let m' := (n.attemptAll w.dispatch (ks ++ [k])).2
      ((∃ h ∈ handed, h.given.key = k) ↔ (n.attemptAll w.dispatch ks).1 ≠ none ∧
        ∃ c, m.ledger.get? k = some c ∧ c.status.isRunnable = true ∧ c.tries < 2 ^ 32) ∧
      (∀ h ∈ handed, h.given.key = k → h.Goes w.dispatch k m m') ∧
      ((∀ h ∈ handed, h.given.key ≠ k) → m' = m)) ∧
    (∀ h : Handover, h.outcome =
      if h.answer.status.isPending = true ∧ 3 ≤ h.answer.retries.toNat then
        if h.answer.retries.toNat = 2 ^ 32 - 1 then none
        else some (h.answer.finish (.cancelled (h.answer.missingDevice h.inventory)))
      else some h.answer) ∧
    (∀ count, passed.1 = some count → count = handed.length) ∧
    (passed.1 = none ↔ ∃ ks k ks', keys = ks ++ k :: ks' ∧
      (n.attemptAll w.dispatch ks).1 ≠ none ∧
      (n.attemptAll w.dispatch ks).2.EndsPass w.dispatch k) ∧
    (w.dispatch.LeavesLedger →
      (passed.1 ≠ none →
        handed.map (·.given.key) = keys ∧ passed.1 = some n.ledger.runnable.length ∧
        ∀ k c, n.ledger.get? k = some c → c.status.isRunnable = true →
          ∃ h ∈ handed, ∃ o, c.attempted n.ledger.owner = some h.given ∧ h.outcome = some o ∧
            o.key = k ∧ passed.2.ledger.get? k = some o) ∧
      ∀ k, (∀ c, n.ledger.get? k = some c → c.status.isTerminal = true) →
        passed.2.ledger.get? k = n.ledger.get? k) := by
  intro keys handed passed
  have hkeys : keys.Nodup := n.ledger.nodup_runnableKeys
  have hlength (count : Nat) (hcount : passed.1 = some count) : count = handed.length :=
    eq_length_handed hcount
  refine ⟨?_, pairwise_runnableKeys n.ledger, keys_handed_sublist hn w keys,
    fun ks k ks' hsplit ↦ ?_, fun h ↦ Command.settled_eq h.answer h.inventory, hlength,
    fst_attemptAll_eq_none_iff, fun hd ↦ ⟨fun hcomplete ↦ ?_, fun k hdone ↦ ?_⟩⟩
  · have hnoted := attemptAll_noting w.dispatch keys n []
    exact congrArg (fun r ↦ r.2.site.2) hnoted
  · have hiff (h : Handover) := mem_handed_iff (h := h) hn w (hsplit ▸ hkeys)
    rw [← hsplit] at hiff
    have hm := keyed_attemptAll_crew hn w ks
    intro m m'
    have hturn (hreached : (n.attemptAll w.dispatch ks).1 ≠ none) :
        m' = (m.attempt w.dispatch k).2 := snd_attemptAll_concat hreached
    refine ⟨?_, fun h hmem hkey ↦ ?_, fun hnone ↦ ?_⟩
    · rw [← exists_handover?_iff w.dispatch]
      constructor
      · rintro ⟨h, hmem, hkey⟩
        obtain ⟨hreached, hh⟩ := (hiff h).1 ⟨hmem, hkey⟩
        exact ⟨hreached, h, hh⟩
      · rintro ⟨hreached, h, hh⟩
        exact ⟨h, (hiff h).2 ⟨hreached, hh⟩⟩
    · obtain ⟨hreached, hh⟩ := (hiff h).1 ⟨hmem, hkey⟩
      rw [hturn hreached]
      exact goes_of_handover? hm hh
    · by_cases hreached : (n.attemptAll w.dispatch ks).1 = none
      · exact congrArg Prod.snd (attemptAll_append_of_none hreached [k])
      · rw [hturn hreached]
        refine snd_attempt_of_handover?_eq_none (Option.eq_none_iff_forall_ne_some.2 fun h hh ↦ ?_)
        obtain ⟨hmem, hkey⟩ := (hiff h).2 ⟨hreached, hh⟩
        exact hnone h hmem hkey
  · have hall : handed.map (·.given.key) = keys :=
      keys_handed hd hn hkeys hcomplete fun k hk ↦ Ledger.mem_runnableKeys_iff.1 hk
    obtain ⟨count, hcount⟩ := Option.ne_none_iff_exists'.1 hcomplete
    refine ⟨hall, ?_, fun k c hc hrun ↦ ?_⟩
    · rw [hcount, hlength count hcount, ← List.length_map (·.given.key), hall]
      exact congrArg some (List.length_map _)
    · exact exists_mem_handed hd hn hkeys (Ledger.mem_runnableKeys_iff.2 ⟨c, hc, hrun⟩) hcomplete
        hc hrun
  · refine get?_attemptAll_of_notMem hd hn fun hk ↦ ?_
    obtain ⟨c, hc, hrun⟩ := Ledger.mem_runnableKeys_iff.1 hk
    exact absurd hrun (Status.not_isRunnable_of_isTerminal (hdone c hc))

/-! ### Rivals -/

/-- What happens while one of four commands is carried out: with the first the second is deleted,
the third is deleted itself, and the fourth is done elsewhere. -/
def interference (c : Command) (_ : Node Unit) : List Ledger.Operation :=
  if c.text = "a" then [.delete ⟨none, "b"⟩]
  else if c.text = "c" then [.delete c.key]
  else if c.text = "d" then [.complete { c with result := "elsewhere", status := .ok }]
  else []

/-- A crew that lets all commands wait. -/
def rivals : Crew Unit where
  dispatch _ := some fun c n ↦
    (c.finish (.pending "later"), { n with ledger := n.ledger.after (interference c n) })
  script := interference
  ledger_run _ _ := rfl

/-- A node that was given four commands. -/
def beset : Node Unit where
  ledger := Ledger.after
    (["a", "b", "c", "d"].map fun text ↦ .give default (.new default text) []) { owner := "c1" }
  inventory := .listened
  site := ()

/-- A node with two commands. The first waits with as many retries as can be counted. -/
def overdue : Node Unit where
  ledger := Ledger.store { text := "a", status := .pending "later", retries := 4294967295 }
    (Ledger.store { text := "b" } { owner := "c1" })
  inventory := .listened
  site := ()

/-- Of the four commands three are handed over. The second is gone before its turn, the third is
gone after its own, and the fourth is done elsewhere. Of the two commands none is handed over: the
turn of the first ends the pass, which has no answer. -/
theorem pass_hands_over_of_rivals :
    (let passed := beset.runPending rivals.dispatch
    let handed := beset.handed rivals.dispatch beset.ledger.runnableKeys
    handed.map (·.given.key) = [⟨none, "a"⟩, ⟨none, "c"⟩, ⟨none, "d"⟩] ∧ passed.1 = some 3 ∧
      (beset.attemptAll rivals.dispatch [⟨none, "a"⟩, ⟨none, "b"⟩, ⟨none, "c"⟩]).2.ledger.get?
        ⟨none, "c"⟩ = none ∧
      (passed.2.ledger.get? ⟨none, "d"⟩).map (·.result) = some "elsewhere") ∧
    (overdue.runPending rivals.dispatch).1 = none ∧
      ∀ h ∈ overdue.handed rivals.dispatch overdue.ledger.runnableKeys,
        h.given.key ≠ ⟨none, "b"⟩ := by
  constructor
  · intro passed handed
    have hkeyed : beset.ledger.Keyed := (Ledger.Keyed.of_empty rfl).after _
    have hkeys : beset.ledger.runnableKeys =
        [⟨none, "a"⟩, ⟨none, "b"⟩] ++ ⟨none, "c"⟩ :: [⟨none, "d"⟩] := by decide +kernel
    have hhanded : handed.map (·.given.key) = [⟨none, "a"⟩, ⟨none, "c"⟩, ⟨none, "d"⟩] := by
      decide +kernel
    have hcomplete : passed.1.isSome = true := by decide +kernel
    obtain ⟨-, -, -, hturn, -, hlength, -⟩ := pass_hands_over rivals hkeyed
    refine ⟨hhanded, ?_, ?_, by decide +kernel⟩
    · obtain ⟨count, hcount⟩ := Option.isSome_iff_exists.1 hcomplete
      have hthree := congrArg List.length hhanded
      rw [List.length_map, ← hlength count hcount] at hthree
      exact hcount.trans (congrArg some hthree)
    · obtain ⟨h, hmem, hkey⟩ : ∃ h ∈ handed, h.given.key = ⟨none, "c"⟩ :=
        List.mem_map.1 (hhanded ▸ by decide)
      have hgoes := (hturn _ _ _ hkeys).2.1 h hmem hkey
      have htext : h.given.text = "c" := congrArg Key.text hkey
      have hscript (m : Node Unit) : rivals.script h.given m = [.delete ⟨none, "c"⟩] := by
        change interference h.given m = _
        rw [interference, htext, hkey]
        rfl
      refine hgoes.gone ?_
      rw [rivals.ledger_run, hscript]
      decide +kernel
  · have hkeyed : overdue.ledger.Keyed := ((Ledger.Keyed.of_empty rfl).store _).store _
    have hends : (overdue.attemptAll rivals.dispatch []).2.EndsPass rivals.dispatch ⟨none, "a"⟩ :=
      Or.inl ⟨_, rfl, rfl, rfl⟩
    obtain ⟨-, -, -, hturn, -, -, hended, -⟩ := pass_hands_over rivals hkeyed
    refine ⟨hended.2 ⟨[], ⟨none, "a"⟩, [⟨none, "b"⟩], by decide +kernel, by decide, hends⟩,
      fun h hh hkey ↦ ?_⟩
    obtain ⟨hreached, -⟩ := (hturn [⟨none, "a"⟩] ⟨none, "b"⟩ [] (by decide +kernel)).1.1
      ⟨h, hh, hkey⟩
    exact hreached (by decide +kernel)

end Node

end Switchyard
