import Switchyard.Proofs.Command.Wire
import Switchyard.Proofs.Node.Handover

/-!
# The counter of retries in one attempt

An attempt counts on if the command was attempted before, and if the answer waits it compares one
more than the counter with the number of attempts that a command gets. Counters have 32 bits and
come from other nodes as they are, so both sums may go past the last counter. Then the attempt ends
where it stands: nothing is kept, and a command that waits with all these retries is not cancelled,
now or in any later pass.

## Main definitions

* `Dispatch.KeepsRetries` : handlers that leave the counter alone.
* `Handover.Counts` : a handover that keeps count.

## Main results

* `Handover.Counts.outcome_eq` : when a command is cancelled.
* `Node.counter_of_attempt` : the sums of an attempt, for every counter that the wire admits.
-/

namespace Switchyard

open Command (maxAttempts)

/-! ### Handovers that keep count -/

/-- The handlers of a dispatch leave the counter of a command alone. -/
def Dispatch.KeepsRetries {ε : Type} (d : Dispatch ε) : Prop :=
  ∀ c n, (d.run c n).1.retries = c.retries

/-- A handover of a command in an attempt, by a handler that leaves the counter alone. -/
structure Handover.Counts (c : Command) (h : Handover) : Prop where
  status : h.given.status = c.status
  given : h.given.retries.toNat = c.tries
  answer : h.answer.retries = h.given.retries

namespace Handover

variable {c : Command} {h : Handover}

theorem Counts.toNat_answer (hh : Counts c h) : h.answer.retries.toNat = c.tries := by
  rw [hh.answer, hh.given]

/-- A command that still waits is cancelled if this was its last attempt, provided that the attempts
can be counted. -/
theorem Counts.outcome_eq (hh : Counts c h) (hwait : h.answer.status.isPending = true) :
    h.outcome = if c.tries + 1 = 2 ^ 32 then none
      else if maxAttempts.toNat ≤ c.tries + 1 then
        some (h.answer.finish (.cancelled (h.answer.missingDevice h.inventory)))
      else some h.answer := by
  have hanswer := hh.toNat_answer
  have hfour : maxAttempts.toNat = 4 := rfl
  rw [outcome, Command.settled_eq, hanswer, hfour]
  simp only [hwait, true_and]
  split_ifs <;> first | rfl | omega

/-- The next attempt cannot be counted if the command still waits after as many attempts as can be
counted. -/
theorem Counts.outcome_eq_none_iff (hh : Counts c h) :
    h.outcome = none ↔ h.answer.status.isPending = true ∧ c.tries + 1 = 2 ^ 32 := by
  rw [outcome, Command.settled_eq_none_iff, hh.toNat_answer, and_congr_right_iff]
  omega

end Handover

namespace Node

variable {ε : Type} {d : Dispatch ε} {n : Node ε} {k : Key} {c : Command} {h : Handover}

/-- What is handed over in an attempt keeps count. -/
theorem counts_of_handover? (hd : d.KeepsRetries) (hc : n.ledger.get? k = some c)
    (hh : n.handover? d k = some h) : h.Counts c := by
  obtain ⟨given, hbegin, rfl⟩ := handover?_eq_some_iff.1 hh
  obtain ⟨c', hc', -, hgiven⟩ := beginning_eq_handOver_iff.1 hbegin
  obtain rfl := Option.some.inj (hc'.symm.trans hc)
  exact ⟨Command.status_attempted hgiven, (Command.attempted_eq_some_iff.1 hgiven).1, hd _ _⟩

/-- Nothing is handed over if the attempts made so far are more than the counter counts. -/
theorem handover?_eq_none_iff_tries (hc : n.ledger.get? k = some c)
    (hrun : c.status.isRunnable = true) : n.handover? d k = none ↔ c.tries = 2 ^ 32 := by
  have hle := c.tries_le
  have hlt := c.retries.toNat_lt
  rw [Option.eq_none_iff_forall_ne_some, ← not_exists, exists_handover?_iff]
  constructor
  · intro hnone
    by_contra hfew
    exact hnone ⟨c, hc, hrun, by omega⟩
  · rintro hfull ⟨c', hc', -, hfew⟩
    obtain rfl := Option.some.inj (hc.symm.trans hc')
    omega

/-- Every counter comes over the wire, with commands that are new and with commands that wait. Let
handlers leave the counter alone, and let a command be still to be run. In its attempt, counting on
goes past the last counter exactly if the attempts that the record stands for do, and then nothing is
handed over. Else the counter counts these attempts. If the answer waits, the comparison goes past
the last counter exactly if this attempt is one too many, and then there is no outcome; else the
command is cancelled if its attempts are used up, and waits on if not. An attempt ends the pass in
these two cases only, and then a ledger that the handlers leave alone stays as it was. -/
theorem counter_of_attempt (hn : n.ledger.Keyed) (hd : d.KeepsRetries) :
    (∀ (s : Status) (retries : UInt32), s.isRunnable = true →
      ∃ t, ∃ c ∈ CommandTable.decode t, c.status.isRunnable = true ∧
        c.status.isPending = s.isPending ∧ c.retries = retries) ∧
    ∀ k c, n.ledger.get? k = some c → c.status.isRunnable = true →
      (n.handover? d k = none ↔ c.tries = 2 ^ 32) ∧
      (∀ h, n.handover? d k = some h →
        h.given.retries.toNat = c.tries ∧ h.Goes d k n (n.attempt d k).2 ∧
        h.outcome =
          if h.answer.status.isPending = true then
            if c.tries + 1 = 2 ^ 32 then none
            else if maxAttempts.toNat ≤ c.tries + 1 then
              some (h.answer.finish (.cancelled (h.answer.missingDevice h.inventory)))
            else some h.answer
          else some h.answer) ∧
      ((n.attempt d k).1 = none ↔ c.tries = 2 ^ 32 ∨
        c.tries + 1 = 2 ^ 32 ∧ ∃ h, n.handover? d k = some h ∧ h.answer.status.isPending = true) ∧
      (d.LeavesLedger → (n.attempt d k).1 = none → (n.attempt d k).2.ledger = n.ledger) := by
  refine ⟨fun s retries hs ↦ ?_, fun k c hc hrun ↦ ⟨handover?_eq_none_iff_tries hc hrun,
    fun h hh ↦ ?_, ?_, fun hleaves hended ↦ ?_⟩⟩
  · let sent : Command := { text := "", status := s, retries }
    obtain ⟨c, hc, -, hmem⟩ := CommandTable.exists_mem_decode_encode (List.mem_singleton_self sent)
    obtain rfl := List.mem_singleton.1 hc
    refine ⟨_, _, hmem, ?_, ?_, rfl⟩
    · rw [Command.carried_isRunnable]
      exact hs
    · rw [Command.carried_status, Status.isPending_parse_text]
  · have hcounts := counts_of_handover? hd hc hh
    refine ⟨hcounts.given, goes_of_handover? hn hh, ?_⟩
    split
    next hwait => exact hcounts.outcome_eq hwait
    next hnot => exact Command.settled_of_not_isPending (Bool.eq_false_iff.2 hnot) _
  · cases hh : n.handover? d k with
    | none =>
      have hfull := (handover?_eq_none_iff_tries hc hrun).1 hh
      exact iff_of_true (fst_attempt_of_handover?_eq_none hc hrun hh) (Or.inl hfull)
    | some h =>
      have hcounts := counts_of_handover? hd hc hh
      have hfew : c.tries ≠ 2 ^ 32 := fun hfull ↦ by
        rw [(handover?_eq_none_iff_tries hc hrun).2 hfull] at hh
        cases hh
      rw [attempt_of_handover? hh, Option.map_eq_none_iff, hcounts.outcome_eq_none_iff]
      constructor
      · rintro ⟨hwait, hlast⟩
        exact Or.inr ⟨hlast, h, rfl, hwait⟩
      · rintro (hfull | ⟨hlast, h', hh', hwait⟩)
        · exact absurd hfull hfew
        · obtain rfl := Option.some.inj hh'
          exact ⟨hwait, hlast⟩
  · cases hh : n.handover? d k with
    | none => rw [snd_attempt_of_handover?_eq_none hh]
    | some h =>
      rw [attempt_of_handover? hh, Option.map_eq_none_iff] at hended
      rw [(goes_of_handover? hn hh).ended hended, hleaves]

/-! ### Two commands that wait -/

/-- Handlers that only answer, all commands alike. -/
def answering (s : Status) : Dispatch Unit := fun _ ↦ some fun c n ↦ (c.finish s, n)

/-- A client that holds a command which has waited before, with some retries. -/
def holding (retries : UInt32) : Node Unit where
  ledger := Ledger.store { Command.new default "a" with status := .pending "later", retries }
    { owner := "c1" }
  inventory := .listened
  site := ()

/-- A command with two retries is cancelled when it waits again. With all retries but one that the
counter can count, its attempt ends the pass and leaves it as it was. -/
theorem counter_of_attempt_of_holding :
    let d := answering (.pending "later")
    let later (retries : UInt32) := (holding retries).attempt d ⟨none, "a"⟩
    ((later 2).2.ledger.get? ⟨none, "a"⟩).map (fun c ↦ (c.status, c.retries)) =
        some (.cancelled none, 3) ∧
      (later 4294967294).1 = none ∧
      ((later 4294967294).2.ledger.get? ⟨none, "a"⟩).map (fun c ↦ (c.status, c.retries)) =
        some (.pending "later", 4294967294) := by
  intro d later
  have hkeyed (retries : UInt32) : (holding retries).ledger.Keyed :=
    (Ledger.Keyed.of_empty rfl).store _
  have hkeeps : d.KeepsRetries := fun _ _ ↦ rfl
  constructor
  · obtain ⟨h, hh, hwait, hknown, hthree⟩ : ∃ h, (holding 2).handover? d ⟨none, "a"⟩ = some h ∧
        h.answer.status.isPending = true ∧ h.answer.missingDevice h.inventory = none ∧
        h.answer.retries = 3 := ⟨_, rfl, rfl, rfl, rfl⟩
    obtain ⟨-, hattempt⟩ := counter_of_attempt (hkeyed 2) hkeeps
    obtain ⟨-, hhanded, -⟩ := hattempt ⟨none, "a"⟩ _ rfl rfl
    obtain ⟨-, hgoes, houtcome⟩ := hhanded h hh
    rw [if_pos hwait, if_neg (by decide), if_pos (by decide), hknown] at houtcome
    rw [hgoes.kept _ _ rfl rfl houtcome, Option.map_some]
    exact congrArg (fun r ↦ some (Status.cancelled none, r)) hthree
  · obtain ⟨-, hattempt⟩ := counter_of_attempt (hkeyed 4294967294) hkeeps
    obtain ⟨-, -, hends, hstays⟩ := hattempt ⟨none, "a"⟩ _ rfl rfl
    have hended : (later 4294967294).1 = none := hends.2 (Or.inr ⟨by decide, _, rfl, rfl⟩)
    refine ⟨hended, ?_⟩
    rw [hstays (fun _ _ ↦ rfl) hended]
    rfl

end Node

end Switchyard
