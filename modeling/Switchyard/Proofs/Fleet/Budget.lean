import Mathlib.Algebra.Order.Group.Nat
import Switchyard.Proofs.Fleet.Invariant

/-!
# The budget of a command at a client

A command has a budget of attempts at a client. What is left of it can be read off the record that
the client holds: a command that waits has had one attempt more than it counts retries, a new one
exactly as many. An attempt spends one, when it comes to its outcome, merging never gives anything
back, and so the attempts of a run are bounded by what was left when it began, but for one thing: a
pull may take a command that waits back to new. Then the retries stay and one attempt more is to be
had.

As long as budgets are not used up there is room in all counters, so that no pass is ended.

## Main definitions

* `Command.Unspent`, `Fleet.Unspent` : no command that is still to be run has used up its budget.
* `Ledger.attemptsLeft` : the attempts left of a record.
* `Fleet.engaged` : one while a client works on a command, else none.
* `Fleet.setbacks` : the commands that an event takes back from waiting to new.

## Main results

* `Fleet.attempts_step_le`, `Fleet.attempts_run_le` : attempts are paid for by what is left and by
  setbacks.
-/

namespace Switchyard

open Command (maxAttempts)

/-! ### Budgets -/

/-- A command that is still to be run has attempts left. -/
def Command.Unspent (c : Command) : Prop :=
  c.status.isRunnable = true → c.retries.toNat + 1 < maxAttempts.toNat

namespace Ledger

/-- The attempts left at a client of what stands under a key. -/
def attemptsLeft : Option Command → Nat
  | none => maxAttempts.toNat
  | some c =>
    if c.status.isTerminal then 0
    else if c.status.isPending then maxAttempts.toNat - (c.retries.toNat + 1)
    else maxAttempts.toNat - c.retries.toNat

variable {l : Ledger} {k : Key} {c s : Command} {stood : Option Command}

theorem attemptsLeft_of_isTerminal (h : c.status.isTerminal = true) :
    attemptsLeft (some c) = 0 := by
  simp [attemptsLeft, h]

theorem attemptsLeft_of_isRunnable (h : c.status.isRunnable = true) :
    attemptsLeft (some c) = maxAttempts.toNat - c.tries := by
  simp only [attemptsLeft, Command.tries, Status.isRunnable_iff.1 h, Bool.false_eq_true, if_false]
  split <;> rfl

theorem attemptsLeft_of_isPending (h : c.status.isPending = true) :
    attemptsLeft (some c) = maxAttempts.toNat - (c.retries.toNat + 1) := by
  rw [attemptsLeft_of_isRunnable (Status.isRunnable_of_isPending h), Command.tries_of_isPending h]

theorem attemptsLeft_le (stood : Option Command) : attemptsLeft stood ≤ maxAttempts.toNat := by
  cases stood with
  | none => exact le_rfl
  | some c =>
    simp only [attemptsLeft]
    split_ifs <;> omega

/-- A record with nothing left is done. -/
theorem isTerminal_of_attemptsLeft_eq_zero (h : attemptsLeft stood = 0)
    (hstood : ∀ c, stood = some c → c.Unspent) :
    ∃ c, stood = some c ∧ c.status.isTerminal = true := by
  cases stood with
  | none => cases h
  | some c =>
    refine ⟨c, rfl, ?_⟩
    by_contra hrun
    have hleft := hstood c rfl (Status.isRunnable_iff.2 (Bool.eq_false_iff.2 hrun))
    simp only [attemptsLeft] at h
    split_ifs at h <;> omega

/-! ### Merging -/

/-- A pull keeps budgets unspent. -/
theorem unspent_mergePulled {cs : List Command} (hl : ∀ s, l.get? k = some s → s.Unspent)
    (hcs : ∀ c ∈ cs, c.Unspent) : ∀ s, (l.mergePulled cs).2.get? k = some s → s.Unspent := by
  intro s hs hrun
  exact Nat.succ_lt_succ (retries_lt_mergePulled
    (fun s hs hrun ↦ Nat.lt_of_succ_lt_succ (hl s hs hrun))
    (fun c hc hrun ↦ Nat.lt_of_succ_lt_succ (hcs c hc hrun)) s hs hrun)

end Ledger

/-! ### Attempts -/

namespace Command

variable {owner : String} {c o : Command}

/-- An attempt leaves a command done or with attempts left. -/
theorem Comes.unspent (h : Comes owner c o) : o.Unspent := by
  intro horun
  rcases h.status with hdone | ⟨-, -, hlt⟩
  · exact absurd horun (Status.not_isRunnable_of_isTerminal hdone)
  · exact hlt

/-- An attempt costs one of the attempts left. -/
theorem Comes.attemptsLeft_lt (h : Comes owner c o) (hc : c.Unspent)
    (hrun : c.status.isRunnable = true) :
    Ledger.attemptsLeft (some o) < Ledger.attemptsLeft (some c) := by
  have hbefore := hc hrun
  have hle := c.tries_le
  have hretries := h.retries
  rw [Ledger.attemptsLeft_of_isRunnable hrun]
  rcases h.status with hdone | ⟨hwait, -, -⟩
  · rw [Ledger.attemptsLeft_of_isTerminal hdone]
    omega
  · rw [Ledger.attemptsLeft_of_isPending hwait]
    omega

end Command

/-! ### Setbacks -/

namespace Ledger

/-- A command that waits is back to new. -/
def setback (before after : Option Command) : List Command :=
  before.toList.filter fun c ↦ c.status.isPending && after.any (·.status == .new)

variable {l : Ledger} {k : Key} {c s : Command} {stood : Option Command}

theorem setback_self (stood : Option Command) : setback stood stood = [] := by
  cases stood with
  | none => rfl
  | some c => cases hc : c.status <;> simp [setback, hc, Status.isPending]

/-- A pull gives no attempt back, unless it is a setback. -/
theorem attemptsLeft_mergePulled {cs : List Command}
    (hcs : ∀ c ∈ cs, c.status.isRunnable = true) :
    attemptsLeft ((l.mergePulled cs).2.get? k) ≤ attemptsLeft (l.get? k) +
      (setback (l.get? k) ((l.mergePulled cs).2.get? k)).length := by
  cases hs : l.get? k with
  | none => exact (attemptsLeft_le _).trans (Nat.le_add_right ..)
  | some s =>
    cases hrun : s.status.isRunnable with
    | false =>
      have hdone : s.status.isTerminal = true := by simpa [Status.isRunnable] using hrun
      rw [get?_mergePulled_of_isTerminal hs hdone]
      exact Nat.le_add_right ..
    | true =>
      obtain ⟨c, hc, hcrun, hle⟩ := retries_mergePulled hs hrun hcs
      rw [hc]
      have hsterm : s.status.isTerminal = false := Status.isRunnable_iff.1 hrun
      have hcterm : c.status.isTerminal = false := Status.isRunnable_iff.1 hcrun
      simp only [attemptsLeft, hsterm, hcterm, Bool.false_eq_true, if_false]
      cases hswait : s.status.isPending with
      | false =>
        simp only [Bool.false_eq_true, if_false]
        split_ifs <;> omega
      | true =>
        cases hcwait : c.status.isPending with
        | true =>
          simp only [if_true]
          omega
        | false =>
          have hnew : c.status = .new := (Status.eq_new_iff _).2 ⟨hcterm, hcwait⟩
          have hsetback : setback (some s) (some c) = [s] := by simp [setback, hswait, hnew]
          rw [hsetback]
          simp only [Bool.false_eq_true, if_true, if_false, List.length_singleton]
          omega

end Ledger

/-! ### Runs -/

namespace Fleet

variable {ι ω : Type} {v : Fleet ι ω}

/-- No command of a fleet that is still to be run has used up its budget, be it at the root, at a
client or on the way to one. -/
structure Unspent (v : Fleet ι ω) : Prop where
  root : ∀ k c, v.root.ledger.get? k = some c → c.Unspent
  client : ∀ i k c, (v.client i).ledger.get? k = some c → c.Unspent
  answer : ∀ i cs, v.phase i = .received cs → ∀ c ∈ cs, c.Unspent

theorem Fresh.unspent (h : v.Fresh) (hroot : ∀ k c, v.root.ledger.get? k = some c → c.Unspent) :
    v.Unspent := by
  refine ⟨hroot, fun i k c hc ↦ ?_, fun i cs hcs ↦ ?_⟩
  · rw [Ledger.get?_of_empty (h.ledger i)] at hc
    cases hc
  · rw [h.phase i] at hcs
    cases hcs

theorem unspent_carried {c : Command} (h : c.Unspent) : c.carried.Unspent := by
  intro hrun
  rw [Command.carried_isRunnable] at hrun
  exact h hrun

theorem Unspent.hasRoom (h : v.Unspent) (i : ι) : (v.client i).ledger.HasRoom := by
  intro k c hc hrun
  have hleft := h.client i k c hc hrun
  have hfour : maxAttempts.toNat = 4 := rfl
  omega

/-- As long as budgets are not used up every attempt has an outcome. -/
theorem Unspent.exists_outcome {i : ι} {given : Command} (h : v.Unspent)
    (hg : (v.client i).ledger.HandsOver given) (now : Time.Instant) (p : Protocol ω) :
    ∃ o, ((v.client i).carryOut (Client.dispatch now p) given).1 = some o := by
  obtain ⟨c, hc, hrun, hgiven⟩ := hg
  exact Client.exists_fst_carryOut hgiven ((h.hasRoom i given.key c hc).tries_lt hrun) now p _

variable [DecidableEq ι] {p : ι → Protocol ω} {i : ι} {k : Key}

theorem unspent_report {n : Client ω} (hn : ∀ k c, n.ledger.get? k = some c → c.Unspent)
    {c : Command} (hc : c ∈ report n) : c.Unspent := by
  obtain ⟨k, sent, hk, rfl⟩ := exists_of_mem_report hc
  exact unspent_carried (hn k sent hk)

theorem unspent_answerTo (n : Client ω) {r : Root}
    (hr : ∀ k c, r.ledger.get? k = some c → c.Unspent) {c : Command} (hc : c ∈ answerTo n r) :
    c.Unspent := by
  obtain ⟨k, sent, hk, -, rfl⟩ := exists_of_mem_answerTo hc
  exact unspent_carried (hr k sent hk)

theorem unspent_root_step (h : v.Orderly) (hu : v.Unspent) (e : Event ι ω) (k : Key) (c : Command)
    (hc : (v.step p e).root.ledger.get? k = some c) : c.Unspent := by
  by_cases he : ∃ i now arrives, e = .push i now arrives
  · obtain ⟨i, now, arrives, rfl⟩ := he
    by_cases hph : v.phase i = .running []
    · rw [step, h.push_eq hph] at hc
      cases arrives with
      | false => exact hu.root k c hc
      | true =>
        rcases Ledger.of_get?_mergePushed hc with hold | ⟨d, hd, -, flags, rfl⟩
        · exact hu.root k c hold
        · have hsent : d.Unspent := unspent_report (hu.client i) hd
          exact hsent
    · rw [step, push_of_ne hph] at hc
      exact hu.root k c hc
  · by_cases hk : k ∈ written e v
    · cases e with
      | submit now given =>
        obtain ⟨d, hd, -, hstatus⟩ := Root.exists_get?_submit_of_mem hk
        obtain rfl := Option.some.inj (hd.symm.trans hc)
        intro hrun
        split at hstatus
        · exact absurd hrun (Status.not_isRunnable_of_isTerminal hstatus)
        · rw [hstatus.2.1]
          decide
      | delete k' => exact hu.root k c (of_root_get?_delete hc)
      | _ => cases hk
    · rw [root_get?_step_of_not_mem (fun i now arrives heq ↦ he ⟨i, now, arrives, heq⟩) hk] at hc
      exact hu.root k c hc

theorem unspent_client_step (h : v.Orderly) (hu : v.Unspent) (e : Event ι ω) (i : ι) (k : Key)
    (c : Command) (hc : ((v.step p e).client i).ledger.get? k = some c) : c.Unspent := by
  rcases ledger_step_cases p e v i with
    hsame | ⟨cs, hph, htake⟩ | ⟨now, given, ks, hph, -, hcarried⟩
  · rw [hsame] at hc
    exact hu.client i k c hc
  · rw [htake] at hc
    exact Ledger.unspent_mergePulled (hu.client i k) (hu.answer i cs hph) c hc
  · have hg := h.handsOver hph
    rw [hcarried] at hc
    cases ho : ((v.client i).carryOut (Client.dispatch now (p i)) given).1 with
    | none =>
      rw [Client.get?_carryOut_of_none ho] at hc
      exact hu.client i k c hc
    | some o =>
      rw [Client.get?_carryOut hg ho] at hc
      split_ifs at hc with hdel hk
      · obtain ⟨before, -, -, hcomes⟩ := Client.comes_of_carryOut hg ho
        exact Option.some.inj hc ▸ hcomes.unspent
      · exact hu.client i k c hc

theorem Unspent.step (hu : v.Unspent) (h : v.Orderly) (e : Event ι ω) : (v.step p e).Unspent := by
  refine ⟨unspent_root_step h hu e, unspent_client_step h hu e, fun i cs hph c hc ↦ ?_⟩
  rcases of_phase_step_eq_received hph with hold | rfl
  · exact hu.answer i cs hold c hc
  · exact unspent_answerTo (v.client i) hu.root hc

theorem Unspent.run (hu : v.Unspent) (h : v.Orderly) (es : List (Event ι ω)) :
    (run p es v).Unspent := by
  induction es generalizing v with
  | nil => exact hu
  | cons e es ih => exact ih (hu.step h e) (h.step e)

/-- The setbacks of a command at a client in an event. -/
def setbacks (p : ι → Protocol ω) (i : ι) (k : Key) (e : Event ι ω) (v : Fleet ι ω) :
    List Command :=
  Ledger.setback ((v.client i).ledger.get? k) (((v.step p e).client i).ledger.get? k)

/-- One while a client works on a command, else none. -/
def engaged (i : ι) (k : Key) (v : Fleet ι ω) : Nat := ((v.phase i).inHand.any (·.key = k)).toNat

omit [DecidableEq ι] in
/-- A client works on a command that has attempts left. -/
theorem engaged_le_attemptsLeft (h : v.Steady) (hu : v.Unspent) (i : ι) (k : Key) :
    v.engaged i k ≤ Ledger.attemptsLeft ((v.client i).ledger.get? k) := by
  cases hhand : (v.phase i).inHand with
  | none => simp [engaged, hhand]
  | some given =>
    obtain ⟨c, hc, hrun, -⟩ := (h.client i).handed given hhand
    by_cases hk : given.key = k
    · have hleft := hu.client i given.key c hc hrun
      have hle := c.tries_le
      rw [← hk, hc, Ledger.attemptsLeft_of_isRunnable hrun]
      exact (Bool.toNat_le _).trans (by omega)
    · simp [engaged, hhand, hk]

/-- What an event costs in attempts is paid for by what is left and by setbacks. An attempt is paid
for when it comes to its outcome. -/
theorem attempts_step_le (h : v.Orderly) (hu : v.Unspent) {e : Event ι ω}
    (hdel : ∀ o ∈ outcomes p i e v, o.deletes? ≠ some k) :
    (begun i e v).countP (·.key = k) +
        Ledger.attemptsLeft (((v.step p e).client i).ledger.get? k) + v.engaged i k ≤
      Ledger.attemptsLeft ((v.client i).ledger.get? k) + (v.step p e).engaged i k +
        (setbacks p i k e v).length := by
  cases moves_step p i e v with
  | rests hledger hhand hbegun =>
    rw [hbegun, hledger, engaged, engaged, hhand, List.countP_nil]
    omega
  | @handsOver k' ks given he hph hbegin hafter hbegun =>
    rw [hbegun, hafter, client_withClient, engaged, engaged, phase_withClient, hph]
    simp only [Phase.inHand, List.countP_singleton, Option.any_none, Option.any_some]
    by_cases hk : given.key = k <;> simp [hk]
    omega
  | @merges cs he hph hafter =>
    have hpulled := Ledger.attemptsLeft_mergePulled (l := (v.client i).ledger) (k := k)
      fun c hc ↦ ((h.client i).answer cs hph c hc).1
    subst he
    rw [setbacks, hafter, client_withClient, engaged, engaged, phase_withClient, hph]
    simp only [begun, Phase.inHand, List.countP_nil, Option.any_none, Bool.toNat_false]
    exact (Nat.zero_add _).trans_le hpulled
  | @carriesOut now given ks he hph hafter hout =>
    have hg := h.handsOver hph
    obtain ⟨o, ho⟩ := hu.exists_outcome hg now (p i)
    obtain ⟨before, hbefore, hrun, hcomes⟩ := Client.comes_of_carryOut hg ho
    have hnot : o.deletes? ≠ some k := hdel o (by rw [hout, ho]; exact List.mem_singleton_self o)
    have hworking : v.engaged i k = (decide (given.key = k)).toNat := by
      rw [engaged, hph]
      rfl
    have hrests : (v.step p e).engaged i k = 0 := by
      rw [hafter, engaged, phase_withClient, Phase.inHand_resumed]
      rfl
    subst he
    rw [hworking, hrests, hafter, client_withClient, Client.get?_carryOut hg ho, if_neg hnot]
    simp only [begun, List.countP_nil]
    by_cases hk : given.key = k
    · subst hk
      have hlt := hcomes.attemptsLeft_lt (hu.client i given.key before hbefore) hrun
      rw [if_pos rfl, hbefore, decide_eq_true rfl, Bool.toNat_true]
      omega
    · rw [if_neg (Ne.symm hk), decide_eq_false hk, Bool.toNat_false]
      omega

/-- The attempts of a run are paid for by what was left when it began and by setbacks, but for one
that is still under way. -/
theorem attempts_run_le (h : v.Orderly) (hu : v.Unspent) {es : List (Event ι ω)}
    (hdel : ∀ o ∈ seen p (outcomes p i) es v, o.deletes? ≠ some k) :
    (seen p (begun i) es v).countP (·.key = k) +
        Ledger.attemptsLeft (((run p es v).client i).ledger.get? k) + v.engaged i k ≤
      Ledger.attemptsLeft ((v.client i).ledger.get? k) + (run p es v).engaged i k +
        (seen p (setbacks p i k) es v).length := by
  induction es generalizing v with
  | nil => simp [seen, run]
  | cons e es ih =>
    have hnow := attempts_step_le h hu fun o ho ↦ hdel o (List.mem_append_left _ ho)
    have hlater := ih (h.step e) (hu.step h e) fun o ho ↦ hdel o (List.mem_append_right _ ho)
    rw [seen, seen, run, List.countP_append, List.length_append]
    omega

end Fleet

end Switchyard
