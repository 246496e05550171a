import Switchyard.Proofs.Command.KeyText
import Switchyard.Proofs.Fleet.Budget

/-!
# How often a command is attempted

A client may attempt a command as often as the budget says, and once more for every push of its own
that was lost since the command was given. A lost push leaves the command new at the root although
the client has attempted it, and then the next pull takes it back to new at the client, which does
not count as a retry. So without lost pushes the budget is kept, and with them there is no bound.

That lost pushes are the only cause takes that no other command at the root is read from the wire as
the one that was given; in any case there are no more attempts than the budget and the setbacks
allow.

## Main definitions

* `Fleet.losses` : the pushes of a client that are lost.
* `Fleet.owed` : whether a client may be set back without another loss.
* `Fleet.attempts`, `Fleet.Undisturbed` : how often a command is attempted in a run, and the runs in
  which only the client decides about it.
* `Fleet.lossy` : runs with as many attempts as the bound allows.

## Main results

* `Fleet.setbacks_run_le` : setbacks are paid for by lost pushes.
* `Fleet.attempts_lossy` : with any number of lost pushes there is a run that attains the bound.
* `Fleet.attempts_bound` : the bound, and that it is attained.
-/

namespace Switchyard.Fleet

open Command (maxAttempts)

variable {ι ω : Type} {v w : Fleet ι ω} {i : ι} {k : Key}

/-! ### What is owed -/

/-- Whether a client may learn that a command is new: from the root by its next pull, or from an
answer that it has not merged yet. -/
def offersNew (v : Fleet ι ω) (i : ι) (k : Key) : Bool :=
  match v.phase i with
  | .idle => (v.root.ledger.get? k).any (·.status == .new)
  | .received cs => cs.any fun c ↦ c.key == k && c.status == .new
  | _ => false

/-- Whether a command waits at a client. -/
def waits (v : Fleet ι ω) (i : ι) (k : Key) : Bool :=
  ((v.client i).ledger.get? k).any (·.status.isPending)

/-- One if a command waits at a client that may learn that it is new, else none. -/
def owed (v : Fleet ι ω) (i : ι) (k : Key) : Nat := (v.waits i k && v.offersNew i k).toNat

theorem owed_le_one (v : Fleet ι ω) (i : ι) (k : Key) : v.owed i k ≤ 1 :=
  Bool.toNat_le _

theorem owed_le_of_imp
    (h : w.waits i k = true → w.offersNew i k = true →
      v.waits i k = true ∧ v.offersNew i k = true) : w.owed i k ≤ v.owed i k := by
  refine Bool.toNat_le_toNat fun hw ↦ ?_
  obtain ⟨hwaits, hoffers⟩ := Bool.and_eq_true_iff.1 hw
  exact Bool.and_eq_true_iff.2 (h hwaits hoffers)

/-- In its pass a client learns nothing. -/
theorem owed_of_todo? {ks : List Key} (h : (v.phase i).todo? = some ks) : v.owed i k = 0 := by
  have hnone : v.offersNew i k = false := by
    unfold offersNew
    cases hph : v.phase i with
    | idle => rw [hph] at h; cases h
    | received cs => rw [hph] at h; cases h
    | running ks => rfl
    | working given ks => rfl
  rw [owed, hnone, Bool.and_false, Bool.toNat_false]

/-- A state in which the client is the same and the root holds nothing new that it did not hold
owes no more. -/
theorem owed_le_of_root (hl : (w.client i).ledger = (v.client i).ledger)
    (hph : w.phase i = v.phase i)
    (hr : (w.root.ledger.get? k).any (·.status == .new) = true →
      (v.root.ledger.get? k).any (·.status == .new) = true) : w.owed i k ≤ v.owed i k := by
  refine owed_le_of_imp fun hwaits hoffers ↦ ⟨by rwa [waits, hl] at hwaits, ?_⟩
  unfold offersNew at hoffers ⊢
  rw [hph] at hoffers
  cases hv : v.phase i with
  | idle =>
    rw [hv] at hoffers
    exact hr hoffers
  | _ => rwa [hv] at hoffers

/-! ### One event -/

variable [DecidableEq ι] {p : ι → Protocol ω}

/-- The pushes of a client that are lost. -/
def losses (i : ι) : Event ι ω → Fleet ι ω → List (List Command)
  | .push j _ false, v =>
    match v.phase j with
    | .running [] => if j = i then [report (v.client i)] else []
    | _ => []
  | _, _ => []

/-- No other command at the root is read from the wire as one with the key. -/
def Alone (k : Key) (v : Fleet ι ω) : Prop :=
  ∀ c ∈ v.root.ledger.commands.values, c.carried.key = k → c.key = k

instance (k : Key) (v : Fleet ι ω) : Decidable (v.Alone k) :=
  inferInstanceAs (Decidable (∀ c ∈ v.root.ledger.commands.values, c.carried.key = k → c.key = k))

theorem setback_eq_nil {before after : Option Command}
    (h : ∀ c, after = some c → c.status = .new → before = some c) :
    Ledger.setback before after = [] := by
  cases after with
  | none => cases before <;> simp [Ledger.setback]
  | some c =>
    by_cases hnew : c.status = .new
    · rw [h c rfl hnew, Ledger.setback_self]
    · cases before <;> simp [Ledger.setback, hnew]

theorem of_setback_ne_nil {before after : Option Command}
    (h : Ledger.setback before after ≠ []) :
    before.any (·.status.isPending) = true ∧ ∃ c, after = some c ∧ c.status = .new := by
  cases before with
  | none => exact absurd rfl h
  | some b =>
    cases after with
    | none => exact absurd (by simp [Ledger.setback]) h
    | some c =>
      by_cases hwait : b.status.isPending = true
      · by_cases hnew : c.status = .new
        · exact ⟨hwait, c, rfl, hnew⟩
        · exact absurd (by simp [Ledger.setback, hnew]) h
      · exact absurd (by simp [Ledger.setback, hwait]) h

theorem length_setback_le_one (before after : Option Command) :
    (Ledger.setback before after).length ≤ 1 := by
  refine (List.length_filter_le ..).trans ?_
  cases before <;> simp

/-- Only merging the answer to a pull sets a client back, and only if the answer holds the command
as new. -/
theorem setbacks_cases (h : v.Orderly) (e : Event ι ω) :
    setbacks p i k e v = [] ∨
      e = .take i ∧ v.owed i k = 1 ∧ ∃ cs, v.phase i = .received cs := by
  cases moves_step p i e v with
  | rests hledger => exact Or.inl (by rw [setbacks, hledger, Ledger.setback_self])
  | handsOver _ _ _ hafter =>
    exact Or.inl (by rw [setbacks, hafter, client_withClient, Ledger.setback_self])
  | @merges cs he hph hafter =>
    by_cases hset : setbacks p i k e v = []
    · exact Or.inl hset
    · obtain ⟨hwaits, c, hc, hnew⟩ := of_setback_ne_nil hset
      rw [hafter, client_withClient] at hc
      refine Or.inr ⟨he, ?_, cs, hph⟩
      have hoffers : v.offersNew i k = true := by
        rcases Ledger.of_get?_mergePulled hc with hold | ⟨d, hd, hkey, hstatus⟩
        · rw [hold] at hwaits
          simp [hnew, Status.isPending] at hwaits
        · simp only [offersNew, hph, List.any_eq_true, Bool.and_eq_true, beq_iff_eq]
          exact ⟨d, hd, hkey, hstatus.symm.trans hnew⟩
      rw [owed, waits, hwaits, hoffers]
      rfl
  | @carriesOut now given ks he hph hafter =>
    have hg := h.handsOver hph
    refine Or.inl (setback_eq_nil fun c hc hnew ↦ ?_)
    rw [hafter, client_withClient] at hc
    cases ho : ((v.client i).carryOut (Client.dispatch now (p i)) given).1 with
    | none => rwa [Client.get?_carryOut_of_none ho] at hc
    | some o =>
      rw [Client.get?_carryOut hg ho] at hc
      split_ifs at hc with hdel hk
      · obtain ⟨before, -, -, hcomes⟩ := Client.comes_of_carryOut hg ho
        exact absurd (Option.some.inj hc ▸ hnew) hcomes.status_ne_new
      · exact hc

/-- The root holds a command as new after a push only if it did before. -/
theorem new_of_push (h : v.Orderly) (j : ι) (now : Time.Instant) (arrives : Bool)
    (hnew : ((v.push j now arrives).root.ledger.get? k).any (·.status == .new) = true) :
    (v.root.ledger.get? k).any (·.status == .new) = true := by
  by_cases hph : v.phase j = .running []
  · rw [h.push_eq hph] at hnew
    cases arrives with
    | false => exact hnew
    | true =>
      obtain ⟨c, hc, hstatus⟩ := (Option.any_eq_true ..).1 hnew
      rcases Ledger.of_get?_mergePushed hc with hold | ⟨d, hd, -, flags, rfl⟩
      · rw [hold]
        exact hstatus
      · have hd' : d.status = .new := by simpa [Command.stamped] using hstatus
        exact absurd hd' (h.status_ne_new_of_mem_report hph hd)
  · rwa [push_of_ne hph] at hnew

omit [DecidableEq ι] in
/-- What waits at a client that pushes is in its report. -/
theorem exists_mem_report (h : v.Orderly) (hph : v.phase i = .running [])
    (hwaits : v.waits i k = true) : ∃ d ∈ report (v.client i), d.key = k := by
  obtain ⟨c, hc, hwait⟩ := (Option.any_eq_true ..).1 hwaits
  have hkey : c.key = k := (h.client i).keyed k c hc
  obtain ⟨pulled, hpulled⟩ := (h.client i).carried k c hc
  have hrun := Status.isRunnable_of_isPending hwait
  have hverb : pulled.carried.verb ∈ Handler.deviceVerbs := by
    have htext : pulled.carried.text = c.text := congrArg Key.text (hpulled.trans hkey.symm)
    rw [Command.verb_congr htext]
    rcases (h.client i).waiting k c hc hrun [] (by rw [hph]; rfl) with hmem | ⟨-, hverb⟩
    · cases hmem
    · exact hverb
  obtain ⟨sent, -, hwire, hsent⟩ :=
    CommandTable.exists_mem_decode_encode (Ledger.mem_values_iff.2 ⟨k, hc⟩)
  refine ⟨sent.carried, hsent, ?_⟩
  rw [Command.key_carried_of_wire_eq hverb (by rw [hwire, hkey, hpulled]), hpulled]

/-- After a push that arrives the root does not hold as new what waits at the client. -/
theorem not_new_of_push (h : v.Orderly) (hph : v.phase i = .running [])
    (hwaits : v.waits i k = true) (now : Time.Instant) :
    ((v.push i now true).root.ledger.get? k).any (·.status == .new) = false := by
  obtain ⟨d, hd, rfl⟩ := exists_mem_report h hph hwaits
  rw [h.push_eq hph, if_pos rfl]
  simp only [Root.ledger_acceptPush]
  cases hc : (v.root.ledger.mergePushed now (report (v.client i))).2.get? d.key with
  | none => rfl
  | some c =>
    have hne : c.status ≠ .new := Ledger.status_ne_new_of_mem_mergePushed
      (fun _ ↦ h.status_ne_new_of_mem_report hph) hd hc
    simpa using hne

/-- A pull offers a client as new only what the root holds as new under the key. -/
theorem owed_pull_le (h : v.Orderly) (halone : v.Alone k) (arrives : Bool) :
    (v.pull i arrives).owed i k ≤ v.owed i k := by
  refine owed_le_of_imp fun hwaits hoffers ↦ ⟨by rwa [waits, client_pull] at hwaits, ?_⟩
  unfold pull at hoffers
  split at hoffers
  next _ _ hph =>
    simp only [offersNew, phase_withClient, List.any_eq_true, Bool.and_eq_true,
      beq_iff_eq] at hoffers
    obtain ⟨c, hc, hkey, hnew⟩ := hoffers
    obtain ⟨k', sent, hget, -, rfl⟩ := exists_of_mem_answerTo hc
    have hk' : k' = k := (h.root k' sent hget).symm.trans
      (halone sent (Ledger.mem_values_iff.2 ⟨k', hget⟩) hkey)
    rw [Command.carried_status, Status.parse_text_eq_new_iff] at hnew
    subst hk'
    simp [offersNew, hph, hget, hnew]
  next => exact hoffers

theorem owed_take_le : (v.take i).owed i k ≤ v.owed i k := by
  by_cases hph : ∃ cs, v.phase i = .received cs
  · obtain ⟨cs, hph⟩ := hph
    rw [take_of_received hph, owed_of_todo? (by rw [phase_withClient]; rfl)]
    exact Nat.zero_le _
  · rw [take_of_ne (not_exists.1 hph)]

/-- As long as budgets are not used up no turn ends a pass. -/
theorem owed_turn_le (hu : v.Unspent) : (v.turn i).owed i k ≤ v.owed i k := by
  by_cases hph : ∃ k' ks, v.phase i = .running (k' :: ks)
  · obtain ⟨k', ks, hph⟩ := hph
    obtain ⟨left, hleft⟩ : ∃ left,
        (Phase.after ks ((v.client i).beginning k')).todo? = some left := by
      cases hbegin : (v.client i).beginning k' with
      | skip => exact ⟨_, rfl⟩
      | overflow => exact absurd hbegin (Node.beginning_ne_overflow (hu.hasRoom i) k')
      | handOver given => exact ⟨_, rfl⟩
    rw [turn_of_running hph, owed_of_todo? ((congrArg _ (phase_withClient ..)).trans hleft)]
    exact Nat.zero_le _
  · rw [turn_of_ne fun k' ks heq ↦ hph ⟨k', ks, heq⟩]

/-- As long as budgets are not used up no outcome ends a pass. -/
theorem owed_carryOut_le (h : v.Orderly) (hu : v.Unspent) (now : Time.Instant) :
    (v.carryOut p i now).owed i k ≤ v.owed i k := by
  by_cases hph : ∃ given ks, v.phase i = .working given ks
  · obtain ⟨given, ks, hph⟩ := hph
    obtain ⟨o, ho⟩ := hu.exists_outcome (h.handsOver hph) now (p i)
    rw [carryOut_of_working hph, ho, owed_of_todo? (by rw [phase_withClient]; rfl)]
    exact Nat.zero_le _
  · rw [carryOut_of_ne fun given ks heq ↦ hph ⟨given, ks, heq⟩]

/-- A push that arrives leaves nothing owed to its client, and only a lost one makes more owed. -/
theorem owed_push_le (h : v.Orderly) (now : Time.Instant) (arrives : Bool) :
    (v.push i now arrives).owed i k ≤ v.owed i k + (losses i (.push i now arrives) v).length := by
  by_cases hph : v.phase i = .running []
  · cases arrives with
    | false =>
      have hloss : losses i (.push i now false) v = [report (v.client i)] := by
        simp [losses, hph]
      rw [hloss]
      exact (owed_le_one ..).trans (Nat.le_add_left ..)
    | true =>
      refine Nat.le_add_right_of_le (owed_le_of_imp fun hwaits hoffers ↦ ?_)
      rw [waits, client_push] at hwaits
      rw [offersNew, phase_push hph, not_new_of_push h hph hwaits] at hoffers
      cases hoffers
  · rw [push_of_ne hph]
    exact Nat.le_add_right ..

/-- An event in which no operator touches the key makes nothing new at the root. -/
theorem new_of_step (h : v.Orderly) {e : Event ι ω} (hk : k ∉ written e v)
    (hnew : ((v.step p e).root.ledger.get? k).any (·.status == .new) = true) :
    (v.root.ledger.get? k).any (·.status == .new) = true := by
  by_cases he : ∃ j now arrives, e = .push j now arrives
  · obtain ⟨j, now, arrives, rfl⟩ := he
    exact new_of_push h j now arrives hnew
  · rwa [root_get?_step_of_not_mem (fun j now arrives heq ↦ he ⟨j, now, arrives, heq⟩) hk] at hnew

theorem owed_step_le (h : v.Orderly) (hu : v.Unspent) {e : Event ι ω} (hk : k ∉ written e v)
    (halone : v.Alone k) :
    (v.step p e).owed i k ≤ v.owed i k + (losses i e v).length := by
  by_cases hactor : e.actor? = some i
  swap
  · obtain ⟨hclient, hphase⟩ := step_of_actor?_ne (p := p) (v := v) hactor
    exact Nat.le_add_right_of_le
      (owed_le_of_root (congrArg Node.ledger hclient) hphase (new_of_step h hk))
  cases e with
  | submit now c => cases hactor
  | delete k' => cases hactor
  | refit inventory archive roster => cases hactor
  | rearrange j inventory bench =>
    obtain rfl := Option.some.inj hactor
    exact Nat.le_add_right_of_le
      (owed_le_of_root (ledger_rearrange ..) (phase_rearrange ..) (new_of_step (p := p) h hk))
  | pull j arrives =>
    obtain rfl := Option.some.inj hactor
    exact Nat.le_add_right_of_le (owed_pull_le h halone arrives)
  | take j =>
    obtain rfl := Option.some.inj hactor
    exact Nat.le_add_right_of_le owed_take_le
  | turn j =>
    obtain rfl := Option.some.inj hactor
    exact Nat.le_add_right_of_le (owed_turn_le hu)
  | carryOut j now =>
    obtain rfl := Option.some.inj hactor
    exact Nat.le_add_right_of_le (owed_carryOut_le h hu now)
  | push j now arrives =>
    obtain rfl := Option.some.inj hactor
    exact owed_push_le h now arrives

/-- A setback is paid for by what is owed, and only a lost push makes more owed. -/
theorem setbacks_step_le (h : v.Orderly) (hu : v.Unspent) {e : Event ι ω}
    (hk : k ∉ written e v) (halone : v.Alone k) :
    (setbacks p i k e v).length + (v.step p e).owed i k ≤ v.owed i k + (losses i e v).length := by
  rcases setbacks_cases (p := p) (k := k) (i := i) h e with hnone | ⟨rfl, howed, cs, hph⟩
  · rw [hnone, List.length_nil, Nat.zero_add]
    exact owed_step_le h hu hk halone
  · have hrunning : ((v.step p (.take i)).phase i).todo? =
        some ((v.client i).take cs).2.ledger.runnableKeys := by
      simp only [step, take, hph, phase_withClient]
      rfl
    have hafter := owed_of_todo? (k := k) hrunning
    have hone := length_setback_le_one ((v.client i).ledger.get? k)
      (((v.step p (.take i)).client i).ledger.get? k)
    rw [hafter, howed, setbacks]
    omega

/-! ### Runs -/

/-- The setbacks of a run are paid for by what is owed when it begins and by the lost pushes. -/
theorem setbacks_run_le (h : v.Orderly) (hu : v.Unspent) {es : List (Event ι ω)}
    (hk : k ∉ seen p written es v) (halone : ∀ u ∈ seen p (fun _ u ↦ [u]) es v, u.Alone k) :
    (seen p (setbacks p i k) es v).length + (run p es v).owed i k ≤
      v.owed i k + (seen p (losses i) es v).length := by
  induction es generalizing v with
  | nil => simp [seen, run]
  | cons e es ih =>
    obtain ⟨hnow, hlater⟩ : k ∉ written e v ∧ k ∉ seen p written es (v.step p e) := by
      simpa [seen] using hk
    have hfirst := setbacks_step_le (p := p) (i := i) h hu hnow
      (halone v (List.mem_append_left _ (by simp)))
    have hrest := ih (h.step e) (hu.step h e) hlater fun u hu ↦ halone u (List.mem_append_right _ hu)
    rw [seen, seen, run, List.length_append, List.length_append]
    omega

omit [DecidableEq ι] in
/-- A client that is owed something has made an attempt. -/
theorem attemptsLeft_add_owed_le (v : Fleet ι ω) (i : ι) (k : Key) :
    Ledger.attemptsLeft ((v.client i).ledger.get? k) + v.owed i k ≤ maxAttempts.toNat := by
  cases hwaits : v.waits i k with
  | false =>
    rw [owed, hwaits]
    exact Ledger.attemptsLeft_le _
  | true =>
    obtain ⟨c, hc, hwait⟩ := (Option.any_eq_true ..).1 hwaits
    have hone := v.owed_le_one i k
    have hfour : maxAttempts.toNat = 4 := rfl
    rw [hc, Ledger.attemptsLeft_of_isPending hwait]
    omega

/-! ### The bound -/

/-- How often a client begins to attempt a command in a run. -/
def attempts (p : ι → Protocol ω) (i : ι) (k : Key) (es : List (Event ι ω)) (v : Fleet ι ω) : Nat :=
  (seen p (begun i) es v).countP (·.key = k)

/-- In a run no operator touches a command, and no other command deletes it at a client. -/
def Undisturbed (p : ι → Protocol ω) (i : ι) (k : Key) (es : List (Event ι ω)) (v : Fleet ι ω) :
    Prop :=
  k ∉ seen p written es v ∧ ∀ o ∈ seen p (outcomes p i) es v, o.deletes? ≠ some k

/-- The client holds a command as done. -/
def Done (i : ι) (k : Key) (v : Fleet ι ω) : Prop :=
  ∃ c, (v.client i).ledger.get? k = some c ∧ c.status.isTerminal = true

omit [DecidableEq ι] in
/-- A client with no attempts left has done the command. -/
theorem Unspent.done (h : v.Unspent)
    (hleft : Ledger.attemptsLeft ((v.client i).ledger.get? k) = 0) : v.Done i k :=
  Ledger.isTerminal_of_attemptsLeft_eq_zero hleft fun c hc ↦ h.client i k c hc

/-! ### As many attempts as the bound allows -/

/-- The one client is asked for a command whose device it does not know. -/
def asked : Fleet Unit Unit := single.step quiet (given "beep 1 2")

/-- It has attempted the command, and the push was lost. -/
def stuck : Fleet Unit Unit := run quiet (round false) asked

/-- The key of the command. -/
def beep : Key := ⟨none, "beep 1 2"⟩

/-- Some cycles of the one client whose pushes are lost, and then as many whose pushes arrive as the
budget allows. -/
def lossy (n : Nat) : List (Event Unit Unit) :=
  (List.replicate n (round false)).flatten ++
    (List.replicate maxAttempts.toNat (round true)).flatten

theorem lossy_succ (n : Nat) : lossy (n + 1) = round false ++ lossy n := by
  simp only [lossy, List.replicate_succ, List.flatten_cons, List.append_assoc]

/-- A cycle whose push is lost leaves the fleet where it was. -/
theorem run_lost : run quiet (round false) stuck = stuck := rfl

section

variable {α : Type} (look : Event Unit Unit → Fleet Unit Unit → List α)

/-- What is noted of lost cycles is the same each time. -/
theorem seen_lossy (n : Nat) :
    seen quiet look (lossy n) stuck =
      (List.replicate n (seen quiet look (round false) stuck)).flatten ++
        seen quiet look (lossy 0) stuck := by
  induction n with
  | zero => rfl
  | succ n ih =>
    rw [lossy_succ, seen_append, run_lost, ih, List.replicate_succ, List.flatten_cons,
      List.append_assoc]

theorem seen_lossy_asked (n : Nat) :
    seen quiet look (lossy (n + 1)) asked = seen quiet look (round false) asked ++
      ((List.replicate n (seen quiet look (round false) stuck)).flatten ++
        seen quiet look (lossy 0) stuck) := by
  rw [lossy_succ, seen_append, ← seen_lossy]
  rfl

/-- What holds of all that is noted in the first cycles holds of all that is noted. -/
theorem forall_seen_lossy {P : α → Prop} (hnone : ∀ x ∈ seen quiet look (lossy 0) asked, P x)
    (hfirst : ∀ x ∈ seen quiet look (round false) asked, P x)
    (hlost : ∀ x ∈ seen quiet look (round false) stuck, P x)
    (hlast : ∀ x ∈ seen quiet look (lossy 0) stuck, P x) (n : Nat) :
    ∀ x ∈ seen quiet look (lossy n) asked, P x := by
  cases n with
  | zero => exact hnone
  | succ n =>
    intro x hx
    rw [seen_lossy_asked, List.mem_append, List.mem_append, List.mem_flatten] at hx
    rcases hx with hx | ⟨l, hl, hx⟩ | hx
    · exact hfirst x hx
    · obtain rfl := List.eq_of_mem_replicate hl
      exact hlost x hx
    · exact hlast x hx

theorem countP_seen_lossy (f : α → Bool) (n : Nat) :
    (seen quiet look (lossy (n + 1)) asked).countP f =
      (seen quiet look (round false) asked).countP f +
        (n * (seen quiet look (round false) stuck).countP f +
          (seen quiet look (lossy 0) stuck).countP f) := by
  rw [seen_lossy_asked, List.countP_append, List.countP_append, List.countP_flatten,
    List.map_replicate, List.sum_replicate_nat]

end

theorem undisturbed_lossy (n : Nat) : Undisturbed quiet () beep (lossy n) asked := by
  have hwritten := forall_seen_lossy written (P := (· ≠ beep)) (by decide +kernel)
    (by decide +kernel) (by decide +kernel) (by decide +kernel) n
  refine ⟨fun hmem ↦ hwritten beep hmem rfl, ?_⟩
  exact forall_seen_lossy (outcomes quiet ()) (by decide +kernel) (by decide +kernel)
    (by decide +kernel) (by decide +kernel) n

theorem alone_lossy (n : Nat) : ∀ u ∈ seen quiet (fun _ u ↦ [u]) (lossy n) asked, u.Alone beep :=
  forall_seen_lossy _ (by decide +kernel) (by decide +kernel) (by decide +kernel)
    (by decide +kernel) n

theorem length_losses_lossy (n : Nat) :
    (seen quiet (losses ()) (lossy n) asked).length = n := by
  cases n with
  | zero => decide +kernel
  | succ n =>
    have hfirst : (seen quiet (losses ()) (round false) asked).length = 1 := by decide +kernel
    have hlost : (seen quiet (losses ()) (round false) stuck).length = 1 := by decide +kernel
    have hlast : (seen quiet (losses ()) (lossy 0) stuck).length = 0 := by decide +kernel
    have hcount := countP_seen_lossy (losses ()) (fun _ ↦ true) n
    simp only [List.countP_true, hfirst, hlost, hlast] at hcount
    omega

/-- With any number of lost pushes there is a run with as many attempts as the bound allows. -/
theorem attempts_lossy (n : Nat) :
    attempts quiet () beep (lossy n) asked = maxAttempts.toNat + n := by
  cases n with
  | zero => decide +kernel
  | succ n =>
    have hfirst : attempts quiet () beep (round false) asked = 1 := by decide +kernel
    have hlost : attempts quiet () beep (round false) stuck = 1 := by decide +kernel
    have hlast : attempts quiet () beep (lossy 0) stuck = maxAttempts.toNat := by decide +kernel
    have hcount := countP_seen_lossy (begun ()) (·.key = beep) n
    simp only [← attempts.eq_def, hfirst, hlost, hlast] at hcount
    omega

/-- In every run from a fresh fleet whose root holds only commands with attempts left, if any, a
client attempts a command, while no operator touches it and no other command deletes it there, at
most as often as the budget says and once more for every setback. As long as no other command at the
root is read from the wire as this one, that is once more for every lost push. A client that has
begun as many attempts has done the command, unless it still works on it. The bound is attained for
every number of lost pushes. -/
theorem attempts_bound (h : v.Fresh)
    (hroot : ∀ k c, v.root.ledger.get? k = some c → c.Unspent) (es fs : List (Event ι ω)) (i : ι)
    (k : Key) :
    let w := run p es v
    (Undisturbed p i k fs w →
      (attempts p i k fs w ≤ maxAttempts.toNat + (seen p (setbacks p i k) fs w).length ∧
        (attempts p i k fs w = maxAttempts.toNat + (seen p (setbacks p i k) fs w).length →
          (run p fs w).engaged i k = 0 → (run p fs w).Done i k)) ∧
      ((∀ u ∈ seen p (fun _ u ↦ [u]) fs w, u.Alone k) →
        attempts p i k fs w ≤ maxAttempts.toNat + (seen p (losses i) fs w).length ∧
        (attempts p i k fs w = maxAttempts.toNat + (seen p (losses i) fs w).length →
          (run p fs w).engaged i k = 0 → (run p fs w).Done i k))) ∧
    ∀ n, Undisturbed quiet () beep (lossy n) asked ∧
      (∀ u ∈ seen quiet (fun _ u ↦ [u]) (lossy n) asked, u.Alone beep) ∧
      (seen quiet (losses ()) (lossy n) asked).length = n ∧
      attempts quiet () beep (lossy n) asked = maxAttempts.toNat + n := by
  intro w
  have hw : w.Orderly := h.orderly.run es
  have hu : w.Unspent := (h.unspent hroot).run h.orderly es
  have hend : (run p fs w).Unspent := hu.run hw fs
  refine ⟨fun hfs ↦ ?_, fun n ↦
    ⟨undisturbed_lossy n, alone_lossy n, length_losses_lossy n, attempts_lossy n⟩⟩
  have hspent := attempts_run_le hw hu hfs.2
  have hleft := Ledger.attemptsLeft_le ((w.client i).ledger.get? k)
  have hworks := engaged_le_attemptsLeft (hw.run (p := p) fs).steady hend i k
  rw [← attempts] at hspent
  refine ⟨⟨by omega, fun heq hrests ↦ hend.done (by omega)⟩, fun halone ↦ ?_⟩
  have hpaid := setbacks_run_le (i := i) hw hu hfs.1 halone
  have howed := attemptsLeft_add_owed_le w i k
  exact ⟨by omega, fun heq hrests ↦ hend.done (by omega)⟩

/-- A command whose device is not known is attempted four times and is done then, if no push is
lost. With one push lost it is attempted five times. -/
theorem attempts_bound_of_beep :
    (attempts quiet () beep (lossy 0) asked = 4 ∧ (run quiet (lossy 0) asked).Done () beep) ∧
      attempts quiet () beep (lossy 1) asked = 5 := by
  have hfresh : single.Fresh := fresh_start ..
  have hroot (k : Key) (c : Command) (hc : single.root.ledger.get? k = some c) : c.Unspent := by
    rw [Ledger.get?_of_empty rfl] at hc
    cases hc
  obtain ⟨hle, hattained⟩ := attempts_bound (p := quiet) hfresh hroot [given "beep 1 2"] (lossy 0)
    () beep
  have hfour : attempts quiet () beep (lossy 0) asked = 4 := (hattained 0).2.2.2
  have hlosses : (seen quiet (losses ()) (lossy 0) asked).length = 0 := (hattained 0).2.2.1
  obtain ⟨-, hdone⟩ := (hle (undisturbed_lossy 0)).2 (alone_lossy 0)
  refine ⟨⟨hfour, hdone ?_ (by decide +kernel)⟩, (hattained 1).2.2.2⟩
  exact hfour.trans (congrArg (maxAttempts.toNat + ·) hlosses).symm

end Switchyard.Fleet
