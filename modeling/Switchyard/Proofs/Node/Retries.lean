import Switchyard.Proofs.Node.Counter

/-!
# How often a waiting command is attempted

At a client, pulls and passes follow one another. A pull keeps the larger counter of retries. An
attempt of a command that waits counts on, and if the answer waits again with three retries, the
command is cancelled. So three attempts of a waiting command bring it to an end, whatever the pulls
bring in between. Only answers that take the command back to new escape this: nothing is cancelled
by them, and a pull may let the command wait again.

The counter has 32 bits, and a pass is ended by what cannot be counted. All this needs room in the
counters. There is room at all times if there is room at first and in what is pulled, and no answer
takes a command back to new.

## Main definitions

* `Dispatch.Discreet`, `Node.Deed.IsRoutine` : handlers that leave the counter and the ledger alone,
  and the deeds of a client with such handlers.
* `Node.handedBy` : what is handed over in some deeds.
* `Handover.isRetry` : an attempt of a waiting command that is not taken back to new.
* `Handover.Tallies`, `Handover.Fares` : what one attempt leaves, and what deeds leave.

## Main results

* `Node.fares_apply`, `Node.fares_after` : retries are paid for by what is left of them.
* `Node.retries_of_deeds` : the counter of a client in any pulls and passes.
-/

namespace Switchyard

variable {ε : Type}

/-! ### What one attempt leaves -/

namespace Handover

/-- An attempt of a waiting command that is not taken back to new. -/
def isRetry (h : Handover) : Bool := h.given.status.isPending && h.answer.status != .new

/-- The counter and the status after an attempt of a command that came to an outcome. -/
structure Tallies (c : Command) (h : Handover) (o : Command) : Prop where
  given : h.given.status = c.status
  retries : o.retries.toNat =
    if c.status.isPending then c.retries.toNat + 1 else c.retries.toNat
  waits : o.status.isPending = true → o.retries.toNat ≤ 2
  cancelled : h.answer.status.isPending = true → 3 ≤ h.answer.retries.toNat →
    o = h.answer.finish (.cancelled (h.answer.missingDevice h.inventory))

variable {c o : Command} {h : Handover}

theorem status_outcome_eq_new_iff (ho : h.outcome = some o) :
    o.status = .new ↔ h.answer.status = .new := by
  rcases Command.of_settled ho with ⟨rfl, -⟩ | ⟨rfl, hwait, -⟩
  · rfl
  · exact iff_of_false Status.noConfusion fun hnew ↦ by simp [hnew, Status.isPending] at hwait

/-- With room in the counter an attempt comes to an outcome. -/
theorem Counts.exists_tallies (hh : h.Counts c) (hroom : c.HasRoom)
    (hrun : c.status.isRunnable = true) : ∃ o, h.outcome = some o ∧ h.Tallies c o := by
  have hlt := hroom.tries_lt hrun
  obtain ⟨o, ho⟩ := Option.ne_none_iff_exists'.1 (mt hh.outcome_eq_none_iff.1 fun hlast ↦ by omega)
  refine ⟨o, ho, hh.status, ?_, fun hwait ↦ ?_, fun hwait hthree ↦ ?_⟩
  · rw [Command.retries_of_settled ho, hh.toNat_answer, Command.tries]
  · rcases Command.of_settled ho with ⟨rfl, hfew⟩ | ⟨rfl, -⟩
    · exact Nat.le_of_lt_succ (hfew hwait)
    · cases hwait
  · rcases Command.of_settled ho with ⟨-, hfew⟩ | ⟨rfl, -⟩
    · exact absurd hthree (Nat.not_le_of_lt (hfew hwait))
    · rfl

end Handover

/-! ### What is left of the retries -/

namespace Ledger

/-- The retries left of what stands under a key. -/
def retriesLeft : Option Command → Nat
  | none => 3
  | some c => if c.status.isTerminal then 0 else max 1 (3 - c.retries.toNat)

theorem retriesLeft_le (stood : Option Command) : retriesLeft stood ≤ 3 := by
  cases stood with
  | none => exact le_rfl
  | some c =>
    simp only [retriesLeft]
    split <;> omega

/-- Counting on leaves no more retries. -/
theorem retriesLeft_le_of_le {c c' : Command} (hle : c.retries.toNat ≤ c'.retries.toNat)
    (hdone : c.status.isTerminal = true → c' = c) :
    retriesLeft (some c') ≤ retriesLeft (some c) := by
  cases hc : c.status.isTerminal with
  | true => rw [hdone hc]
  | false =>
    simp only [retriesLeft, hc, Bool.false_eq_true, if_false]
    split <;> omega

end Ledger

namespace Handover

variable {c o : Command} {h : Handover}

/-- A retry costs one of those left. -/
theorem Tallies.retriesLeft_le (ht : h.Tallies c o) (ho : h.outcome = some o)
    (hrun : c.status.isRunnable = true) :
    h.isRetry.toNat + Ledger.retriesLeft (some o) ≤ Ledger.retriesLeft (some c) := by
  have hretries := ht.retries
  have hterm := Status.isRunnable_iff.1 hrun
  cases hretry : h.isRetry with
  | false =>
    have hle : c.retries.toNat ≤ o.retries.toNat := by
      rw [hretries]
      split <;> omega
    rw [Bool.toNat_false, Nat.zero_add]
    exact Ledger.retriesLeft_le_of_le hle fun hdone ↦ by rw [hterm] at hdone; cases hdone
  | true =>
    rw [isRetry, ht.given, Bool.and_eq_true, bne_iff_ne, ne_eq,
      ← status_outcome_eq_new_iff ho] at hretry
    obtain ⟨hwait, hnew⟩ := hretry
    rw [if_pos hwait] at hretries
    simp only [Ledger.retriesLeft, hterm, Bool.false_eq_true, if_false, Bool.toNat_true]
    cases hdone : o.status.isTerminal with
    | true =>
      simp only [if_true]
      omega
    | false =>
      have hagain : o.status.isPending = true := by
        by_contra hnot
        exact hnew ((Status.eq_new_iff _).2 ⟨hdone, Bool.eq_false_iff.2 hnot⟩)
      have htwo := ht.waits hagain
      simp only [Bool.false_eq_true, if_false]
      omega

/-- How a key fares while commands are handed over, from what stood under it before to what stands
under it after: the counter never goes back, what is done stays and is not attempted, and retries
are paid for by those left. -/
structure Fares (k : Key) (before after : Option Command) (hs : List Handover) : Prop where
  retries : ∀ c, before = some c → ∃ c', after = some c' ∧ c.retries.toNat ≤ c'.retries.toNat
  done : ∀ c, before = some c → c.status.isTerminal = true →
    after = some c ∧ ∀ h ∈ hs, h.given.key ≠ k
  paid : hs.countP (fun h ↦ h.isRetry && h.given.key = k) + Ledger.retriesLeft after ≤
    Ledger.retriesLeft before

variable {k : Key} {before between after : Option Command} {hs hs' : List Handover}

theorem Fares.refl (k : Key) (stood : Option Command) : Fares k stood stood [] :=
  ⟨fun c hc ↦ ⟨c, hc, le_rfl⟩, fun _ hc _ ↦ ⟨hc, fun _ hh ↦ absurd hh List.not_mem_nil⟩,
    (Nat.zero_add _).le⟩

theorem Fares.trans (h : Fares k before between hs) (h' : Fares k between after hs') :
    Fares k before after (hs ++ hs') := by
  refine ⟨fun c hc ↦ ?_, fun c hc hdone ↦ ?_, ?_⟩
  · obtain ⟨d, hd, hle⟩ := h.retries c hc
    obtain ⟨e, he, hle'⟩ := h'.retries d hd
    exact ⟨e, he, hle.trans hle'⟩
  · obtain ⟨hbetween, hnot⟩ := h.done c hc hdone
    obtain ⟨hafter, hnot'⟩ := h'.done c hbetween hdone
    refine ⟨hafter, fun g hg ↦ ?_⟩
    rcases List.mem_append.1 hg with hg | hg
    · exact hnot g hg
    · exact hnot' g hg
  · have hpaid := h.paid
    have hpaid' := h'.paid
    rw [List.countP_append]
    omega

end Handover

/-! ### Routine deeds -/

/-- The handlers of a dispatch leave the ledger and the counter of a command alone. -/
structure Dispatch.Discreet (d : Dispatch ε) : Prop where
  leaves : d.LeavesLedger
  keeps : d.KeepsRetries

namespace Node

namespace Deed

/-- A pull of commands that have room in their counters, a pass with discreet handlers, or a change
of the surroundings. -/
def IsRoutine : Deed ε → Prop
  | .operation (.mergePulled cs) => ∀ c ∈ cs, c.HasRoom
  | .operation _ => False
  | .pass w => w.dispatch.Discreet
  | .rearrange _ _ => True

/-- What is handed over in a deed. -/
def handed : Deed ε → Node ε → List Handover
  | .pass w, n => n.handed w.dispatch n.ledger.runnableKeys
  | _, _ => []

end Deed

/-- What is handed over in some deeds. -/
def handedBy : List (Deed ε) → Node ε → List Handover
  | [], _ => []
  | d :: ds, n => d.handed n ++ handedBy ds (d.apply n)

variable {n : Node ε} {d : Deed ε} {ds : List (Deed ε)} {w : Crew ε}

/-- With room in the counters nothing ends a pass with discreet handlers. -/
theorem fst_runPending_ne_none (hn : n.ledger.Keyed) (hroom : n.ledger.HasRoom)
    (hd : w.dispatch.Discreet) : (n.runPending w.dispatch).1 ≠ none := by
  intro hended
  obtain ⟨before, k, after, hkeys, -, hends⟩ := fst_attemptAll_eq_none_iff.1 hended
  have hnodup := n.ledger.nodup_runnableKeys
  rw [hkeys] at hnodup
  have hk : k ∉ before := fun hk ↦
    (List.nodup_cons.1 (List.nodup_middle.1 hnodup)).1 (List.mem_append_left after hk)
  obtain ⟨c, hc, hrun⟩ : ∃ c, n.ledger.get? k = some c ∧ c.status.isRunnable = true :=
    Ledger.mem_runnableKeys_iff.1 (hkeys ▸ List.mem_append_right before List.mem_cons_self)
  have hstood := (get?_attemptAll_of_notMem hd.leaves hn hk).trans hc
  have hlt := (hroom k c hc).tries_lt hrun
  have hle := c.retries_le_tries
  rcases hends with ⟨c', hc', -, hlast⟩ | ⟨h, hh, -, hlast⟩
  · obtain rfl := Option.some.inj (hc'.symm.trans hstood)
    omega
  · rw [(counts_of_handover? hd.keeps hstood hh).toNat_answer] at hlast
    omega

/-- With room in the counters, a pass with discreet handlers hands a key over once if its command is
to be run, which counts, and keeps the outcome. Else it leaves the key alone. -/
theorem pass_cases (hn : n.ledger.Keyed) (hroom : n.ledger.HasRoom) (hd : w.dispatch.Discreet)
    (k : Key) :
    let handed := n.handed w.dispatch n.ledger.runnableKeys
    let passed := (n.runPending w.dispatch).2
    (∃ c h o, n.ledger.get? k = some c ∧ c.status.isRunnable = true ∧
      handed.filter (·.given.key = k) = [h] ∧ h.outcome = some o ∧ h.Tallies c o ∧
      passed.ledger.get? k = some o) ∨
    handed.filter (·.given.key = k) = [] ∧ passed.ledger.get? k = n.ledger.get? k ∧
      ∀ c, n.ledger.get? k = some c → c.status.isTerminal = true := by
  intro handed passed
  by_cases hk : k ∈ n.ledger.runnableKeys
  · left
    obtain ⟨c, hc, hrun⟩ := Ledger.mem_runnableKeys_iff.1 hk
    have hkeys := n.ledger.nodup_runnableKeys
    obtain ⟨h, hmem, o, hgiven, ho, -, hstands⟩ := exists_mem_handed hd.leaves hn hkeys hk
      (fst_runPending_ne_none hn hroom hd) hc hrun
    obtain ⟨m, hanswer, -⟩ := exists_answer_of_mem_handed hmem
    have hkey : h.given.key = k := (Command.key_attempted hgiven).trans (hn k c hc)
    have hcounts : h.Counts c :=
      ⟨Command.status_attempted hgiven, (Command.attempted_eq_some_iff.1 hgiven).1,
        by rw [hanswer]; exact hd.keeps _ _⟩
    obtain ⟨o', ho', htallies⟩ := hcounts.exists_tallies (hroom k c hc) hrun
    obtain rfl := Option.some.inj (ho'.symm.trans ho)
    exact ⟨c, h, o', hc, hrun, hkey ▸ filter_handed_of_mem hn w hkeys hmem, ho, htallies, hstands⟩
  · right
    refine ⟨filter_handed_of_notMem hn w hk, get?_attemptAll_of_notMem hd.leaves hn hk,
      fun c hc ↦ ?_⟩
    by_contra hrun
    exact hk (Ledger.mem_runnableKeys_iff.2
      ⟨c, hc, Status.isRunnable_iff.2 (Bool.eq_false_iff.2 hrun)⟩)

theorem countP_retries (hs : List Handover) (k : Key) :
    hs.countP (fun h ↦ h.isRetry && h.given.key = k) =
      (hs.filter (·.given.key = k)).countP (·.isRetry) :=
  (List.countP_filter ..).symm

/-- How a key fares in a pass. -/
theorem fares_pass (hn : n.ledger.Keyed) (hroom : n.ledger.HasRoom) (hd : w.dispatch.Discreet)
    (k : Key) : Handover.Fares k (n.ledger.get? k) ((n.runPending w.dispatch).2.ledger.get? k)
      (n.handed w.dispatch n.ledger.runnableKeys) := by
  rcases pass_cases hn hroom hd k with
    ⟨c, h, o, hc, hrun, hone, ho, htallies, hstands⟩ | ⟨hnone, hsame, hdone⟩
  · rw [hc, hstands]
    refine ⟨fun d hd ↦ ⟨_, rfl, ?_⟩, fun d hd hdone ↦ ?_, ?_⟩
    · obtain rfl := Option.some.inj hd
      rw [htallies.retries]
      split <;> omega
    · obtain rfl := Option.some.inj hd
      exact absurd hrun (Status.not_isRunnable_of_isTerminal hdone)
    · rw [countP_retries, hone, List.countP_singleton]
      have hpaid := htallies.retriesLeft_le ho hrun
      cases hretry : h.isRetry <;> simpa [hretry] using hpaid
  · rw [hsame]
    refine ⟨fun c hc ↦ ⟨c, hc, le_rfl⟩, fun c hc _ ↦ ⟨hc, fun h hh hkey ↦ ?_⟩, ?_⟩
    · exact List.filter_eq_nil_iff.1 hnone h hh (decide_eq_true hkey)
    · rw [countP_retries, hnone, List.countP_nil, Nat.zero_add]

/-- How a key fares in a pull. -/
theorem fares_mergePulled (l : Ledger) (cs : List Command) (k : Key) :
    Handover.Fares k (l.get? k) ((l.mergePulled cs).2.get? k) [] := by
  have hdone (c : Command) (hc : l.get? k = some c) (h : c.status.isTerminal = true) :=
    Ledger.get?_mergePulled_of_isTerminal hc h cs
  refine ⟨fun c hc ↦ Ledger.exists_retries_le_mergePulled hc cs,
    fun c hc h ↦ ⟨hdone c hc h, fun _ hh ↦ absurd hh List.not_mem_nil⟩, ?_⟩
  rw [List.countP_nil, Nat.zero_add]
  cases hc : l.get? k with
  | none => exact Ledger.retriesLeft_le _
  | some c =>
    obtain ⟨c', hc', hle⟩ := Ledger.exists_retries_le_mergePulled hc cs
    rw [hc']
    exact Ledger.retriesLeft_le_of_le hle fun h ↦ Option.some.inj (hc'.symm.trans (hdone c hc h))

/-- How a key fares in a routine deed. -/
theorem fares_apply (hn : n.ledger.Keyed) (hroom : n.ledger.HasRoom) (hd : d.IsRoutine)
    (k : Key) :
    Handover.Fares k (n.ledger.get? k) ((d.apply n).ledger.get? k) (d.handed n) := by
  cases d with
  | operation op =>
    cases op with
    | mergePulled cs => exact fares_mergePulled n.ledger cs k
    | _ => exact hd.elim
  | pass w => exact fares_pass hn hroom hd k
  | rearrange inventory site => exact .refl k _

/-- How a key fares in routine deeds, as long as there is room. -/
theorem fares_after (hn : n.ledger.Keyed) (hds : ∀ d ∈ ds, d.IsRoutine)
    (hroom : ∀ ds', ds' <+: ds → (n.after ds').ledger.HasRoom) (k : Key) :
    Handover.Fares k (n.ledger.get? k) ((n.after ds).ledger.get? k) (n.handedBy ds) := by
  induction ds generalizing n with
  | nil => exact .refl k _
  | cons d ds ih =>
    have hnow := fares_apply hn (hroom [] List.nil_prefix) (hds d List.mem_cons_self) k
    refine hnow.trans (ih (Deed.keyed_apply hn d) (fun e he ↦ hds e (List.mem_cons_of_mem d he)) ?_)
    exact fun ds' hds' ↦ hroom (d :: ds') ((List.prefix_cons_inj d).2 hds')

/-- A routine deed leaves room, if no answer takes a command back to new. -/
theorem hasRoom_apply (hn : n.ledger.Keyed) (hroom : n.ledger.HasRoom) (hd : d.IsRoutine)
    (hnew : ∀ h ∈ d.handed n, h.answer.status ≠ .new) : (d.apply n).ledger.HasRoom := by
  cases d with
  | operation op =>
    cases op with
    | mergePulled cs => exact hroom.mergePulled hd
    | _ => exact hd.elim
  | pass w =>
    intro k o ho hrun
    change (n.runPending w.dispatch).2.ledger.get? k = some o at ho
    rcases pass_cases hn hroom hd k with
      ⟨c, h, o', hc, -, hone, houtcome, htallies, hstands⟩ | ⟨-, hsame, -⟩
    · obtain rfl := Option.some.inj (hstands.symm.trans ho)
      have hmem : h ∈ n.handed w.dispatch n.ledger.runnableKeys :=
        (List.mem_filter.1 (hone ▸ List.mem_singleton_self h)).1
      have hwait : o'.status.isPending = true := by
        by_contra hnot
        exact hnew h hmem ((Handover.status_outcome_eq_new_iff houtcome).1 ((Status.eq_new_iff _).2
          ⟨Status.isRunnable_iff.1 hrun, Bool.eq_false_iff.2 hnot⟩))
      have htwo := htallies.waits hwait
      omega
    · exact hroom k o (hsame.symm.trans ho) hrun
  | rearrange inventory site => exact hroom

/-- Routine deeds leave room, if no answer takes a command back to new. -/
theorem hasRoom_after (hn : n.ledger.Keyed) (hroom : n.ledger.HasRoom)
    (hds : ∀ d ∈ ds, d.IsRoutine) (hnew : ∀ h ∈ n.handedBy ds, h.answer.status ≠ .new)
    {ds' : List (Deed ε)} (hds' : ds' <+: ds) : (n.after ds').ledger.HasRoom := by
  induction ds' generalizing n ds with
  | nil => exact hroom
  | cons d ds' ih =>
    obtain ⟨rest, rfl⟩ := hds'
    have hnow := hasRoom_apply hn hroom (hds d List.mem_cons_self)
      fun h hh ↦ hnew h (List.mem_append_left _ hh)
    exact ih (Deed.keyed_apply hn d) hnow (fun e he ↦ hds e (List.mem_cons_of_mem d he))
      (fun h hh ↦ hnew h (List.mem_append_right _ hh)) (List.prefix_append ds' rest)

/-! ### Pulls and passes -/

/-- At a client with handlers that leave the ledger and the counter alone, let there be room in the
counters at first and in what is pulled. As long as there is room, no counter goes back, and what is
done stays and is not attempted. A pass attempts each command that is to be run once. If the command
waited, the attempt counts on by one, else it leaves the counter. What waits after it has two
retries at most, and what would wait with three or more is cancelled. So at most three attempts of a
waiting command are answered by anything but new. If nothing is answered by new, there is room at
all times, and a waiting command is attempted at most three times. -/
theorem retries_of_deeds (hn : n.ledger.Keyed) (hstart : n.ledger.HasRoom)
    (hds : ∀ d ∈ ds, d.IsRoutine) :
    ((∀ ds', ds' <+: ds → (n.after ds').ledger.HasRoom) →
      (∀ before after, ds = before ++ after → ∀ k c, (n.after before).ledger.get? k = some c →
        (∃ c', (n.after ds).ledger.get? k = some c' ∧ c.retries.toNat ≤ c'.retries.toNat) ∧
        (c.status.isTerminal = true → (n.after ds).ledger.get? k = some c ∧
          ∀ h ∈ (n.after before).handedBy after, h.given.key ≠ k)) ∧
      (∀ before w after, ds = before ++ .pass w :: after → ∀ k c,
        (n.after before).ledger.get? k = some c → c.status.isRunnable = true →
        ∃ h o, (Deed.handed (.pass w) (n.after before)).filter (·.given.key = k) = [h] ∧
          h.outcome = some o ∧ (n.after (before ++ [.pass w])).ledger.get? k = some o ∧
          h.Tallies c o) ∧
      ∀ k, (n.handedBy ds).countP (fun h ↦ h.isRetry && h.given.key = k) ≤ 3) ∧
    ((∀ h ∈ n.handedBy ds, h.answer.status ≠ .new) →
      (∀ ds', ds' <+: ds → (n.after ds').ledger.HasRoom) ∧
      ∀ k, (n.handedBy ds).countP (fun h ↦ h.given.status.isPending && h.given.key = k) ≤ 3) := by
  have hthree (hroom : ∀ ds', ds' <+: ds → (n.after ds').ledger.HasRoom) (k : Key) :
      (n.handedBy ds).countP (fun h ↦ h.isRetry && h.given.key = k) ≤ 3 := by
    have hpaid := (fares_after hn hds hroom k).paid
    have hleft := Ledger.retriesLeft_le (n.ledger.get? k)
    omega
  refine ⟨fun hroom ↦ ⟨?_, ?_, hthree hroom⟩, fun hnew ↦ ⟨?_, fun k ↦ ?_⟩⟩
  · rintro before after rfl k c hc
    have hfares := fares_after (keyed_after hn before)
      (fun d hd ↦ hds d (List.mem_append_right before hd)) (fun ds' hds' ↦ by
        rw [← after_append]
        exact hroom _ ((List.prefix_append_right_inj before).2 hds')) k
    rw [after_append]
    exact ⟨hfares.retries c hc, hfares.done c hc⟩
  · rintro before w after rfl k c hc hrun
    have hd : w.dispatch.Discreet :=
      hds (.pass w) (List.mem_append_right before List.mem_cons_self)
    have hfirst := hroom before (List.prefix_append before _)
    rw [after_append]
    rcases pass_cases (keyed_after hn before) hfirst hd k with
      ⟨c', h, o, hc', -, hone, ho, htallies, hstands⟩ | ⟨-, -, hdone⟩
    · obtain rfl := Option.some.inj (hc'.symm.trans hc)
      exact ⟨h, o, hone, ho, hstands, htallies⟩
    · exact absurd hrun (Status.not_isRunnable_of_isTerminal (hdone c hc))
  · exact fun ds' hds' ↦ hasRoom_after hn hstart hds hnew hds'
  · refine le_of_eq_of_le (List.countP_congr fun h hh ↦ ?_)
      (hthree (fun ds' hds' ↦ hasRoom_after hn hstart hds hnew hds') k)
    simp [Handover.isRetry, hnew h hh]

/-! ### A command that is pulled again and again -/

/-- A crew that only answers, all commands alike. -/
def answerers (s : Status) : Crew Unit := ⟨answering s, fun _ _ ↦ [], fun _ _ ↦ rfl⟩

/-- A command that waits elsewhere. -/
def stale : Command := { Command.new default "a" with status := .pending "elsewhere" }

/-- The command is pulled and attempted some times. -/
def rounds (s : Status) (m : Nat) : List (Deed Unit) :=
  (List.replicate m [.operation (.mergePulled [stale]), .pass (answerers s)]).flatten

/-- A client that holds nothing. -/
def idle : Node Unit := ⟨{ owner := "c1" }, .listened, ()⟩

theorem isRoutine_of_mem_rounds {s : Status} {m : Nat} : ∀ d ∈ rounds s m, d.IsRoutine := by
  intro d hd
  obtain ⟨round, hround, hd⟩ := List.mem_flatten.1 hd
  obtain rfl := List.eq_of_mem_replicate hround
  rcases List.mem_pair.1 hd with rfl | rfl
  · exact List.forall_mem_singleton.2 (by decide)
  · exact ⟨fun _ _ ↦ rfl, fun _ _ ↦ rfl⟩

/-- A command that is pulled and let wait three times is cancelled, after three attempts. -/
theorem retries_of_deeds_of_rounds :
    let ds := rounds (.pending "later") 3
    (idle.handedBy ds).countP (fun h ↦ h.given.status.isPending && h.given.key = ⟨none, "a"⟩) = 3 ∧
      ∃ c note, (idle.after ds).ledger.get? ⟨none, "a"⟩ = some c ∧ c.status = .cancelled note := by
  intro ds
  let w := answerers (.pending "later")
  let before := rounds (.pending "later") 2 ++ [.operation (.mergePulled [stale])]
  have hkeyed : idle.ledger.Keyed := Ledger.Keyed.of_empty rfl
  have hroom : idle.ledger.HasRoom := fun k c hc ↦ by
    rw [Ledger.get?_of_empty rfl] at hc
    cases hc
  have hroutine : ∀ d ∈ ds, d.IsRoutine := isRoutine_of_mem_rounds
  obtain ⟨hwith, hwithout⟩ := retries_of_deeds hkeyed hroom hroutine
  obtain ⟨hroomy, hthree⟩ := hwithout (by decide +kernel)
  obtain ⟨-, hpass, -⟩ := hwith hroomy
  refine ⟨le_antisymm (hthree _) (by decide +kernel), ?_⟩
  have hstood : ((idle.after before).ledger.get? ⟨none, "a"⟩).map (·.status.isRunnable) =
      some true := by decide +kernel
  obtain ⟨c, hc, hrun⟩ := Option.map_eq_some_iff.1 hstood
  obtain ⟨h, o, hone, -, hstands, htallies⟩ := hpass before w [] rfl _ c hc hrun
  have hanswer : ((Deed.handed (.pass w) (idle.after before)).filter
      (·.given.key = ⟨none, "a"⟩)).map (fun h ↦ (h.answer.status.isPending, h.answer.retries)) =
        [(true, 3)] := by decide +kernel
  rw [hone, List.map_singleton, List.singleton_inj] at hanswer
  obtain ⟨hwait, hretries⟩ := Prod.mk.inj hanswer
  have houtcome := htallies.cancelled hwait (by rw [hretries]; decide)
  exact ⟨o, _, hstands, congrArg Command.status houtcome⟩

/-- A waiting command that answers take back to new four times is attempted four times. -/
theorem not_forall_retries_le_three :
    ¬ ∀ ds : List (Deed Unit), (∀ d ∈ ds, d.IsRoutine) → ∀ k,
      (idle.handedBy ds).countP (fun h ↦ h.given.status.isPending && h.given.key = k) ≤ 3 := by
  intro hall
  have hfour : (idle.handedBy (rounds .new 4)).countP
      (fun h ↦ h.given.status.isPending && h.given.key = ⟨none, "a"⟩) = 4 := by decide +kernel
  have hthree := hall (rounds .new 4) isRoutine_of_mem_rounds ⟨none, "a"⟩
  omega

end Node

end Switchyard
