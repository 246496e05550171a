import Mathlib.Data.List.Induction
import Switchyard.Proofs.Ledger.Arrival

/-!
# Replays

A batch that is merged a second time changes nothing, whatever it holds: commands that are new,
that wait or are done, in any number under one key, and with any flags and retries. For a pull the
reason is that a command which still gives way after a batch reflects it: nothing in the batch is
done or counts more retries, and the last command of the batch is what stands there. For a push it
is that the decisive arrival decides again; a command without a timestamp would get a later one.

## Main definitions

* `Ledger.pull` : what a pulled command leaves of what stood under its key.
* `Ledger.Reflects` : a command that has what a batch has to give.

## Main results

* `Ledger.reflects_of_foldl_pull`, `Ledger.foldl_pull_of_reflects` : a batch is reflected by what it
  leaves, and leaves what reflects it.
* `Ledger.settledBy_settledBy` : arrivals that come again decide as before.
* `Ledger.replays_harmless` : merging a batch again leaves the ledger as it is.
-/

namespace Switchyard.Ledger

variable {l l' : Ledger} {c s : Command} {cs : List Command} {owner : String}
  {stood : Option Command}

/-- Ledgers of one owner that hold the same under every key are equal. -/
theorem ext_get? (howner : l.owner = l'.owner) (h : ∀ k, l.get? k = l'.get? k) : l = l' := by
  obtain ⟨owner, commands⟩ := l
  obtain ⟨owner', commands'⟩ := l'
  obtain rfl : owner = owner' := howner
  obtain rfl : commands = commands' := Table.ext_get? h
  rfl

/-! ### Pulls -/

/-- What a pulled command leaves of what stood under its key. -/
def pull (owner : String) (stood : Option Command) (c : Command) : Option Command :=
  some (afterPull owner c stood)

/-- The pulled command as it is kept beside a stored one that gives way. -/
def pulledOver (owner : String) (s c : Command) : Command :=
  { mergedPulled s c with node := owner }

theorem pull_of_not_yields (h : yieldsToPulled s = false) (c : Command) :
    pull owner (some s) c = some s := by
  simp [pull, afterPull, h]

theorem pull_of_yields (h : yieldsToPulled s = true) (c : Command) :
    pull owner (some s) c = some (pulledOver owner s c) := by
  simp [pull, afterPull, h, pulledOver]

theorem pull_none (c : Command) : pull owner none c = some (pulledOver owner c c) := by
  have hmax : max c.retries c.retries = c.retries := ite_self _
  rw [pulledOver, mergedPulled, hmax]
  rfl

theorem foldl_pull_of_not_yields (h : yieldsToPulled s = false) (cs : List Command) :
    cs.foldl (pull owner) (some s) = some s := by
  induction cs with
  | nil => rfl
  | cons c cs ih => rw [List.foldl_cons, pull_of_not_yields h, ih]

theorem eq_nil_of_foldl_pull_eq_none (h : cs.foldl (pull owner) stood = none) : cs = [] := by
  induction cs using List.reverseRecOn with
  | nil => rfl
  | append_singleton cs c _ => simp [pull] at h

/-- A command that has what a batch has to give: nothing in the batch is done or counts more
retries, and the last command of the batch would be kept as the command is. -/
structure Reflects (owner : String) (cs : List Command) (s : Command) : Prop where
  runnable : ∀ c ∈ cs, c.status.isTerminal = false
  retries_le : ∀ c ∈ cs, c.retries.toNat ≤ s.retries.toNat
  last : ∀ c, cs.getLast? = some c → pulledOver owner s c = s

theorem toNat_retries_pulledOver (owner : String) (s c : Command) :
    (pulledOver owner s c).retries.toNat = max c.retries.toNat s.retries.toNat :=
  toNat_retries_mergedPulled s c

/-- Beside stored commands with the same flags and, as far as the pulled one counts, the same
retries, a pulled command is kept alike. -/
theorem pulledOver_congr {t : Command} (hflags : s.flags = t.flags)
    (hretries : max c.retries.toNat s.retries.toNat = max c.retries.toNat t.retries.toNat) :
    pulledOver owner s c = pulledOver owner t c := by
  have hkept : max c.retries s.retries = max c.retries t.retries := by
    rw [← UInt32.toNat_inj]
    exact ((toNat_retries_mergedPulled s c).trans hretries).trans
      (toNat_retries_mergedPulled t c).symm
  rw [pulledOver, pulledOver, mergedPulled, mergedPulled, hkept, hflags]

theorem pulledOver_pulledOver (owner : String) (s c : Command) :
    pulledOver owner (pulledOver owner s c) c = pulledOver owner s c := by
  refine pulledOver_congr rfl ?_
  rw [toNat_retries_pulledOver]
  omega

/-- A command that a batch leaves and that still gives way reflects the batch. -/
theorem reflects_of_foldl_pull (h : cs.foldl (pull owner) stood = some s)
    (hyields : yieldsToPulled s = true) : Reflects owner cs s := by
  induction cs using List.reverseRecOn generalizing s with
  | nil => exact ⟨by simp, by simp, by simp⟩
  | append_singleton cs c ih =>
    rw [List.foldl_append, List.foldl_cons, List.foldl_nil] at h
    -- what stood before the last command gave way too, so it reflects the batch up to there
    obtain ⟨t, rfl, hrun, hle⟩ : ∃ t, s = pulledOver owner t c ∧
        (∀ d ∈ cs, d.status.isTerminal = false) ∧
        ∀ d ∈ cs, d.retries.toNat ≤ t.retries.toNat := by
      cases ht : cs.foldl (pull owner) stood with
      | none =>
        rw [ht, pull_none] at h
        obtain rfl := eq_nil_of_foldl_pull_eq_none ht
        exact ⟨c, (Option.some.inj h).symm, by simp, by simp⟩
      | some t =>
        rw [ht] at h
        have htyields : yieldsToPulled t = true := by
          by_contra hkept
          rw [pull_of_not_yields (by simpa using hkept)] at h
          exact hkept (Option.some.inj h ▸ hyields)
        rw [pull_of_yields htyields] at h
        obtain ⟨hrun, hle, -⟩ := ih ht htyields
        exact ⟨t, (Option.some.inj h).symm, hrun, hle⟩
    have hlast : c.status.isTerminal = false :=
      isTerminal_of_yieldsToPulled (s := pulledOver owner t c) hyields
    refine ⟨fun d hd ↦ ?_, fun d hd ↦ ?_, fun d hd ↦ ?_⟩
    · rcases List.mem_append.1 hd with hd | hd
      · exact hrun d hd
      · exact List.mem_singleton.1 hd ▸ hlast
    · rw [toNat_retries_pulledOver]
      rcases List.mem_append.1 hd with hd | hd
      · exact Nat.le_trans (hle d hd) (Nat.le_max_right ..)
      · exact List.mem_singleton.1 hd ▸ Nat.le_max_left ..
    · obtain rfl : c = d := by simpa using hd
      exact pulledOver_pulledOver owner t c

/-- Commands none of which is done or counts more retries are kept one after the other, each with
the flags and the retries of what stood there. -/
theorem foldl_pull_of_runnable (hyields : yieldsToPulled s = true)
    (hrun : ∀ c ∈ cs, c.status.isTerminal = false)
    (hle : ∀ c ∈ cs, c.retries.toNat ≤ s.retries.toNat) :
    cs.foldl (pull owner) (some s) = some (cs.getLast?.elim s (pulledOver owner s)) := by
  induction cs using List.reverseRecOn with
  | nil => rfl
  | append_singleton cs c ih =>
    have hbefore := ih (fun d hd ↦ hrun d (List.mem_append_left _ hd))
      fun d hd ↦ hle d (List.mem_append_left _ hd)
    rw [List.foldl_append, hbefore, List.foldl_cons, List.foldl_nil, List.getLast?_concat,
      Option.elim_some]
    cases hd : cs.getLast? with
    | none => exact pull_of_yields hyields c
    | some d =>
      have hmem : d ∈ cs ++ [c] := List.mem_append_left _ (List.mem_of_getLast? hd)
      have hretries : (pulledOver owner s d).retries.toNat = s.retries.toNat := by
        rw [toNat_retries_pulledOver, Nat.max_eq_right (hle d hmem)]
      have hkeeps : yieldsToPulled (pulledOver owner s d) = true := by
        simp only [yieldsToPulled, Bool.and_eq_true, Bool.not_eq_true'] at hyields ⊢
        exact ⟨hyields.1, hrun d hmem⟩
      rw [Option.elim_some, pull_of_yields hkeeps]
      exact congrArg some (pulledOver_congr rfl (by rw [hretries]))

theorem foldl_pull_of_reflects (hyields : yieldsToPulled s = true) (h : Reflects owner cs s) :
    cs.foldl (pull owner) (some s) = some s := by
  rw [foldl_pull_of_runnable hyields h.runnable h.retries_le]
  cases hlast : cs.getLast? with
  | none => rfl
  | some c => exact congrArg some (h.last c hlast)

/-- A pulled batch that comes again leaves what stands under each key. -/
theorem foldl_pull_foldl_pull (owner : String) (cs : List Command) (stood : Option Command) :
    cs.foldl (pull owner) (cs.foldl (pull owner) stood) = cs.foldl (pull owner) stood := by
  cases h : cs.foldl (pull owner) stood with
  | none =>
    rw [eq_nil_of_foldl_pull_eq_none h]
    rfl
  | some s =>
    cases hyields : yieldsToPulled s with
    | false => exact foldl_pull_of_not_yields hyields cs
    | true => exact foldl_pull_of_reflects hyields (reflects_of_foldl_pull h hyields)

/-! ### Pushes -/

theorem settledBy_of_runnable (h : s.status.isTerminal = false) (cs : List Command) :
    settledBy cs (some s) = some ((decisive cs).elim s (·.withFlags s.flags)) := by
  rw [settledBy, h]
  rfl

/-- What the decisive arrival left, with whatever flags, is what it leaves again. -/
theorem settledBy_withFlags {flags : Flags} (h : decisive cs = some c) :
    settledBy cs (some (c.withFlags flags)) = some (c.withFlags flags) := by
  cases hdone : c.status.isTerminal with
  | true => exact if_pos hdone
  | false =>
    have hrun : (c.withFlags flags).status.isTerminal = false := hdone
    rw [settledBy_of_runnable hrun, h]
    rfl

/-- Arrivals that come again decide as before. -/
theorem settledBy_settledBy (cs : List Command) (stood : Option Command) :
    settledBy cs (settledBy cs stood) = settledBy cs stood := by
  cases stood with
  | none =>
    cases cs with
    | nil => rfl
    | cons first cs =>
      cases h : decisive (first :: cs) with
      | none => simp [settledBy, h]
      | some c => simpa [settledBy, h] using settledBy_withFlags h
  | some s =>
    cases hdone : s.status.isTerminal with
    | true => simp [settledBy, hdone]
    | false =>
      rw [settledBy_of_runnable hdone]
      cases h : decisive cs with
      | none => rw [Option.elim_none, settledBy_of_runnable hdone, h]; rfl
      | some c => exact settledBy_withFlags h

/-! ### Replays -/

/-- A pull of the same commands a second time changes nothing, and neither does a push at any later
moment if all its commands have timestamps. -/
theorem replays_harmless (l : Ledger) (cs : List Command) :
    ((l.mergePulled cs).2.mergePulled cs).2 = (l.mergePulled cs).2 ∧
    ((∀ c ∈ cs, c.timestamp.isSome = true) → ∀ now later : Time.Instant,
      ((l.mergePushed now cs).2.mergePushed later cs).2 = (l.mergePushed now cs).2) := by
  refine ⟨ext_get? (by simp) fun k ↦ ?_, fun hstamped now later ↦ ext_get? (by simp) fun k ↦ ?_⟩
  · have honce := get?_mergePulled cs l k
    rw [get?_mergePulled, owner_mergePulled, honce]
    exact foldl_pull_foldl_pull l.owner _ _
  · have hmerge := get?_mergePushed_eq_foldl_arrive hstamped
    rw [hmerge later, hmerge now, foldl_arrive, foldl_arrive, settledBy_settledBy]

/-- Three reports of a sweep, of which none is done and the second counts most retries, and two of
a reboot, of which the first is done. -/
def repeats : List Command :=
  [swept "c1" .new,
    { swept "c1" (.pending "locked") with retries := 3 },
    { swept "c2" (.pending "still locked") with retries := 1 },
    { Command.new default "reboot" with status := .error "invalid command" },
    { Command.new default "reboot" with status := .pending "device not found" }]

/-- The sweep keeps the flag that stood there, and from a pull the most retries; the reboot is
done. Nothing of this changes when the reports come again. -/
theorem replays_harmless_of_repeats :
    let pulled := (awaiting.mergePulled repeats).2
    let pushed := (awaiting.mergePushed default repeats).2
    (∀ c ∈ repeats, c.timestamp.isSome = true) ∧
      pulled.commands.values.map (fun c ↦ (c.text, c.status, c.retries, c.flags.noSyslog)) =
        [("reboot", .error "invalid command", 0, false),
          ("scan gwd", .pending "still locked", 3, true)] ∧
      (pulled.mergePulled repeats).2 = pulled ∧
      pushed.commands.values.map (fun c ↦ (c.text, c.status, c.retries, c.flags.noSyslog)) =
        [("reboot", .error "invalid command", 0, false),
          ("scan gwd", .pending "still locked", 1, true)] ∧
      (pushed.mergePushed ⟨1709287200, 0⟩ repeats).2 = pushed := by
  have hstamped : ∀ c ∈ repeats, c.timestamp.isSome = true := by decide
  obtain ⟨hpulled, hpushed⟩ := replays_harmless awaiting repeats
  exact ⟨hstamped, by decide, hpulled, by decide, hpushed hstamped _ _⟩

end Switchyard.Ledger
