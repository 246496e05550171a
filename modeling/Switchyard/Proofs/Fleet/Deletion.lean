import Switchyard.Proofs.Command.Legible
import Switchyard.Proofs.Fleet.Invariant
import Switchyard.Proofs.Http.Turns

/-!
# What becomes of a deletion

A command that an operator deletes is gone from the root, but not from the fleet: clients keep what
they took, push their whole ledgers, and the root takes what it does not hold. So a deletion lasts
until the key is given again or a client reports it, and a report that arrives brings the command
back at once. If no copy is left anywhere in the fleet, under the key or under one that the wire
turns into it, there is nobody to bring it back, and the deletion lasts until an operator gives
such a key.

## Main definitions

* `Fleet.submitted`, `Fleet.reported` : the keys that operators give, and those that arrive in
  pushes.
* `Key.TurnsInto` : what the wire makes of a key, sooner or later.
* `Fleet.Holds` : all keys in a fleet are of a kind.

## Main results

* `Fleet.Holds.step`, `Fleet.Holds.run` : events bring no keys of another kind.
* `Fleet.deleted_until` : how long a deletion lasts.
-/

namespace Switchyard

/-- The wire turns a key into another after some trips. -/
inductive Key.TurnsInto : Key → Key → Prop
  | refl (k : Key) : TurnsInto k k
  | trip {k k' : Key} (h : k.carried.TurnsInto k') : TurnsInto k k'

namespace Ledger

variable {l : Ledger} {now : Time.Instant}

/-- Whatever is pushed stands in the ledger afterwards. -/
theorem isSome_get?_mergePushed {cs : List Command} {c : Command} (hc : c ∈ cs) :
    ((l.mergePushed now cs).2.get? c.key).isSome = true := by
  rw [get?_mergePushed]
  have hmem : c ∈ cs.filter (·.key = c.key) := List.mem_filter.2 ⟨hc, by simp⟩
  obtain ⟨d, ds, hfilter⟩ := List.exists_cons_of_ne_nil (List.ne_nil_of_mem hmem)
  rw [hfilter, List.foldl_cons]
  exact List.foldlRecOn (motive := fun stood : Option Command ↦ stood.isSome = true) ds _ rfl
    fun _ _ _ _ ↦ rfl

end Ledger

namespace Fleet

variable {ι ω : Type}

/-- The keys that an operator gives. -/
def submitted : Event ι ω → Fleet ι ω → List Key
  | .submit now c, v => (v.root.submit now c).1
  | _, _ => []

/-- The keys that arrive at the root in a push, as they are read from the wire. -/
def reported : Event ι ω → Fleet ι ω → List Key
  | .push i _ true, v =>
    match v.phase i with
    | .running [] => (report (v.client i)).map (·.key)
    | _ => []
  | _, _ => []

theorem reported_push {i : ι} {v : Fleet ι ω} (h : v.phase i = .running []) (now : Time.Instant) :
    reported (.push i now true) v = (report (v.client i)).map (·.key) := by
  simp only [reported, h]

variable {v : Fleet ι ω} {e : Event ι ω} {k : Key}

/-- A key that arrives at the root arrives in the push of a client at the end of its pass. -/
theorem exists_of_mem_reported (h : k ∈ reported e v) : ∃ i now, e = .push i now true ∧
    v.phase i = .running [] ∧ ∃ c ∈ report (v.client i), c.key = k := by
  cases e with
  | push i now arrives =>
    cases arrives with
    | false => cases h
    | true =>
      by_cases hph : v.phase i = .running []
      · rw [reported_push hph] at h
        exact ⟨i, now, rfl, hph, List.mem_map.1 h⟩
      · simp only [reported] at h
        cases h
  | _ => cases h

variable [DecidableEq ι] {p : ι → Protocol ω}

/-! ### What an event brings to the root -/

/-- What the root holds after an event it held before, or an operator gave it, or it arrived in a
push. -/
theorem of_root_get?_step {c : Command} (h : v.Steady)
    (hc : (v.step p e).root.ledger.get? k = some c) :
    (∃ c', v.root.ledger.get? k = some c') ∨ k ∈ submitted e v ∨ k ∈ reported e v := by
  by_cases he : ∃ i now arrives, e = .push i now arrives
  · obtain ⟨i, now, arrives, rfl⟩ := he
    by_cases hph : v.phase i = .running []
    · rw [step, h.push_eq hph] at hc
      cases arrives with
      | false => exact Or.inl ⟨c, hc⟩
      | true =>
        rcases Ledger.of_get?_mergePushed hc with hold | ⟨d, hd, hkey, -⟩
        · exact Or.inl ⟨c, hold⟩
        · rw [reported_push hph]
          exact Or.inr (Or.inr (List.mem_map.2 ⟨d, hd, hkey⟩))
    · rw [step, push_of_ne hph] at hc
      exact Or.inl ⟨c, hc⟩
  · have hpush : ∀ i now arrives, e ≠ .push i now arrives :=
      fun i now arrives heq ↦ he ⟨i, now, arrives, heq⟩
    by_cases hk : k ∈ written e v
    · cases e with
      | submit now c => exact Or.inr (Or.inl hk)
      | delete k' => exact Or.inl ⟨c, of_root_get?_delete hc⟩
      | _ => cases hk
    · rw [root_get?_step_of_not_mem hpush hk] at hc
      exact Or.inl ⟨c, hc⟩

/-- A key that is not at the root comes back only with an operator or a push. -/
theorem root_get?_run_eq_none (h : v.Steady) (hk : v.root.ledger.get? k = none)
    {es : List (Event ι ω)} (hgiven : k ∉ seen p submitted es v)
    (hpushed : k ∉ seen p reported es v) : (run p es v).root.ledger.get? k = none := by
  induction es generalizing v with
  | nil => exact hk
  | cons e es ih =>
    obtain ⟨hgiven, hgiven'⟩ : k ∉ submitted e v ∧ k ∉ seen p submitted es (v.step p e) := by
      simpa [seen] using hgiven
    obtain ⟨hpushed, hpushed'⟩ : k ∉ reported e v ∧ k ∉ seen p reported es (v.step p e) := by
      simpa [seen] using hpushed
    refine ih (h.step e) (Option.eq_none_iff_forall_ne_some.2 fun c hc ↦ ?_) hgiven' hpushed'
    rcases of_root_get?_step h hc with ⟨c', hold⟩ | hmem | hmem
    · rw [hk] at hold
      cases hold
    · exact hgiven hmem
    · exact hpushed hmem

/-- A push that arrives brings back what it reports. -/
theorem root_get?_step_ne_none (h : v.Steady) (hk : k ∈ reported e v) :
    (v.step p e).root.ledger.get? k ≠ none := by
  obtain ⟨i, now, rfl, hph, c, hc, rfl⟩ := exists_of_mem_reported hk
  rw [step, h.push_eq hph, ← Option.isSome_iff_ne_none]
  exact Ledger.isSome_get?_mergePushed hc

/-! ### All keys in a fleet -/

/-- All keys in a fleet are of a kind: those at the root, those at the clients, and those in the
answers on their way to them. -/
structure Holds (Q : Key → Prop) (v : Fleet ι ω) : Prop where
  root : ∀ k c, v.root.ledger.get? k = some c → Q k
  client : ∀ i k c, (v.client i).ledger.get? k = some c → Q k
  answer : ∀ i cs, v.phase i = .received cs → ∀ c ∈ cs, Q c.key

variable {Q : Key → Prop}

omit [DecidableEq ι] in
/-- The root offers only keys that it holds. -/
theorem Holds.of_mem_answerTo (h : v.Holds Q) (hkeyed : v.root.ledger.Keyed)
    (hQ : ∀ k, Q k → Q k.carried) {n : Client ω} {c : Command} (hc : c ∈ answerTo n v.root) :
    Q c.key := by
  obtain ⟨k, sent, hk, -, rfl⟩ := exists_of_mem_answerTo hc
  rw [Command.key_carried, hkeyed k sent hk]
  exact hQ k (h.root k sent hk)

omit [DecidableEq ι] in
/-- A client reports only keys that it holds. -/
theorem Holds.of_mem_report (h : v.Holds Q) {i : ι} (hkeyed : (v.client i).ledger.Keyed)
    (hQ : ∀ k, Q k → Q k.carried) {c : Command} (hc : c ∈ report (v.client i)) : Q c.key := by
  obtain ⟨k, sent, hk, rfl⟩ := exists_of_mem_report hc
  rw [Command.key_carried, hkeyed k sent hk]
  exact hQ k (h.client i k sent hk)

omit [DecidableEq ι] in
theorem Holds.of_mem_reported (h : v.Holds Q) (hkeyed : ∀ i, (v.client i).ledger.Keyed)
    (hQ : ∀ k, Q k → Q k.carried) (hk : k ∈ reported e v) : Q k := by
  obtain ⟨i, -, -, -, c, hc, rfl⟩ := exists_of_mem_reported hk
  exact h.of_mem_report (hkeyed i) hQ hc

/-- If the wire keeps a kind of keys and operators give no others, events bring no others. -/
theorem Holds.step (h : v.Holds Q) (hv : v.Steady) (hQ : ∀ k, Q k → Q k.carried)
    (hgiven : ∀ k ∈ submitted e v, Q k) : (v.step p e).Holds Q := by
  refine ⟨fun k c hc ↦ ?_, fun i k c hc ↦ ?_, fun i cs hcs c hc ↦ ?_⟩
  · rcases of_root_get?_step hv hc with ⟨c', hold⟩ | hmem | hmem
    · exact h.root k c' hold
    · exact hgiven k hmem
    · exact h.of_mem_reported (fun i ↦ (hv.client i).keyed) hQ hmem
  · rcases ledger_step_cases p e v i with
      hsame | ⟨cs, hph, hmerged⟩ | ⟨now, given, ks, hph, -, hcarried⟩
    · rw [hsame] at hc
      exact h.client i k c hc
    · rw [hmerged] at hc
      rcases Ledger.of_get?_mergePulled hc with hold | ⟨d, hd, rfl, -⟩
      · exact h.client i k c hold
      · exact h.answer i cs hph d hd
    · have hg := hv.handsOver hph
      rw [hcarried] at hc
      cases ho : ((v.client i).carryOut (Client.dispatch now (p i)) given).1 with
      | none =>
        rw [Client.get?_carryOut_of_none ho] at hc
        exact h.client i k c hc
      | some o =>
        obtain ⟨d, hd, -, -⟩ := Client.comes_of_carryOut hg ho
        rw [Client.get?_carryOut hg ho] at hc
        split_ifs at hc with hdel hk
        · exact hk ▸ h.client i given.key d hd
        · exact h.client i k c hc
  · rcases of_phase_step_eq_received hcs with hold | rfl
    · exact h.answer i cs hold c hc
    · exact h.of_mem_answerTo hv.root hQ hc

theorem Holds.run (h : v.Holds Q) (hv : v.Steady) (hQ : ∀ k, Q k → Q k.carried)
    {es : List (Event ι ω)} (hgiven : ∀ k ∈ seen p submitted es v, Q k) : (run p es v).Holds Q := by
  induction es generalizing v with
  | nil => exact h
  | cons e es ih =>
    obtain ⟨hnow, hlater⟩ := forall_mem_seen_cons.1 hgiven
    exact ih (h.step hv hQ hnow) (hv.step e) hlater

/-! ### Deletions -/

omit [DecidableEq ι] in
theorem root_delete (k : Key) (v : Fleet ι ω) : (v.delete k).root = v.root.delete k := by
  rw [delete, Root.delete]
  cases v.root.ledger.delete k with
  | ok d => rfl
  | error fault => rfl

omit [DecidableEq ι] in
/-- A key that the root does not hold is offered to nobody. -/
theorem not_offered_of_get?_eq_none (h : v.Steady) (hk : v.root.ledger.get? k = none)
    (client : String) : ∀ c ∈ v.root.ledger.pullFor client, c.key ≠ k := by
  rintro c hc rfl
  obtain ⟨k', hget, -⟩ := Ledger.mem_pullFor_iff.1 hc
  rw [h.root k' c hget, hget] at hk
  cases hk

/-- How long a deletion lasts, in every run of a root and its clients. A key that is deleted, over
HTTP or at the root, is gone at once. It is absent at the root, and from what clients are offered,
until an operator gives it again or a push arrives that reports it, whatever else happens; and such
a push brings it back. If after the deletion no key in the fleet turns into it on the wire, it is
absent until an operator gives one that does, whatever cycles the clients run. -/
theorem deleted_until (h : v.Fresh) (es : List (Event ι ω)) (k : Key) :
    let w := (run p es v).delete k
    (∀ (s : Http.Surface) now (q : Http.Request), s.root = (run p es v).root →
      s.letsIn q = true → q.deletes? = some k → (s.answer now q).2.root = w.root) ∧
    w.root.ledger.get? k = none ∧
    (∀ fs, k ∉ seen p submitted fs w → k ∉ seen p reported fs w →
      (run p fs w).root.ledger.get? k = none ∧
      ∀ client, ∀ c ∈ (run p fs w).root.ledger.pullFor client, c.key ≠ k) ∧
    (∀ fs e, k ∈ reported e (run p fs w) →
      ((run p fs w).step p e).root.ledger.get? k ≠ none) ∧
    (w.Holds (fun k' ↦ ¬k'.TurnsInto k) →
      ∀ fs, (∀ k' ∈ seen p submitted fs w, ¬k'.TurnsInto k) →
        (run p fs w).root.ledger.get? k = none ∧
        ∀ i, ∀ c ∈ answerTo ((run p fs w).client i) (run p fs w).root, c.key ≠ k) := by
  intro w
  have hw : w.Orderly := (h.orderly.run es).step (p := p) (.delete k)
  have hgone : w.root.ledger.get? k = none := by
    rw [root_delete, Root.get?_delete, if_pos rfl]
  refine ⟨fun s now q hs hlet hq ↦ ?_, hgone, fun fs hgiven hpushed ↦ ?_, fun fs e he ↦ ?_,
    fun hholds fs hgiven ↦ ?_⟩
  · rw [Http.Surface.root_answer_of_deletes? hlet hq, hs, root_delete]
  · have habsent := root_get?_run_eq_none hw.steady hgone hgiven hpushed
    exact ⟨habsent, not_offered_of_get?_eq_none (hw.run fs).steady habsent⟩
  · exact root_get?_step_ne_none (hw.run fs).steady he
  · have hkept (k' : Key) (hk : ¬k'.TurnsInto k) : ¬k'.carried.TurnsInto k :=
      fun htrip ↦ hk (.trip htrip)
    have hfree := hholds.run hw.steady hkept hgiven
    refine ⟨Option.eq_none_iff_forall_ne_some.2 fun c hc ↦ ?_, fun i c hc hkey ↦ ?_⟩
    · exact hfree.root k c hc (.refl k)
    · exact hfree.of_mem_answerTo (hw.run fs).root hkept hc (hkey ▸ .refl k)

/-- A sweep that is deleted before the client takes it stays away, cycle after cycle. One that the
client has carried out comes back with the next push. -/
theorem deleted_until_of_sweep :
    (run quiet (emptyRound ++ emptyRound)
      ((run quiet [given "scan gwd"] single).delete ⟨none, "scan gwd"⟩)).root.ledger.get?
        ⟨none, "scan gwd"⟩ = none ∧
    (run quiet emptyRound ((run quiet (given "scan gwd" :: round true) single).delete
      ⟨none, "scan gwd"⟩)).root.ledger.get? ⟨none, "scan gwd"⟩ ≠ none := by
  have hfresh : single.Fresh := fresh_start ..
  obtain ⟨-, -, hearly, -⟩ :=
    deleted_until (p := quiet) hfresh [given "scan gwd"] ⟨none, "scan gwd"⟩
  obtain ⟨-, -, -, hlate, -⟩ :=
    deleted_until (p := quiet) hfresh (given "scan gwd" :: round true) ⟨none, "scan gwd"⟩
  exact ⟨(hearly (emptyRound ++ emptyRound) (by decide) (by decide)).1,
    hlate emptyRound.dropLast (.push () default true) (by decide)⟩

/-- A deletion alone does not keep a command away: the client that has carried it out pushes it
again, although no operator gives it. -/
theorem not_forall_deleted_absent :
    ¬∀ (es fs : List (Event Unit Unit)) (k : Key),
      k ∉ seen quiet submitted fs ((run quiet es single).delete k) →
        (run quiet fs ((run quiet es single).delete k)).root.ledger.get? k = none := by
  intro h
  have habsent := h (given "scan gwd" :: round true) emptyRound ⟨none, "scan gwd"⟩ (by decide)
  exact absurd habsent (by decide)

end Fleet

end Switchyard
