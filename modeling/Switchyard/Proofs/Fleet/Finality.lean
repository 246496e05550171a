import Switchyard.Proofs.Fleet.Invariant

/-!
# What is done at the root stays

A command that is done at the root keeps its whole record, whatever clients pull, attempt and push
in whatever order and whichever calls fail. Only an operator who writes or deletes its key ends
this. The reason is that no push carries a new command: what a client reports is merged, and a
merge leaves alone what is done.

## Main results

* `Fleet.root_get?_step_of_isTerminal` : one event.
* `Fleet.reports_and_finality` : every run.
-/

namespace Switchyard.Fleet

variable {ι ω : Type} [DecidableEq ι] {p : ι → Protocol ω} {v : Fleet ι ω} {k : Key} {c : Command}

/-! ### One event -/

/-- What is done at the root stays in every event in which no operator touches its key. -/
theorem root_get?_step_of_isTerminal (h : v.Steady) (hc : v.root.ledger.get? k = some c)
    (hdone : c.status.isTerminal = true) {e : Event ι ω} (hk : k ∉ written e v) :
    (v.step p e).root.ledger.get? k = some c := by
  by_cases he : ∃ i now arrives, e = .push i now arrives
  · obtain ⟨i, now, arrives, rfl⟩ := he
    by_cases hph : v.phase i = .running []
    · rw [step, h.push_eq hph]
      cases arrives with
      | false => exact hc
      | true => exact Ledger.get?_mergePushed_of_isTerminal hc hdone _
    · rw [step, push_of_ne hph, hc]
  · rw [root_get?_step_of_not_mem (fun i now arrives heq ↦ he ⟨i, now, arrives, heq⟩) hk, hc]

/-! ### Runs -/

/-- What is done at the root stays in every run in which no operator touches its key. -/
theorem root_get?_run_of_isTerminal (h : v.Orderly) (hc : v.root.ledger.get? k = some c)
    (hdone : c.status.isTerminal = true) {es : List (Event ι ω)} (hk : k ∉ seen p written es v) :
    (run p es v).root.ledger.get? k = some c := by
  induction es generalizing v with
  | nil => exact hc
  | cons e es ih =>
    obtain ⟨hnow, hlater⟩ : k ∉ written e v ∧ k ∉ seen p written es (v.step p e) := by
      simpa [seen] using hk
    exact ih (h.step e) (root_get?_step_of_isTerminal h.steady hc hdone hnow) hlater

/-- In every run from a fresh fleet, no push carries a new command, so that the root never takes
one for what an operator gives; and what is once done at the root stays, until an operator writes
or deletes its key. -/
theorem reports_and_finality (h : v.Fresh) (es : List (Event ι ω)) :
    (∀ i, (run p es v).phase i = .running [] →
      (∀ c ∈ report ((run p es v).client i), c.status ≠ .new) ∧
      ∀ now, (run p es v).root.accept now (report ((run p es v).client i)) =
        (run p es v).root.acceptPush now (report ((run p es v).client i))) ∧
    (∀ k c, (run p es v).root.ledger.get? k = some c → c.status.isTerminal = true →
      ∀ fs, k ∉ seen p written fs (run p es v) →
        (run p fs (run p es v)).root.ledger.get? k = some c) := by
  have hw : (run p es v).Orderly := h.orderly.run es
  refine ⟨fun i hph ↦ ⟨fun c hc ↦ ?_, fun now ↦ ?_⟩, fun k c hc hdone fs hk ↦ ?_⟩
  · exact hw.status_ne_new_of_mem_report hph hc
  · exact hw.accept_report hph now
  · exact root_get?_run_of_isTerminal hw hc hdone hk

/-- A sweep that was carried out keeps its record while another command is given and run. -/
theorem finality_of_sweep :
    (∀ c ∈ report ((run quiet (given "scan gwd" :: (round true).dropLast) single).client ()),
      c.status ≠ .new) ∧
    ∃ c, (run quiet (given "scan gwd" :: round true) single).root.ledger.get?
        ⟨none, "scan gwd"⟩ = some c ∧ c.status = .ok ∧
      (run quiet (given "scan snmp" :: round true)
        (run quiet (given "scan gwd" :: round true) single)).root.ledger.get?
          ⟨none, "scan gwd"⟩ = some c := by
  have hfresh : single.Fresh := fresh_start ..
  have hswept : ((run quiet (given "scan gwd" :: round true) single).root.ledger.get?
      ⟨none, "scan gwd"⟩).map (·.status) = some .ok := by decide
  obtain ⟨c, hc, hok⟩ := Option.map_eq_some_iff.1 hswept
  have hdone : c.status.isTerminal = true := by rw [hok]; rfl
  refine ⟨((reports_and_finality hfresh _).1 () (by rfl)).1, c, hc, hok, ?_⟩
  exact (reports_and_finality hfresh _).2 _ c hc hdone _ (by decide)

end Switchyard.Fleet
