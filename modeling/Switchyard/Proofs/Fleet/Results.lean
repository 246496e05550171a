import Switchyard.Proofs.Fleet.Answers
import Switchyard.Proofs.Ledger.Exchange

/-!
# Results are not lost

What a client has done it keeps, whatever it pulls, attempts and pushes afterwards and whichever of
its calls fail. It pushes all that it holds each time, so the first push that arrives brings the
result to the root, where it stays until an operator touches its key. In the meantime anybody else
may post any table to the root, with reports about the same command among them.

## Main definitions

* `Fleet.AtRest` : the fleets in which a history begins. The clients may hold anything.
* `Fleet.Happening`, `Fleet.happen`, `Fleet.history` : events, and tables posted by anybody.
* `Fleet.touched`, `Fleet.attempted` : what operators touch and what attempts come to.

## Main results

* `Fleet.client_get?_history` : what a client has done it keeps.
* `Fleet.root_get?_history` : what is done at the root stays.
* `Fleet.result_kept` : a push that arrives brings a result to the root for good.
-/

namespace Switchyard

namespace Fleet

variable {ι ω : Type} {v : Fleet ι ω}

/-! ### Histories -/

/-- A fleet in which a history begins: all clients are at rest, with any ledgers. -/
structure AtRest (v : Fleet ι ω) : Prop where
  root : v.root.ledger.Keyed
  client : ∀ i, (v.client i).ledger.Keyed
  phase : ∀ i, v.phase i = .idle

theorem AtRest.steady (h : v.AtRest) : v.Steady :=
  ⟨h.root, fun i ↦ .of_todo?_eq_none (h.client i) (by rw [h.phase i]; rfl)⟩

theorem Fresh.atRest (h : v.Fresh) : v.AtRest :=
  ⟨h.root, fun i ↦ .of_empty (h.ledger i), h.phase⟩

variable [DecidableEq ι] {p : ι → Protocol ω} {i : ι} {k : Key} {c : Command}

/-- What may happen to a fleet: one of its events, or a table that anybody posts to the root. -/
inductive Happening (ι ω : Type) where
  | event (e : Event ι ω)
  | post (now : Time.Instant) (cs : List Command)

/-- The fleet after something happened. -/
def happen (p : ι → Protocol ω) : Happening ι ω → Fleet ι ω → Fleet ι ω
  | .event e, v => v.step p e
  | .post now cs, v => { v with root := (v.root.accept now cs).2 }

/-- The fleet after some happenings. -/
def history (p : ι → Protocol ω) : List (Happening ι ω) → Fleet ι ω → Fleet ι ω
  | [], v => v
  | h :: hs, v => history p hs (v.happen p h)

/-- What an observer notes in a history, who sees each happening and the fleet just before it. -/
def noted {α : Type} (p : ι → Protocol ω) (look : Happening ι ω → Fleet ι ω → List α) :
    List (Happening ι ω) → Fleet ι ω → List α
  | [], _ => []
  | h :: hs, v => look h v ++ noted p look hs (v.happen p h)

/-- The keys that operators write or delete. Of a table that is posted the commands that are new are
given by operators. -/
def touched : Happening ι ω → Fleet ι ω → List Key
  | .event e, v => written e v
  | .post now cs, v => v.root.writtenBy now (cs.filter (·.status == .new))

/-- What an attempt of a client comes to. -/
def attempted (p : ι → Protocol ω) (i : ι) : Happening ι ω → Fleet ι ω → List Command
  | .event e, v => outcomes p i e v
  | .post _ _, _ => []

theorem Steady.happen (h : v.Steady) (x : Happening ι ω) : (v.happen p x).Steady := by
  cases x with
  | event e => exact h.step e
  | post now cs => exact ⟨Root.keyed_accept h.root now cs, h.client⟩

theorem Steady.history (h : v.Steady) (hs : List (Happening ι ω)) :
    (Fleet.history p hs v).Steady := by
  induction hs generalizing v with
  | nil => exact h
  | cons x hs ih => exact ih (h.happen x)

/-! ### At the client -/

/-- What a client has done it keeps, unless an attempt of its own deletes it. -/
theorem client_get?_happen (h : v.Steady) (hc : (v.client i).ledger.get? k = some c)
    (hdone : c.status.isTerminal = true) {x : Happening ι ω}
    (hdel : ∀ o ∈ attempted p i x v, o.deletes? ≠ some k) :
    ((v.happen p x).client i).ledger.get? k = some c := by
  cases x with
  | post now cs => exact hc
  | event e =>
    change ((v.step p e).client i).ledger.get? k = some c
    rcases ledger_step_cases p e v i with
      hsame | ⟨cs, -, htake⟩ | ⟨now, given, ks, hph, hout, hcarried⟩
    · rw [hsame, hc]
    · rw [htake]
      exact Ledger.get?_mergePulled_of_isTerminal hc hdone cs
    · rw [hcarried]
      refine Client.get?_carryOut_of_isTerminal (h.handsOver hph) hc hdone fun o ho ↦ hdel o ?_
      rw [attempted, hout, ho]
      exact List.mem_singleton_self o

/-- What a client has done it keeps in every history in which none of its attempts deletes it. -/
theorem client_get?_history (h : v.Steady) (hc : (v.client i).ledger.get? k = some c)
    (hdone : c.status.isTerminal = true) {hs : List (Happening ι ω)}
    (hdel : ∀ o ∈ noted p (attempted p i) hs v, o.deletes? ≠ some k) :
    ((history p hs v).client i).ledger.get? k = some c := by
  induction hs generalizing v with
  | nil => exact hc
  | cons x hs ih =>
    refine ih (h.happen x) (client_get?_happen h hc hdone fun o ho ↦ ?_) fun o ho ↦ ?_
    · exact hdel o (List.mem_append_left _ ho)
    · exact hdel o (List.mem_append_right _ ho)

/-! ### At the root -/

/-- What is done at the root stays, unless an operator touches its key. -/
theorem root_get?_happen (h : v.Steady) (hc : v.root.ledger.get? k = some c)
    (hdone : c.status.isTerminal = true) {x : Happening ι ω} (hk : k ∉ touched x v) :
    (v.happen p x).root.ledger.get? k = some c := by
  cases x with
  | post now cs => exact Root.get?_accept_of_isTerminal hc hdone hk
  | event e => exact root_get?_step_of_isTerminal h hc hdone hk

/-- What is done at the root stays in every history in which no operator touches its key. -/
theorem root_get?_history (h : v.Steady) (hc : v.root.ledger.get? k = some c)
    (hdone : c.status.isTerminal = true) {hs : List (Happening ι ω)}
    (hk : k ∉ noted p touched hs v) : (history p hs v).root.ledger.get? k = some c := by
  induction hs generalizing v with
  | nil => exact hc
  | cons x hs ih =>
    obtain ⟨hnow, hlater⟩ : k ∉ touched x v ∧ k ∉ noted p touched hs (v.happen p x) := by
      simpa [noted] using hk
    exact ih (h.happen x) (root_get?_happen h hc hdone hnow) hlater

/-- A push that arrives brings what the client has done to the root, unless it was done there
before. -/
theorem exists_root_get?_push (h : v.Steady) (hph : v.phase i = .running [])
    (hkeys : ∀ k c, (v.client i).ledger.get? k = some c → k.isStable = true)
    (hc : (v.client i).ledger.get? k = some c) (hdone : c.status.isTerminal = true)
    (now : Time.Instant) :
    ∃ d, (v.push i now true).root.ledger.get? k = some d ∧ d.status.isTerminal = true ∧
      (v.root.ledger.get? k = some d ∨ c.Reports d) := by
  have hpushed := Ledger.get?_mergePushed_sent ⟨(h.client i).keyed, hkeys⟩ now v.root.ledger k
  rw [hc] at hpushed
  rw [h.push_eq hph, if_pos rfl, Root.ledger_acceptPush, report, hpushed]
  have hcarried : c.carried.status.isTerminal = true := by
    rw [Command.carried_status, Status.isTerminal_parse_text, hdone]
  refine ⟨_, rfl, ?_⟩
  cases hs : v.root.ledger.get? k with
  | none => exact ⟨hcarried, Or.inr ⟨now, c.carried.flags, rfl⟩⟩
  | some s =>
    cases hstood : s.status.isTerminal with
    | true =>
      rw [Ledger.afterPush_of_isTerminal hstood]
      exact ⟨hstood, Or.inl rfl⟩
    | false =>
      have hafter : Ledger.afterPush now c.carried (some s) =
          { c.carried.stamped now with flags := s.flags } := by simp [Ledger.afterPush, hstood]
      rw [hafter]
      exact ⟨hcarried, Or.inr ⟨now, s.flags, rfl⟩⟩

/-- In every history of a fleet, what a client has done it keeps from then on, as long as none of
its attempts deletes it. And whenever a push of the client arrives, with all keys in its ledger read
back from their wire forms, the root holds the command as done afterwards: as it was done there
before, or as the client reports it. So it stays until an operator touches the key. -/
theorem result_kept (h : v.AtRest) (hs : List (Happening ι ω)) (i : ι) (k : Key) (c : Command)
    (hc : ((history p hs v).client i).ledger.get? k = some c)
    (hdone : c.status.isTerminal = true) (later : List (Happening ι ω))
    (hdel : ∀ o ∈ noted p (attempted p i) later (history p hs v), o.deletes? ≠ some k) :
    let w := history p later (history p hs v)
    (w.client i).ledger.get? k = some c ∧
    (w.phase i = .running [] →
      (∀ k' c', (w.client i).ledger.get? k' = some c' → k'.isStable = true) →
      ∀ now, ∃ d, (w.step p (.push i now true)).root.ledger.get? k = some d ∧
        d.status.isTerminal = true ∧ (w.root.ledger.get? k = some d ∨ c.Reports d) ∧
        ∀ after, k ∉ noted p touched after (w.step p (.push i now true)) →
          (history p after (w.step p (.push i now true))).root.ledger.get? k = some d) := by
  intro w
  have hbefore : (history p hs v).Steady := h.steady.history hs
  have hw : w.Steady := hbefore.history later
  have hheld : (w.client i).ledger.get? k = some c := client_get?_history hbefore hc hdone hdel
  refine ⟨hheld, fun hph hkeys now ↦ ?_⟩
  obtain ⟨d, hd, hterm, hsource⟩ := exists_root_get?_push hw hph hkeys hheld hdone now
  exact ⟨d, hd, hterm, hsource, fun after hk ↦ root_get?_history (hw.step _) hd hterm hk⟩

/-- A sweep that is carried out, with the push after it lost. -/
def unheard : List (Happening Unit Unit) :=
  .event (given "scan gwd") :: (round false).map .event

/-- Somebody else reports that the sweep waits. The client pulls it once more. -/
def contested : List (Happening Unit Unit) :=
  [.post default [{ text := "scan gwd", status := .pending "device locked", node := "c2" }],
    .event (.pull () true), .event (.take ())]

/-- Somebody else reports that the sweep failed, and an operator gives another command. -/
def belated : List (Happening Unit Unit) :=
  [.post default [{ text := "scan gwd", status := .error "timeout", node := "c2" }],
    .event (given "scan snmp")]

/-- The next push brings the result to the root all the same, and there it stays. -/
theorem result_kept_of_unheard :
    ∃ c d, ((history quiet contested (history quiet unheard single)).client ()).ledger.get?
        ⟨none, "scan gwd"⟩ = some c ∧ c.status = .ok ∧ c.Reports d ∧
      (history quiet belated ((history quiet contested (history quiet unheard single)).step quiet
        (.push () default true))).root.ledger.get? ⟨none, "scan gwd"⟩ = some d := by
  have hrest : single.AtRest := Fresh.atRest (fresh_start ..)
  have hswept : (((history quiet unheard single).client ()).ledger.get?
      ⟨none, "scan gwd"⟩).map (·.status) = some .ok := by decide
  obtain ⟨c, hc, hok⟩ := Option.map_eq_some_iff.1 hswept
  have hdone : c.status.isTerminal = true := by rw [hok]; rfl
  obtain ⟨hheld, hpush⟩ := result_kept (p := quiet) hrest unheard () ⟨none, "scan gwd"⟩ c hc hdone
    contested (by decide)
  obtain ⟨d, -, hterm, hsource, hstays⟩ := hpush rfl (Ledger.forall_get?_iff.2 (by decide)) default
  have hwaits : ((history quiet contested (history quiet unheard single)).root.ledger.get?
      ⟨none, "scan gwd"⟩).all (·.status.isPending) = true := by decide
  refine ⟨c, d, hheld, hok, hsource.resolve_left fun hroot ↦ ?_, hstays belated (by decide)⟩
  rw [hroot, Option.all_some, Status.isPending_of_isTerminal hterm] at hwaits
  cases hwaits

end Fleet

end Switchyard
