import Switchyard.Proofs.Command.Wire
import Switchyard.Proofs.Fleet.Run

/-!
# What holds in every fleet

A fleet is kept in order client by client: what every step of a cycle keeps of a client, every event
keeps of all of them. What is new in the ledger of a client is on the list of its execution pass or
in its hand, since a pass begins with all that is still to be run and no attempt leaves anything
new. So nothing in the ledger of a client that pushes is new, and the root takes every push as a
report. What is in the hand of a client stands in its ledger as it was when it was handed over.

Clients that start with empty ledgers keep more in order: every key came over the wire, and in a
pass a command still to be run that is not on the list was attempted, and then it waits for its
device.

## Main definitions

* `Client.Kept` : what every step of a cycle keeps.
* `Client.Steady`, `Fleet.Steady` : nothing new but on the list or in the hand.
* `Client.Orderly` : the state of a client that is so far in its cycle.
* `Fleet.Orderly`, `Fleet.Fresh` : the states of a fleet, and those in which a run begins.

## Main results

* `Fleet.forall_client_step`, `Fleet.keyed_root_step` : what events keep of clients and of the root.
* `Fleet.Steady.accept_report` : no push carries a new command.
* `Fleet.Orderly.step`, `Fleet.Orderly.run` : runs keep fleets in order.
-/

namespace Switchyard

/-! ### What is on the wire -/

namespace Fleet

variable {ω : Type} {n : Client ω} {r : Root} {c : Command}

/-- The answer to a pull holds commands of the root that are still to be run. -/
theorem exists_of_mem_answerTo (hc : c ∈ answerTo n r) : ∃ k sent,
    r.ledger.get? k = some sent ∧ sent.status.isRunnable = true ∧ c = sent.carried := by
  obtain ⟨sent, hsent, rfl⟩ := CommandTable.mem_decode_encode hc
  obtain ⟨k, hk, hrun, -⟩ := Ledger.mem_pullFor_iff.1 hsent
  exact ⟨k, sent, hk, hrun, rfl⟩

/-- A push holds commands of the client. -/
theorem exists_of_mem_report (hc : c ∈ report n) : ∃ k sent,
    n.ledger.get? k = some sent ∧ c = sent.carried := by
  obtain ⟨sent, hsent, rfl⟩ := CommandTable.mem_decode_encode hc
  obtain ⟨k, hk⟩ := Ledger.mem_values_iff.1 hsent
  exact ⟨k, sent, hk, rfl⟩

end Fleet

/-! ### Client by client -/

/-- What holds of a client in each phase of its cycle, whatever the root answers and whatever its
attempts come to. -/
structure Client.Kept {ω : Type} (P : Client ω → Phase → Prop) : Prop where
  congr : ∀ {n n' ph}, P n ph → n'.ledger = n.ledger → P n' ph
  receive : ∀ {n} r, P n .idle → P n (.received (Fleet.answerTo n r))
  take : ∀ {n cs}, P n (.received cs) →
    P (n.take cs).2 (.running (n.take cs).2.ledger.runnableKeys)
  turn : ∀ {n k ks}, P n (.running (k :: ks)) → P n (.after ks (n.beginning k))
  carryOut : ∀ {n given ks} now p, P n (.working given ks) →
    P (n.carryOut (dispatch now p) given).2 (.resumed ks (n.carryOut (dispatch now p) given).1)
  rest : ∀ {n}, P n (.running []) → P n .idle

namespace Fleet

variable {ι ω : Type} [DecidableEq ι] {p : ι → Protocol ω} {v : Fleet ι ω}

/-- What every step of a cycle keeps of a client, every event keeps of all clients. -/
theorem forall_client_step {P : Client ω → Phase → Prop} (hP : Client.Kept P)
    (h : ∀ i, P (v.client i) (v.phase i)) (e : Event ι ω) :
    ∀ i, P ((v.step p e).client i) ((v.step p e).phase i) := by
  have hone {j : ι} {n : Client ω} {ph : Phase} (hn : P n ph) :
      ∀ i, P ((v.withClient j n ph).client i) ((v.withClient j n ph).phase i) :=
    forall_withClient (P := fun _ n ph ↦ P n ph) h hn
  cases e with
  | submit now c => exact h
  | delete k => exact fun i ↦ by rw [step, client_delete, phase_delete]; exact h i
  | refit inventory archive roster => exact h
  | rearrange j inventory bench => exact hone (hP.congr (h j) rfl)
  | pull j arrives =>
    simp only [step, pull]
    split
    next _ _ hph => exact hone (hP.receive v.root (hph ▸ h j))
    next => exact h
  | take j =>
    simp only [step, take]
    split
    next cs hph => exact hone (hP.take (hph ▸ h j))
    next => exact h
  | turn j =>
    simp only [step, turn]
    split
    next k ks hph => exact hone (hP.turn (hph ▸ h j))
    next => exact h
  | carryOut j now =>
    simp only [step, carryOut]
    split
    next given ks hph => exact hone (hP.carryOut now (p j) (hph ▸ h j))
    next => exact h
  | push j now arrives =>
    simp only [step, push]
    split
    next hph => cases arrives <;> exact hone (hP.rest (hph ▸ h j))
    next => exact h

/-- Every event keeps the commands of the root under their own keys. -/
theorem keyed_root_step (h : v.root.ledger.Keyed) (e : Event ι ω) :
    (v.step p e).root.ledger.Keyed := by
  cases e with
  | submit now c => exact Root.keyed_submit h now c
  | delete k =>
    rw [step, delete]
    split
    next hd => exact h.delete hd
    next => exact h
  | refit inventory archive roster => exact h
  | rearrange i inventory bench => exact h
  | pull i arrives => rwa [step, root_pull]
  | take i => rwa [step, root_take]
  | turn i => rwa [step, root_turn]
  | carryOut i now => rwa [step, root_carryOut]
  | push i now arrives =>
    simp only [step, push]
    split
    · cases arrives with
      | false => exact h
      | true => exact Root.keyed_accept h now _
    · exact h

end Fleet

/-! ### Nothing new but on the list or in the hand -/

namespace Client

variable {ω : Type} {n : Client ω} {ph : Phase} {k : Key} {ks : List Key} {cs : List Command}
  {c given : Command}

/-- A client holds its commands under their own keys. What it has in its hand was handed over from
its ledger, and in its execution pass what is new is still to be done. -/
structure Steady (n : Client ω) (ph : Phase) : Prop where
  keyed : n.ledger.Keyed
  handed : ∀ given, ph.inHand = some given → n.ledger.HandsOver given
  listed : ∀ k c, n.ledger.get? k = some c → c.status = .new → ∀ ks, ph.todo? = some ks → k ∈ ks

/-- Before and after a pass only the keys matter. -/
theorem Steady.of_todo?_eq_none (h : n.ledger.Keyed) (hph : ph.todo? = none) : n.Steady ph := by
  refine ⟨h, fun given hhand ↦ ?_, fun k c _ _ ks htodo ↦ ?_⟩
  · obtain ⟨ks, rfl⟩ := Phase.inHand_eq_some_iff.1 hhand
    cases hph
  · rw [hph] at htodo
    cases htodo

/-- All that is still to be run is on the list when a pass begins. -/
theorem Steady.take (h : n.Steady (.received cs)) :
    Steady (n.take cs).2 (.running (n.take cs).2.ledger.runnableKeys) := by
  refine ⟨h.keyed.mergePulled cs, fun given hhand ↦ (by cases hhand), ?_⟩
  rintro k c hc hnew ks ⟨⟩
  exact Ledger.mem_runnableKeys_iff.2 ⟨c, hc, by rw [hnew]; rfl⟩

/-- What is new has its turn and is then in the hand. -/
theorem Steady.turn (h : n.Steady (.running (k :: ks))) :
    n.Steady (.after ks (n.beginning k)) := by
  cases hbegin : n.beginning k with
  | overflow => exact .of_todo?_eq_none h.keyed rfl
  | handOver given =>
    obtain ⟨hg, rfl⟩ := Node.handsOver_of_beginning h.keyed hbegin
    exact ⟨h.keyed, fun _ hhand ↦ Option.some.inj hhand ▸ hg, h.listed⟩
  | skip =>
    refine ⟨h.keyed, fun given hhand ↦ (by cases hhand), ?_⟩
    rintro k' c hc hnew ks' ⟨⟩
    refine (List.mem_cons.1 (h.listed k' c hc hnew _ rfl)).resolve_left ?_
    rintro rfl
    have hdone := Node.beginning_eq_skip_iff.1 hbegin c hc
    rw [hnew] at hdone
    cases hdone

/-- No attempt leaves anything new. -/
theorem Steady.carryOut (now : Time.Instant) (p : Protocol ω) (h : n.Steady (.working given ks)) :
    Steady (n.carryOut (dispatch now p) given).2
      (.resumed ks (n.carryOut (dispatch now p) given).1) := by
  have hg := h.handed given rfl
  have hkeyed := keyed_carryOut h.keyed hg now p
  cases ho : (n.carryOut (dispatch now p) given).1 with
  | none => exact .of_todo?_eq_none hkeyed rfl
  | some o =>
    refine ⟨hkeyed, fun given hhand ↦ (by cases hhand), ?_⟩
    rintro k c hc hnew ks' ⟨⟩
    rw [get?_carryOut hg ho] at hc
    split_ifs at hc with hdel hk
    · obtain ⟨_, -, -, hcomes⟩ := comes_of_carryOut hg ho
      exact absurd (Option.some.inj hc ▸ hnew) hcomes.status_ne_new
    · exact (List.mem_cons.1 (h.listed k c hc hnew _ rfl)).resolve_left hk

theorem kept_steady : Kept (@Steady ω) where
  congr h hn := by
    obtain ⟨hkeyed, hhanded, hlisted⟩ := h
    rw [← hn] at hkeyed hhanded hlisted
    exact ⟨hkeyed, hhanded, hlisted⟩
  receive _ h := .of_todo?_eq_none h.keyed rfl
  take h := h.take
  turn h := h.turn
  carryOut now p h := h.carryOut now p
  rest h := .of_todo?_eq_none h.keyed rfl

/-- A client that holds nothing new pushes nothing new. -/
theorem status_ne_new_of_mem_report (h : ∀ k c, n.ledger.get? k = some c → c.status ≠ .new)
    (hc : c ∈ Fleet.report n) : c.status ≠ .new := by
  obtain ⟨k, sent, hk, rfl⟩ := Fleet.exists_of_mem_report hc
  rw [Command.carried_status, ne_eq, Status.parse_text_eq_new_iff]
  exact h k sent hk

/-- At the end of its pass a client pushes nothing new. -/
theorem Steady.status_ne_new_of_mem_report (h : n.Steady (.running []))
    (hc : c ∈ Fleet.report n) : c.status ≠ .new :=
  Client.status_ne_new_of_mem_report
    (fun k d hd hnew ↦ List.not_mem_nil (h.listed k d hd hnew [] rfl)) hc

end Client

namespace Fleet

variable {ι ω : Type} {v : Fleet ι ω}

/-- A fleet in which the commands of the root stand under their own keys, and every client is
steady. -/
structure Steady (v : Fleet ι ω) : Prop where
  root : v.root.ledger.Keyed
  client : ∀ i, (v.client i).Steady (v.phase i)

/-- The root takes every push as a report. -/
theorem Steady.accept_report {i : ι} (h : v.Steady) (hph : v.phase i = .running [])
    (now : Time.Instant) : v.root.accept now (report (v.client i)) =
      v.root.acceptPush now (report (v.client i)) :=
  Root.accept_eq_acceptPush fun _ hc ↦
    Client.Steady.status_ne_new_of_mem_report (hph ▸ h.client i) hc

variable [DecidableEq ι] {p : ι → Protocol ω} {i : ι}

/-- What a push makes of a steady fleet. -/
theorem Steady.push_eq (h : v.Steady) (hph : v.phase i = .running []) (now : Time.Instant)
    (arrives : Bool) : v.push i now arrives =
      { v.withClient i (v.client i) .idle with
        root := if arrives then (v.root.acceptPush now (report (v.client i))).2 else v.root } := by
  simp only [Fleet.push, hph, client_withClient, root_withClient]
  cases arrives with
  | false => rfl
  | true => rw [if_pos rfl, if_pos rfl, h.accept_report hph]

/-- Every event keeps a fleet steady. -/
theorem Steady.step (h : v.Steady) (e : Event ι ω) : (v.step p e).Steady :=
  ⟨keyed_root_step h.root e, forall_client_step Client.kept_steady h.client e⟩

end Fleet

/-! ### Clients that started with empty ledgers -/

namespace Client

variable {ω : Type} {n : Client ω} {ph : Phase} {k : Key} {given : Command} {cs : List Command}
  {ks : List Key}

/-- A client so far in its cycle: it is steady, its keys came over the wire, and in its execution pass
what is still to be run is still to be done or waits for a device. The answer to a pull holds
commands that are still to be run, as they came over the wire. -/
structure Orderly (n : Client ω) (ph : Phase) : Prop where
  steady : n.Steady ph
  carried : ∀ k c, n.ledger.get? k = some c → ∃ sent : Command, sent.carried.key = k
  waiting : ∀ k c, n.ledger.get? k = some c → c.status.isRunnable = true →
    ∀ ks, ph.todo? = some ks →
      k ∈ ks ∨ c.status.isPending = true ∧ c.verb ∈ Handler.deviceVerbs
  answer : ∀ cs, ph = .received cs → ∀ c ∈ cs, c.status.isRunnable = true ∧
    ∃ sent : Command, sent.carried = c

theorem Orderly.keyed (h : n.Orderly ph) : n.ledger.Keyed := h.steady.keyed

theorem orderly_of_empty (h : n.ledger.commands = .empty) : n.Orderly .idle := by
  refine ⟨.of_todo?_eq_none (Ledger.Keyed.of_empty h) rfl, fun k c hc ↦ ?_,
    fun _ _ _ _ _ htodo ↦ (by cases htodo), fun cs hcs ↦ (by cases hcs)⟩
  rw [Ledger.get?_of_empty h] at hc
  cases hc

/-- The answer of the root is what a client may merge. -/
theorem Orderly.receive (r : Root) (h : n.Orderly .idle) :
    n.Orderly (.received (Fleet.answerTo n r)) := by
  refine ⟨kept_steady.receive r h.steady, h.carried, fun _ _ _ _ _ htodo ↦ (by cases htodo), ?_⟩
  rintro cs ⟨⟩ c hc
  obtain ⟨k, sent, -, hrun, rfl⟩ := Fleet.exists_of_mem_answerTo hc
  exact ⟨by rw [Command.carried_isRunnable, hrun], sent, rfl⟩

/-- After merging, all that is still to be run is on the list. -/
theorem Orderly.take (h : n.Orderly (.received cs)) :
    Orderly (n.take cs).2 (.running (n.take cs).2.ledger.runnableKeys) := by
  refine ⟨h.steady.take, fun k c hc ↦ ?_, ?_, fun ds hds ↦ (by cases hds)⟩
  · rcases Ledger.of_get?_mergePulled hc with hold | ⟨d, hd, hkey, -⟩
    · exact h.carried k c hold
    · obtain ⟨-, sent, rfl⟩ := h.answer cs rfl d hd
      exact ⟨sent, hkey⟩
  · rintro k c hc hrun ks ⟨⟩
    exact Or.inl (Ledger.mem_runnableKeys_iff.2 ⟨c, hc, hrun⟩)

/-- What has had its turn is in the hand or done, so it may go from the list. -/
theorem Orderly.turn (h : n.Orderly (.running (k :: ks))) :
    n.Orderly (.after ks (n.beginning k)) := by
  refine ⟨h.steady.turn, h.carried, ?_, ?_⟩
  · cases hbegin : n.beginning k with
    | overflow => exact fun _ _ _ _ _ htodo ↦ (by cases htodo)
    | handOver given =>
      obtain ⟨-, rfl⟩ := Node.handsOver_of_beginning h.keyed hbegin
      exact h.waiting
    | skip =>
      rintro k' c hc hrun ks' ⟨⟩
      refine (h.waiting k' c hc hrun _ rfl).imp_left fun hmem ↦ ?_
      refine (List.mem_cons.1 hmem).resolve_left ?_
      rintro rfl
      have hdone := Node.beginning_eq_skip_iff.1 hbegin c hc
      exact absurd hrun (Status.not_isRunnable_of_isTerminal hdone)
  · intro cs hcs
    cases hbegin : n.beginning k <;> rw [hbegin] at hcs <;> cases hcs

/-- What was attempted is done or waits. -/
theorem Orderly.carryOut (now : Time.Instant) (p : Protocol ω) (h : n.Orderly (.working given ks)) :
    Orderly (n.carryOut (dispatch now p) given).2
      (.resumed ks (n.carryOut (dispatch now p) given).1) := by
  have hg := h.steady.handed given rfl
  refine ⟨h.steady.carryOut now p, ?_, ?_, ?_⟩
  · intro k c hc
    cases ho : (n.carryOut (dispatch now p) given).1 with
    | none =>
      rw [get?_carryOut_of_none ho] at hc
      exact h.carried k c hc
    | some o =>
      rw [get?_carryOut hg ho] at hc
      split_ifs at hc with hdel hk
      · obtain ⟨before, hbefore, -⟩ := comes_of_carryOut hg ho
        exact hk ▸ h.carried _ before hbefore
      · exact h.carried k c hc
  · cases ho : (n.carryOut (dispatch now p) given).1 with
    | none => exact fun _ _ _ _ _ htodo ↦ (by cases htodo)
    | some o =>
      rintro k c hc hrun ks' ⟨⟩
      rw [get?_carryOut hg ho] at hc
      split_ifs at hc with hdel hk
      · obtain rfl := Option.some.inj hc
        obtain ⟨_, -, -, hcomes⟩ := comes_of_carryOut hg ho
        rcases hcomes.status with hdone | ⟨hwait, hverb, -⟩
        · exact absurd hrun (Status.not_isRunnable_of_isTerminal hdone)
        · exact Or.inr ⟨hwait, hverb⟩
      · exact (h.waiting k c hc hrun _ rfl).imp_left fun hmem ↦
          (List.mem_cons.1 hmem).resolve_left hk
  · intro cs hcs
    cases ho : (n.carryOut (dispatch now p) given).1 <;> rw [ho] at hcs <;> cases hcs

theorem kept_orderly : Kept (@Orderly ω) where
  congr h hn := by
    obtain ⟨hsteady, hcarried, hwaiting, hanswer⟩ := h
    rw [← hn] at hcarried hwaiting
    exact ⟨kept_steady.congr hsteady hn, hcarried, hwaiting, hanswer⟩
  receive r h := h.receive r
  take h := h.take
  turn h := h.turn
  carryOut now p h := h.carryOut now p
  rest h := ⟨kept_steady.rest h.steady, h.carried, fun _ _ _ _ _ htodo ↦ (by cases htodo),
    fun cs hcs ↦ (by cases hcs)⟩

end Client

/-! ### Fleets -/

namespace Fleet

variable {ι ω : Type} {v : Fleet ι ω}

/-- A fleet in order: the commands of the root stand under their own keys, and every client is in
order. -/
structure Orderly (v : Fleet ι ω) : Prop where
  root : v.root.ledger.Keyed
  client : ∀ i, (v.client i).Orderly (v.phase i)

/-- A fleet in which a run begins: all clients are at rest, with empty ledgers. -/
structure Fresh (v : Fleet ι ω) : Prop where
  root : v.root.ledger.Keyed
  ledger : ∀ i, (v.client i).ledger.commands = .empty
  phase : ∀ i, v.phase i = .idle

theorem fresh_start (now : Time.Instant) (owner : String) (archive : Archive) (name : ι → String)
    (network : ι → ω) : (start now owner archive name network).Fresh :=
  ⟨Ledger.Keyed.of_empty rfl, fun _ ↦ rfl, fun _ ↦ rfl⟩

theorem Fresh.orderly (h : v.Fresh) : v.Orderly :=
  ⟨h.root, fun i ↦ h.phase i ▸ Client.orderly_of_empty (h.ledger i)⟩

theorem Orderly.steady (h : v.Orderly) : v.Steady :=
  ⟨h.root, fun i ↦ (h.client i).steady⟩

/-- A client that pushes carries nothing new to the root. -/
theorem Orderly.status_ne_new_of_mem_report {i : ι} {c : Command} (h : v.Orderly)
    (hph : v.phase i = .running []) (hc : c ∈ report (v.client i)) : c.status ≠ .new :=
  Client.Steady.status_ne_new_of_mem_report (hph ▸ h.steady.client i) hc

/-- What is in the hand of a client was handed over from its ledger. -/
theorem Steady.handsOver {i : ι} {given : Command} {ks : List Key} (h : v.Steady)
    (hph : v.phase i = .working given ks) : (v.client i).ledger.HandsOver given :=
  (h.client i).handed given (by rw [hph]; rfl)

theorem Orderly.handsOver {i : ι} {given : Command} {ks : List Key} (h : v.Orderly)
    (hph : v.phase i = .working given ks) : (v.client i).ledger.HandsOver given :=
  h.steady.handsOver hph

/-- The root takes every push as a report. -/
theorem Orderly.accept_report {i : ι} (h : v.Orderly) (hph : v.phase i = .running [])
    (now : Time.Instant) : v.root.accept now (report (v.client i)) =
      v.root.acceptPush now (report (v.client i)) :=
  h.steady.accept_report hph now

variable [DecidableEq ι] {p : ι → Protocol ω} {i : ι}

/-- What a push makes of a fleet in order. -/
theorem Orderly.push_eq (h : v.Orderly) (hph : v.phase i = .running []) (now : Time.Instant)
    (arrives : Bool) : v.push i now arrives =
      { v.withClient i (v.client i) .idle with
        root := if arrives then (v.root.acceptPush now (report (v.client i))).2 else v.root } :=
  h.steady.push_eq hph now arrives

/-- Every event keeps a fleet in order. -/
theorem Orderly.step (h : v.Orderly) (e : Event ι ω) : (v.step p e).Orderly :=
  ⟨keyed_root_step h.root e, forall_client_step Client.kept_orderly h.client e⟩

/-- Every run keeps a fleet in order. -/
theorem Orderly.run (h : v.Orderly) (es : List (Event ι ω)) : (run p es v).Orderly := by
  induction es generalizing v with
  | nil => exact h
  | cons e es ih => exact ih (h.step e)

end Fleet

end Switchyard
