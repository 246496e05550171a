import Switchyard.Proofs.Http.Pull
import Switchyard.Proofs.Http.Turns

/-!
# Commands that the root runs itself

A command about snapshots is written as one record, is run at once, and stands from then on under
the name of the root with its outcome. Reports cannot take it back, since it is done, and no client
is offered it, for the same reason. An operator may give it again: it has the same words, so the
root runs it again. Only a deletion takes it away.

## Main definitions

* `Root.ownRun` : what carrying out a command of the root comes to.
* `Root.Owns` : under a key stands something that the root has done itself.

## Main results

* `Root.Owns.turn` : only a deletion takes it away.
* `Root.own_command_stays` : what becomes of a command of the root, in every course of events.
-/

namespace Switchyard

namespace Root

open Command Handler

variable {r : Root} {now : Time.Instant} {c : Command} {k : Key}

/-! ### One run -/

/-- The root when a command of its own begins to run: the command is stored. -/
def withOwn (now : Time.Instant) (c : Command) (r : Root) : Root :=
  r.withLedger (r.ledger.store (Ledger.renewed now (r.asOwn now c)))

/-- What carrying out a command of the root comes to: the answer, and the node after it. -/
def ownRun (now : Time.Instant) (c : Command) (r : Root) : Command × Node Archive :=
  (r.dispatch now).run (r.asOwn now c) (r.withOwn now c).node

/-- If the root writes anything, it is one record, and the command is carried out once. -/
theorem runOwn_eq (h : (r.runOwn now c).1 ≠ []) : r.runOwn now c =
    ([c.key], { r with node := (r.ownRun now c).2.complete (r.ownRun now c).1 }) := by
  rw [runOwn] at h ⊢
  simp only [give_asOwn, Ledger.giveCopies_singleton] at h ⊢
  cases hstored : (r.ledger.giveCopy (Ledger.renewed now (r.asOwn now c))).1 with
  | false => simp [hstored] at h
  | true => rfl

/-- The answer is what stands in the ledger afterwards, and nothing else is touched there. -/
theorem get?_complete_ownRun (now : Time.Instant) (c : Command) (r : Root) (k : Key) :
    ((r.ownRun now c).2.complete (r.ownRun now c).1).ledger.get? k =
      if k = c.key then some (r.ownRun now c).1 else r.ledger.get? k := by
  have hkeeps : Keeps (r.asOwn now c) (r.withOwn now c).node (r.ownRun now c) := keeps_run ..
  have hkey : (r.ownRun now c).1.key = c.key := hkeeps.answer.key.trans (key_asOwn now c r)
  have hstarted (k : Key) : (r.ownRun now c).2.ledger.get? k =
      if k = c.key then some (Ledger.renewed now (r.asOwn now c)) else r.ledger.get? k := by
    rw [hkeeps.ledger]
    exact Ledger.get?_store _ r.ledger k
  rw [Node.complete, Ledger.get?_complete, hkey, hstarted]
  by_cases hk : k = c.key
  · rw [if_pos hk.symm, if_pos hk, if_pos hk]
    rfl
  · rw [if_neg (Ne.symm hk), if_neg hk, if_neg hk]

/-- The words of the commands that the root takes for its own. -/
theorem words_of_isForRoot (h : isForRoot c.text = true) :
    c.words = ["devices", "save"] ∨ c.words = ["devices", "load"] ∨
      (∃ file, c.words = ["devices", "load", file]) ∨ c.words = ["devices", "files", "list"] := by
  unfold isForRoot at h
  split at h
  next hw => exact Or.inl hw
  next hw => exact Or.inr (Or.inl hw)
  next hw => exact Or.inr (Or.inr (Or.inl ⟨_, hw⟩))
  next hw => exact Or.inr (Or.inr (Or.inr hw))
  next => cases h

theorem mem_snapshotVerbs (h : isForRoot c.text = true) : c.verb ∈ snapshotVerbs := by
  rcases words_of_isForRoot h with hw | hw | ⟨file, hw⟩ | hw <;>
    exact List.mem_singleton.2 (verb_of_words hw)

/-- The handler of snapshots understands all that the root takes for its own. -/
theorem isSome_snapshotAction (h : isForRoot c.text = true) (now : Time.Instant)
    (n : Node Archive) : (snapshotAction now c.words n).isSome = true := by
  rcases words_of_isForRoot h with hw | hw | ⟨file, hw⟩ | hw <;>
  · rw [hw]
    rfl

/-- The handler of snapshots carries the command out, where the root keeps snapshots; otherwise
nobody does, and the command is invalid. -/
theorem ownRun_eq (h : isForRoot c.text = true) (now : Time.Instant) (r : Root) :
    r.ownRun now c =
      if r.keepsSnapshots = true then snapshot now (r.asOwn now c) (r.withOwn now c).node
      else ((r.asOwn now c).invalid, (r.withOwn now c).node) := by
  have hserves := dispatch_verb now r (r.asOwn now c).verb
  have hverb : (r.asOwn now c).verb ∈ snapshotVerbs := mem_snapshotVerbs h
  rw [ownRun]
  split
  next hkeeps =>
    rw [if_pos ⟨hkeeps, hverb⟩] at hserves
    exact Dispatch.run_eq_of_isAnswer hserves (keeps_snapshot now _ _).answer
  next hkeeps =>
    rw [if_neg fun hboth ↦ hkeeps hboth.1] at hserves
    exact Dispatch.run_eq_of_none hserves _

/-! ### What stands afterwards -/

/-- Under a key stands something that is done, with the name of the root. -/
def Owns (k : Key) (r : Root) : Prop :=
  ∃ a, r.ledger.get? k = some a ∧ a.status.isTerminal = true ∧ a.node = r.ledger.owner

/-- What is written of a command has its text. -/
theorem text_of_mem_submit (h : k ∈ (r.submit now c).1) : k.text = (asMeant c).text := by
  cases hown : isForRoot (asMeant c).text with
  | true =>
    rw [submit_of_isForRoot hown] at h
    rw [runOwn_eq (List.ne_nil_of_mem h), List.mem_singleton] at h
    rw [h]
    rfl
  | false =>
    rw [submit_of_not_isForRoot hown] at h
    obtain ⟨d, hd, rfl, -⟩ := Ledger.get?_give_of_mem h
    unfold Ledger.copies at hd
    split at hd
    · obtain ⟨client, -, rfl⟩ := List.mem_map.1 hd
      rfl
    · rw [List.mem_singleton.1 hd]
      rfl

/-- When the same words are given again, the root runs them again. -/
theorem Owns.submit (h : Owns k r) (hk : isForRoot k.text = true) (now : Time.Instant)
    (c : Command) : Owns k (r.submit now c).2 := by
  by_cases hmem : k ∈ (r.submit now c).1
  swap
  · obtain ⟨a, ha, hdone, hnode⟩ := h
    exact ⟨a, (get?_submit_of_not_mem hmem).trans ha, hdone, by rw [owner_submit, hnode]⟩
  have hown : isForRoot (asMeant c).text = true := text_of_mem_submit hmem ▸ hk
  rw [submit_of_isForRoot hown] at hmem ⊢
  rcases runOwn_cases now (asMeant c) r with hnone | ⟨a, hdone, hanswer, hkeys, howner, hget⟩
  · rw [hnone] at hmem
    cases hmem
  · rw [hkeys, List.mem_singleton] at hmem
    exact ⟨a, by rw [hget, if_pos hmem], hdone, by rw [howner, hanswer.node]; rfl⟩

theorem Owns.acceptPush (h : Owns k r) (now : Time.Instant) (cs : List Command) :
    Owns k (r.acceptPush now cs).2 := by
  obtain ⟨a, ha, hdone, hnode⟩ := h
  refine ⟨a, Ledger.get?_mergePushed_of_isTerminal ha hdone cs, hdone, ?_⟩
  rw [ledger_acceptPush, Ledger.owner_mergePushed, hnode]

/-- Whatever happens at the root, only a deletion takes away what it has done itself. -/
theorem Owns.turn (h : Owns k r) (hk : isForRoot k.text = true) {t : Turn} (ht : t ≠ .delete k) :
    Owns k (r.turn t) := by
  cases t with
  | submit now c => exact h.submit hk now c
  | accept now cs =>
    exact accept_induction h (fun _ h c _ _ ↦ h.submit hk now c) fun _ h ds _ ↦
      h.acceptPush now ds
  | acceptPush now cs => exact h.acceptPush now cs
  | delete k' =>
    have hne : k ≠ k' := fun heq ↦ ht (heq ▸ rfl)
    obtain ⟨a, ha, hdone, hnode⟩ := h
    refine ⟨a, ?_, hdone, hnode.trans (owner_turn (.delete k') r).symm⟩
    rw [Root.turn, get?_delete, if_neg hne, ha]
  | acceptDevices now ds => exact h
  | register now a => exact h

theorem Owns.after (h : Owns k r) (hk : isForRoot k.text = true) {ts : List Turn}
    (hts : .delete k ∉ ts) : Owns k (r.after ts) := by
  induction ts generalizing r with
  | nil => exact h
  | cons t ts ih =>
    have hfirst : t ≠ .delete k := fun heq ↦ hts (heq ▸ List.mem_cons_self)
    exact ih (h.turn hk hfirst) fun hmem ↦ hts (List.mem_cons_of_mem t hmem)

/-- What is done is offered to nobody. -/
theorem Owns.not_offered (h : Owns k r) (hr : r.ledger.Keyed) (client : String) :
    ∀ d ∈ r.ledger.pullFor client, d.key ≠ k := by
  rintro d hd rfl
  obtain ⟨a, ha, hdone, -⟩ := h
  obtain ⟨k, hget, hrun, -, -⟩ := Ledger.mem_pullFor_iff.1 hd
  obtain rfl := hr k d hget
  obtain rfl := Option.some.inj (hget.symm.trans ha)
  exact absurd hrun (Status.not_isRunnable_of_isTerminal hdone)

/-! ### The whole story -/

/-- What becomes of a command of the root, with or without the flag or the word for all clients,
given alone or in a table, after any turns and before any others. If it is written at all, it is
one record under its own key, and it is carried out once: the root is as one run of the handler of
snapshots leaves it, which understands the command, or the command is invalid where the root keeps
no snapshots. The record is the answer, done and with the name of the root. It stays as it is until
an operator touches its key, and it stays done, with the name of the root, and is offered to no
client, until an operator deletes it, whatever else happens at the root or is asked of it over
HTTP. -/
theorem own_command_stays (hr : r.ledger.Keyed) {turns earlier later : List Turn}
    (hsteps : turns.flatMap Turn.steps = earlier ++ .submit now c :: later)
    (hown : isForRoot (asMeant c).text = true)
    (hkeys : ((r.after earlier).submit now c).1 ≠ []) :
    let before := r.after earlier
    let k := (asMeant c).key
    let started := (before.withOwn now (asMeant c)).node
    let outcome := before.ownRun now (asMeant c)
    let given := (before.submit now c).2
    r.after turns = given.after later ∧
    (before.submit now c).1 = [k] ∧
    given = { before with node := outcome.2.complete outcome.1 } ∧
    outcome = (
      if before.keepsSnapshots = true then snapshot now (before.asOwn now (asMeant c)) started
      else ((before.asOwn now (asMeant c)).invalid, started)) ∧
    (snapshotAction now (before.asOwn now (asMeant c)).words started).isSome = true ∧
    (∀ k', given.ledger.get? k' = if k' = k then some outcome.1 else before.ledger.get? k') ∧
    outcome.1.status.isTerminal = true ∧ outcome.1.node = r.ledger.owner ∧
    ∀ soon : List Turn,
      (k ∉ writtenIn soon given → (given.after soon).ledger.get? k = some outcome.1) ∧
      (.delete k ∉ soon →
        Owns k (given.after soon) ∧
        (∀ client, ∀ d ∈ (given.after soon).ledger.pullFor client, d.key ≠ k) ∧
        ∀ (s : Http.Surface) qs, s.root = given.after soon →
          (∀ q ∈ qs, q.2.deletes? ≠ some k) →
          ∀ client, ∀ d ∈ (s.after qs).root.ledger.pullFor client, d.key ≠ k) := by
  intro before k started outcome given
  have hgiven : before.submit now c =
      ([k], { before with node := outcome.2.complete outcome.1 }) := by
    rw [submit_of_isForRoot hown] at hkeys ⊢
    exact runOwn_eq hkeys
  have hget (k' : Key) :
      given.ledger.get? k' = if k' = k then some outcome.1 else before.ledger.get? k' := by
    change (before.submit now c).2.ledger.get? k' = _
    rw [hgiven]
    exact get?_complete_ownRun now (asMeant c) before k'
  have hdone : outcome.1.status.isTerminal = true := isTerminal_run now before _ _
  have howner : before.ledger.owner = r.ledger.owner := owner_after earlier r
  have hnode : outcome.1.node = before.ledger.owner := (keeps_run now before _ _).answer.node
  have hkeyed : given.ledger.Keyed := keyed_submit (keyed_after hr earlier) now c
  have howns : Owns k given := by
    refine ⟨outcome.1, by rw [hget, if_pos rfl], hdone, ?_⟩
    rw [hnode, ← owner_submit now c before]
  refine ⟨?_, congrArg Prod.fst hgiven, congrArg Prod.snd hgiven,
    ownRun_eq hown now before, isSome_snapshotAction hown now _, hget, hdone, hnode.trans howner,
    fun soon ↦ ⟨fun hk ↦ ?_, fun hk ↦ ?_⟩⟩
  · rw [← after_steps, hsteps, after_append]
    rfl
  · exact get?_after_of_isTerminal (by rw [hget, if_pos rfl]) hdone hk
  · have hsoon : Owns k (given.after soon) := howns.after hown hk
    refine ⟨hsoon, hsoon.not_offered (keyed_after hkeyed soon), fun s qs hs hqs ↦ ?_⟩
    obtain ⟨ts, hts, hdeleted⟩ := Http.exists_after_eq_after s qs
    have hkept : .delete k ∉ ts := by
      intro hmem
      obtain ⟨q, hq, hdeletes⟩ := hdeleted k hmem
      exact hqs q hq hdeletes
    rw [hts, hs]
    exact (hsoon.after hown hkept).not_offered (keyed_after (keyed_after hkeyed soon) ts)

/-- A root without snapshots. -/
def archivist : Root := { node := ⟨{ owner := "root" }, .listened, ⟨"", .nothing⟩⟩ }

/-- The list of snapshots is asked for, of all clients, in a table. -/
def listing : Command := .new default "all devices files list"

/-- A client says that it waits with the listing of the root. -/
def meddling : Command :=
  { text := "devices files list", status := .pending "device not found", node := "c1" }

/-- The listing stands under the name of the root and is offered to no client, after a client has
reported it as waiting and has announced itself. -/
theorem own_command_stays_of_listing :
    let r := archivist.after [.accept default [listing], .acceptPush default [meddling],
      .register default { name := "c1" }]
    Owns ⟨none, "devices files list"⟩ r ∧
      ∀ client, ∀ d ∈ r.ledger.pullFor client, d.key ≠ ⟨none, "devices files list"⟩ := by
  have hmeant : (asMeant listing).text = "devices files list" := by decide +kernel
  have hempty : archivist.ledger.Keyed := Ledger.Keyed.of_empty rfl
  have hsteps : [.accept default [listing], .acceptPush default [meddling],
      .register default { name := "c1" }].flatMap Turn.steps =
        [] ++ .submit default listing :: [.acceptPush default [], .acceptPush default [meddling],
          .register default { name := "c1" }] := rfl
  obtain ⟨hall, -, -, -, -, -, -, -, hstays⟩ :=
    own_command_stays hempty hsteps (by rw [hmeant]; decide +kernel) (by decide +kernel)
  obtain ⟨-, hkept⟩ := hstays [.acceptPush default [], .acceptPush default [meddling],
    .register default { name := "c1" }]
  have hkey : (asMeant listing).key = ⟨none, "devices files list"⟩ := by decide +kernel
  obtain ⟨howns, hoffered, -⟩ := hkept (by simp)
  rw [hkey] at howns hoffered
  rw [← hall] at howns hoffered
  exact ⟨howns, hoffered⟩

end Root

end Switchyard
