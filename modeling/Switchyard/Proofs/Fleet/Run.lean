import Mathlib.Logic.Function.Basic
import Switchyard.Proofs.Node.Attempt
import Switchyard.Proofs.Root.Submit
import Switchyard.Rehearsal.Stage

/-!
# Runs of a root and its clients

A fleet is a root and any number of clients, each of which may be in the middle of a cycle. Its
events are the single steps of the cycles, in any order: the root answers a pull or the pull fails,
the client merges the answer, it hands the next command of its pass over, it comes to an outcome,
its push arrives or is lost. While a client works on a command, the root and the other clients go
on. Between the events operators give and delete commands, and devices, archive, roster and network
may change in any way.

A cycle of a client is a run of such events without anything in between, so what holds for all runs
holds for all cycles, one after the other or interleaved.

## Main definitions

* `Phase` : how far a client is in its cycle, and the command in its hand.
* `Fleet`, `Fleet.Event`, `Fleet.step`, `Fleet.run` : the root with its clients, and what happens.
* `Fleet.start` : the fleet before anything happens.
* `Fleet.seen` : what an observer of a run notes, event by event.
* `Fleet.written` : the keys that operators touch.
* `Fleet.begun`, `Fleet.outcomes` : the attempts that a client begins, and what they come to.
* `Fleet.Moves` : what an event may be to a client.

## Main results

* `Fleet.moves_step` : every event is one of these to each client.
* `Fleet.run_cycleEvents` : a cycle over a link that may fail is a run.
-/

namespace Switchyard

/-- How far a client is in its cycle: at rest, with an answer to its pull, in its execution pass with
some keys left, or at work on a command that was handed over, with some keys left after it. With no
keys left it is about to push. -/
inductive Phase where
  | idle
  | received (cs : List Command)
  | running (ks : List Key)
  | working (given : Command) (ks : List Key)

namespace Phase

/-- How a pass goes on after the turn of a key, with some keys left. A pass that ends at a turn
leaves the client at rest. -/
def after (ks : List Key) : Beginning → Phase
  | .skip => .running ks
  | .overflow => .idle
  | .handOver given => .working given ks

/-- How a pass goes on after an attempt, with some keys left. An attempt without an outcome ends the
pass. -/
def resumed (ks : List Key) (outcome : Option Command) : Phase :=
  if outcome.isSome then .running ks else .idle

/-- The command that a client has in its hand. -/
def inHand : Phase → Option Command
  | .working given _ => some given
  | _ => none

/-- The keys that an execution pass has not done yet, if the client is in one. -/
def todo? : Phase → Option (List Key)
  | .running ks => some ks
  | .working given ks => some (given.key :: ks)
  | _ => none

theorem inHand_eq_some_iff {ph : Phase} {given : Command} :
    ph.inHand = some given ↔ ∃ ks, ph = .working given ks := by
  cases ph <;> simp [inHand]

@[simp] theorem inHand_resumed (ks : List Key) (outcome : Option Command) :
    (resumed ks outcome).inHand = none := by
  rw [resumed]
  split <;> rfl

end Phase

/-- A root and its clients, named by `ι`. -/
structure Fleet (ι ω : Type) where
  root : Root
  client : ι → Client ω
  phase : ι → Phase

namespace Fleet

variable {ι ω : Type}

/-- A root that just started, and clients of the given names that did. -/
def start (now : Time.Instant) (owner : String) (archive : Archive) (name : ι → String)
    (network : ι → ω) : Fleet ι ω where
  root := { node := ⟨{ owner }, .listened, archive⟩ }
  client i := .start now (name i) .default (network i)
  phase _ := .idle

/-- What may happen in a fleet. A call of a client arrives or fails. -/
inductive Event (ι ω : Type) where
  | submit (now : Time.Instant) (c : Command)
  | delete (k : Key)
  | refit (inventory : Inventory) (archive : Archive) (roster : Roster)
  | rearrange (i : ι) (inventory : Inventory) (bench : Bench ω)
  | pull (i : ι) (arrives : Bool)
  | take (i : ι)
  | turn (i : ι)
  | carryOut (i : ι) (now : Time.Instant)
  | push (i : ι) (now : Time.Instant) (arrives : Bool)

/-! ### Single steps -/

/-- An operator deletes a command at the root. -/
def delete (k : Key) (v : Fleet ι ω) : Fleet ι ω :=
  match v.root.ledger.delete k with
  | .ok (_, ledger) => { v with root := v.root.withLedger ledger }
  | .error _ => v

/-- Devices, archive and roster of the root change. -/
def refit (inventory : Inventory) (archive : Archive) (roster : Roster) (v : Fleet ι ω) :
    Fleet ι ω :=
  { v with root := { v.root with node := ⟨v.root.ledger, inventory, archive⟩, roster } }

/-- What the root answers to a pull of a client, read from the wire. -/
def answerTo (n : Client ω) (r : Root) : List Command :=
  CommandTable.decode (.encode (r.ledger.pullFor n.ledger.owner))

/-- What a client pushes, read from the wire. -/
def report (n : Client ω) : List Command := CommandTable.decode (.encode n.ledger.commands.values)

variable [DecidableEq ι]

/-- The fleet with another state of one client. -/
def withClient (i : ι) (n : Client ω) (ph : Phase) (v : Fleet ι ω) : Fleet ι ω :=
  { v with client := Function.update v.client i n, phase := Function.update v.phase i ph }

/-- Devices, intervals and network of a client change. -/
def rearrange (i : ι) (inventory : Inventory) (bench : Bench ω) (v : Fleet ι ω) : Fleet ι ω :=
  v.withClient i ⟨(v.client i).ledger, inventory, bench⟩ (v.phase i)

/-- A client at rest pulls. Nothing changes if the pull fails. -/
def pull (i : ι) (arrives : Bool) (v : Fleet ι ω) : Fleet ι ω :=
  match v.phase i, arrives with
  | .idle, true => v.withClient i (v.client i) (.received (answerTo (v.client i) v.root))
  | _, _ => v

/-- A client merges the answer to its pull and begins its execution pass. -/
def take (i : ι) (v : Fleet ι ω) : Fleet ι ω :=
  match v.phase i with
  | .received cs =>
    let n := ((v.client i).take cs).2
    v.withClient i n (.running n.ledger.runnableKeys)
  | _ => v

/-- The turn of the next key in the execution pass of a client: its command is handed over, if it is
there and still to be run. -/
def turn (i : ι) (v : Fleet ι ω) : Fleet ι ω :=
  match v.phase i with
  | .running (k :: ks) => v.withClient i (v.client i) (.after ks ((v.client i).beginning k))
  | _ => v

/-- A client carries out the command in its hand and keeps the outcome. -/
def carryOut (p : ι → Protocol ω) (i : ι) (now : Time.Instant) (v : Fleet ι ω) : Fleet ι ω :=
  match v.phase i with
  | .working given ks =>
    let (outcome, n) := (v.client i).carryOut (Client.dispatch now (p i)) given
    v.withClient i n (.resumed ks outcome)
  | _ => v

/-- A client pushes its whole ledger and is at rest again. The root learns of it only if the push
arrives. -/
def push (i : ι) (now : Time.Instant) (arrives : Bool) (v : Fleet ι ω) : Fleet ι ω :=
  match v.phase i with
  | .running [] =>
    let v := v.withClient i (v.client i) .idle
    if arrives then { v with root := (v.root.accept now (report (v.client i))).2 } else v
  | _ => v

/-- One event. The clients reach their devices through the protocols `p`. -/
def step (p : ι → Protocol ω) : Event ι ω → Fleet ι ω → Fleet ι ω
  | .submit now c, v => { v with root := (v.root.submit now c).2 }
  | .delete k, v => v.delete k
  | .refit inventory archive roster, v => v.refit inventory archive roster
  | .rearrange i inventory bench, v => v.rearrange i inventory bench
  | .pull i arrives, v => v.pull i arrives
  | .take i, v => v.take i
  | .turn i, v => v.turn i
  | .carryOut i now, v => v.carryOut p i now
  | .push i now arrives, v => v.push i now arrives

/-! ### Runs -/

/-- The fleet after some events. -/
def run (p : ι → Protocol ω) : List (Event ι ω) → Fleet ι ω → Fleet ι ω
  | [], v => v
  | e :: es, v => run p es (v.step p e)

/-- What an observer notes in a run, who sees each event and the fleet just before it. -/
def seen {α : Type} (p : ι → Protocol ω) (look : Event ι ω → Fleet ι ω → List α) :
    List (Event ι ω) → Fleet ι ω → List α
  | [], _ => []
  | e :: es, v => look e v ++ seen p look es (v.step p e)

/-- The keys that an operator writes or deletes. -/
def written : Event ι ω → Fleet ι ω → List Key
  | .submit now c, v => (v.root.submit now c).1
  | .delete k, _ => [k]
  | _, _ => []

/-- The commands that are handed over in the execution pass of a client. -/
def begun (i : ι) : Event ι ω → Fleet ι ω → List Command
  | .turn j, v =>
    match v.phase j with
    | .running (k :: ks) =>
      if j = i then (Phase.after ks ((v.client i).beginning k)).inHand.toList else []
    | _ => []
  | _, _ => []

/-- What an attempt of a client comes to. -/
def outcomes (p : ι → Protocol ω) (i : ι) : Event ι ω → Fleet ι ω → List Command
  | .carryOut j now, v =>
    match v.phase j with
    | .working given _ =>
      if j = i then ((v.client i).carryOut (Client.dispatch now (p i)) given).1.toList else []
    | _ => []
  | _, _ => []

variable {p : ι → Protocol ω} {v : Fleet ι ω} {i j : ι}

theorem run_append (es fs : List (Event ι ω)) (v : Fleet ι ω) :
    run p (es ++ fs) v = run p fs (run p es v) := by
  induction es generalizing v with
  | nil => rfl
  | cons e es ih => exact ih _

theorem seen_append {α : Type} (look : Event ι ω → Fleet ι ω → List α)
    (es fs : List (Event ι ω)) (v : Fleet ι ω) :
    seen p look (es ++ fs) v = seen p look es v ++ seen p look fs (run p es v) := by
  induction es generalizing v with
  | nil => rfl
  | cons e es ih => rw [List.cons_append, seen, ih, seen, run, List.append_assoc]

theorem forall_mem_seen_cons {α : Type} {look : Event ι ω → Fleet ι ω → List α} {P : α → Prop}
    {e : Event ι ω} {es : List (Event ι ω)} : (∀ a ∈ seen p look (e :: es) v, P a) ↔
      (∀ a ∈ look e v, P a) ∧ ∀ a ∈ seen p look es (v.step p e), P a :=
  List.forall_mem_append

/-! ### One client at a time -/

@[simp] theorem root_withClient (i : ι) (n : Client ω) (ph : Phase) (v : Fleet ι ω) :
    (v.withClient i n ph).root = v.root := rfl

@[simp] theorem client_withClient (i : ι) (n : Client ω) (ph : Phase) (v : Fleet ι ω) :
    (v.withClient i n ph).client i = n := Function.update_self ..

@[simp] theorem phase_withClient (i : ι) (n : Client ω) (ph : Phase) (v : Fleet ι ω) :
    (v.withClient i n ph).phase i = ph := Function.update_self ..

theorem client_withClient_of_ne (h : j ≠ i) (n : Client ω) (ph : Phase) (v : Fleet ι ω) :
    (v.withClient i n ph).client j = v.client j := Function.update_of_ne h ..

theorem phase_withClient_of_ne (h : j ≠ i) (n : Client ω) (ph : Phase) (v : Fleet ι ω) :
    (v.withClient i n ph).phase j = v.phase j := Function.update_of_ne h ..

/-- What holds of every client still does when one of them changes to a state of which it holds. -/
theorem forall_withClient {P : ι → Client ω → Phase → Prop}
    (h : ∀ j, P j (v.client j) (v.phase j)) {n : Client ω} {ph : Phase} (hi : P i n ph) (j : ι) :
    P j ((v.withClient i n ph).client j) ((v.withClient i n ph).phase j) := by
  by_cases hj : j = i
  · subst hj
    simpa using hi
  · rw [client_withClient_of_ne hj, phase_withClient_of_ne hj]
    exact h j

theorem withClient_withClient (i : ι) (n n' : Client ω) (ph ph' : Phase) (v : Fleet ι ω) :
    (v.withClient i n ph).withClient i n' ph' = v.withClient i n' ph' := by
  simp [withClient]

theorem withClient_eq_self {n : Client ω} {ph : Phase} (hn : v.client i = n)
    (hph : v.phase i = ph) : v.withClient i n ph = v := by
  subst hn hph
  simp [withClient]

@[simp] theorem root_pull (i : ι) (arrives : Bool) (v : Fleet ι ω) :
    (v.pull i arrives).root = v.root := by
  unfold pull
  split <;> rfl

@[simp] theorem root_take (i : ι) (v : Fleet ι ω) : (v.take i).root = v.root := by
  rw [take]
  split <;> rfl

@[simp] theorem root_turn (i : ι) (v : Fleet ι ω) : (v.turn i).root = v.root := by
  rw [turn]
  split <;> rfl

@[simp] theorem root_carryOut (p : ι → Protocol ω) (i : ι) (now : Time.Instant) (v : Fleet ι ω) :
    (v.carryOut p i now).root = v.root := by
  rw [carryOut]
  split <;> rfl

/-- Only a client at the end of its execution pass pushes. -/
theorem push_of_ne (h : v.phase i ≠ .running []) (now : Time.Instant) (arrives : Bool) :
    v.push i now arrives = v := by
  rw [push]
  split
  next hph => exact absurd hph h
  next => rfl

/-! ### What an event does to the root -/

omit [DecidableEq ι] in
theorem root_get?_delete {k k' : Key} (h : k ≠ k') (v : Fleet ι ω) :
    (v.delete k').root.ledger.get? k = v.root.ledger.get? k := by
  rw [delete]
  split
  next hd => rw [Root.ledger_withLedger, Ledger.get?_delete hd, if_neg h]
  next => rfl

omit [DecidableEq ι] in
theorem of_root_get?_delete {k k' : Key} {c : Command}
    (h : (v.delete k').root.ledger.get? k = some c) : v.root.ledger.get? k = some c := by
  unfold delete at h
  split at h
  next hd =>
    rw [Root.ledger_withLedger, Ledger.get?_delete hd] at h
    split at h
    · cases h
    · exact h
  next => exact h

/-- An event that is no push and does not touch a key leaves what the root holds under it. -/
theorem root_get?_step_of_not_mem {e : Event ι ω} {k : Key}
    (he : ∀ i now arrives, e ≠ .push i now arrives)
    (hk : k ∉ written e v) : (v.step p e).root.ledger.get? k = v.root.ledger.get? k := by
  cases e with
  | submit now c => exact Root.get?_submit_of_not_mem hk
  | delete k' => exact root_get?_delete (fun h ↦ hk (List.mem_singleton.2 h)) v
  | refit inventory archive roster => rfl
  | rearrange i inventory bench => rfl
  | pull i arrives => rw [step, root_pull]
  | take i => rw [step, root_take]
  | turn i => rw [step, root_turn]
  | carryOut i now => rw [step, root_carryOut]
  | push i now arrives => exact absurd rfl (he i now arrives)

/-! ### What an event does to a client -/

omit [DecidableEq ι] in
theorem client_delete (k : Key) (v : Fleet ι ω) : (v.delete k).client = v.client := by
  rw [delete]
  split <;> rfl

omit [DecidableEq ι] in
theorem phase_delete (k : Key) (v : Fleet ι ω) : (v.delete k).phase = v.phase := by
  rw [delete]
  split <;> rfl

/-- The client whose event it is. -/
def Event.actor? : Event ι ω → Option ι
  | .rearrange i _ _ | .pull i _ | .take i | .turn i | .carryOut i _ | .push i _ _ => some i
  | _ => none

/-- An event leaves all clients alone but the one whose event it is. -/
theorem step_of_actor?_ne {e : Event ι ω} (h : e.actor? ≠ some i) :
    (v.step p e).client i = v.client i ∧ (v.step p e).phase i = v.phase i := by
  have hother {j : ι} (hj : some j ≠ some i) (n : Client ω) (ph : Phase) :
      (v.withClient j n ph).client i = v.client i ∧ (v.withClient j n ph).phase i = v.phase i := by
    have hne : i ≠ j := fun heq ↦ hj (congrArg some heq.symm)
    exact ⟨client_withClient_of_ne hne n ph v, phase_withClient_of_ne hne n ph v⟩
  cases e with
  | submit now c => exact ⟨rfl, rfl⟩
  | delete k => exact ⟨by rw [step, client_delete], by rw [step, phase_delete]⟩
  | refit inventory archive roster => exact ⟨rfl, rfl⟩
  | rearrange j inventory bench => exact hother h _ _
  | pull j arrives =>
    simp only [step, pull]
    split
    · exact hother h _ _
    · exact ⟨rfl, rfl⟩
  | take j =>
    simp only [step, take]
    split
    · exact hother h _ _
    · exact ⟨rfl, rfl⟩
  | turn j =>
    simp only [step, turn]
    split
    · exact hother h _ _
    · exact ⟨rfl, rfl⟩
  | carryOut j now =>
    simp only [step, carryOut]
    split
    · exact hother h _ _
    · exact ⟨rfl, rfl⟩
  | push j now arrives =>
    simp only [step, push]
    split
    · cases arrives <;> exact hother h _ _
    · exact ⟨rfl, rfl⟩

theorem begun_of_actor?_ne {e : Event ι ω} (h : e.actor? ≠ some i) : begun i e v = [] := by
  cases e with
  | turn j =>
    have hne : j ≠ i := fun heq ↦ h (congrArg some heq)
    simp only [begun, if_neg hne]
    split <;> rfl
  | _ => rfl

theorem outcomes_of_actor?_ne {e : Event ι ω} (h : e.actor? ≠ some i) :
    outcomes p i e v = [] := by
  cases e with
  | carryOut j now =>
    have hne : j ≠ i := fun heq ↦ h (congrArg some heq)
    simp only [outcomes, if_neg hne]
    split <;> rfl
  | _ => rfl

@[simp] theorem ledger_rearrange (i : ι) (inventory : Inventory) (bench : Bench ω)
    (v : Fleet ι ω) : ((v.rearrange i inventory bench).client i).ledger = (v.client i).ledger := by
  rw [rearrange, client_withClient]

@[simp] theorem phase_rearrange (i : ι) (inventory : Inventory) (bench : Bench ω)
    (v : Fleet ι ω) : (v.rearrange i inventory bench).phase i = v.phase i := phase_withClient ..

@[simp] theorem client_pull (i : ι) (arrives : Bool) (v : Fleet ι ω) :
    (v.pull i arrives).client i = v.client i := by
  unfold pull
  split
  · rw [client_withClient]
  · rfl

theorem take_of_received {cs : List Command} (h : v.phase i = .received cs) : v.take i =
    v.withClient i ((v.client i).take cs).2
      (.running ((v.client i).take cs).2.ledger.runnableKeys) := by
  simp only [take, h]

theorem take_of_ne (h : ∀ cs, v.phase i ≠ .received cs) : v.take i = v := by
  rw [take]
  split
  next cs hph => exact absurd hph (h cs)
  next => rfl

theorem turn_of_running {k : Key} {ks : List Key} (h : v.phase i = .running (k :: ks)) :
    v.turn i = v.withClient i (v.client i) (.after ks ((v.client i).beginning k)) := by
  simp only [turn, h]

theorem turn_of_ne (h : ∀ k ks, v.phase i ≠ .running (k :: ks)) : v.turn i = v := by
  rw [turn]
  split
  next k ks hph => exact absurd hph (h k ks)
  next => rfl

@[simp] theorem client_turn (i : ι) (v : Fleet ι ω) : (v.turn i).client i = v.client i := by
  rw [turn]
  split
  · rw [client_withClient]
  · rfl

theorem carryOut_of_working {now : Time.Instant} {given : Command} {ks : List Key}
    (h : v.phase i = .working given ks) : v.carryOut p i now =
      v.withClient i ((v.client i).carryOut (Client.dispatch now (p i)) given).2
        (.resumed ks ((v.client i).carryOut (Client.dispatch now (p i)) given).1) := by
  simp only [carryOut, h]

theorem carryOut_of_ne {now : Time.Instant} (h : ∀ given ks, v.phase i ≠ .working given ks) :
    v.carryOut p i now = v := by
  rw [carryOut]
  split
  next given ks hph => exact absurd hph (h given ks)
  next => rfl

theorem begun_of_running {k : Key} {ks : List Key} (h : v.phase i = .running (k :: ks)) :
    begun i (.turn i) v = (Phase.after ks ((v.client i).beginning k)).inHand.toList := by
  simp only [begun, h, if_true]

theorem begun_of_ne (h : ∀ k ks, v.phase i ≠ .running (k :: ks)) : begun i (.turn i) v = [] := by
  simp only [begun]

theorem outcomes_of_working {now : Time.Instant} {given : Command} {ks : List Key}
    (h : v.phase i = .working given ks) : outcomes p i (.carryOut i now) v =
      ((v.client i).carryOut (Client.dispatch now (p i)) given).1.toList := by
  simp only [outcomes, h, if_true]

theorem outcomes_of_ne {now : Time.Instant} (h : ∀ given ks, v.phase i ≠ .working given ks) :
    outcomes p i (.carryOut i now) v = [] := by
  simp only [outcomes]

@[simp] theorem client_push (i : ι) (now : Time.Instant) (arrives : Bool) (v : Fleet ι ω) :
    (v.push i now arrives).client i = v.client i := by
  rw [push]
  split
  · cases arrives <;> exact client_withClient i (v.client i) .idle v
  · rfl

theorem phase_push (h : v.phase i = .running []) (now : Time.Instant) (arrives : Bool) :
    (v.push i now arrives).phase i = .idle := by
  simp only [push, h]
  cases arrives <;> exact phase_withClient i (v.client i) .idle v

/-- What an event may be to a client: it leaves the ledger and the command in the hand as they are,
or a command is handed over, or the answer to a pull is merged, or the command in the hand is
carried out. -/
inductive Moves (p : ι → Protocol ω) (i : ι) (e : Event ι ω) (v : Fleet ι ω) : Prop
  | rests (hledger : ((v.step p e).client i).ledger = (v.client i).ledger)
      (hhand : ((v.step p e).phase i).inHand = (v.phase i).inHand)
      (hbegun : begun i e v = []) (hout : outcomes p i e v = [])
      (he : ∀ now given ks, e = .carryOut i now → v.phase i ≠ .working given ks)
  | handsOver {k : Key} {ks : List Key} {given : Command} (he : e = .turn i)
      (hph : v.phase i = .running (k :: ks)) (hbegin : (v.client i).beginning k = .handOver given)
      (hafter : v.step p e = v.withClient i (v.client i) (.working given ks))
      (hbegun : begun i e v = [given])
  | merges {cs : List Command} (he : e = .take i) (hph : v.phase i = .received cs)
      (hafter : v.step p e = v.withClient i ((v.client i).take cs).2
        (.running ((v.client i).take cs).2.ledger.runnableKeys))
  | carriesOut {now : Time.Instant} {given : Command} {ks : List Key} (he : e = .carryOut i now)
      (hph : v.phase i = .working given ks)
      (hafter : v.step p e = v.withClient i
        ((v.client i).carryOut (Client.dispatch now (p i)) given).2
        (.resumed ks ((v.client i).carryOut (Client.dispatch now (p i)) given).1))
      (hout : outcomes p i e v =
        ((v.client i).carryOut (Client.dispatch now (p i)) given).1.toList)

/-- An event of a client that changes nothing. -/
theorem Moves.of_step_eq {e : Event ι ω} (h : v.step p e = v) (hbegun : begun i e v = [])
    (hout : outcomes p i e v = [])
    (he : ∀ now given ks, e = .carryOut i now → v.phase i ≠ .working given ks) :
    Moves p i e v :=
  .rests (by rw [h]) (by rw [h]) hbegun hout he

/-- Every event is one of these to each client. -/
theorem moves_step (p : ι → Protocol ω) (i : ι) (e : Event ι ω) (v : Fleet ι ω) :
    Moves p i e v := by
  by_cases hactor : e.actor? = some i
  swap
  · obtain ⟨hclient, hphase⟩ := step_of_actor?_ne (p := p) (v := v) hactor
    refine .rests (by rw [hclient]) (by rw [hphase]) (begun_of_actor?_ne hactor)
      (outcomes_of_actor?_ne hactor) ?_
    rintro now given ks rfl
    exact absurd rfl hactor
  cases e with
  | submit now c => cases hactor
  | delete k => cases hactor
  | refit inventory archive roster => cases hactor
  | rearrange j inventory bench =>
    obtain rfl := Option.some.inj hactor
    exact .rests (ledger_rearrange ..) (by rw [step, phase_rearrange]) rfl rfl
      fun _ _ _ heq ↦ by cases heq
  | pull j arrives =>
    obtain rfl := Option.some.inj hactor
    refine .rests (by rw [step, client_pull]) ?_ rfl rfl fun _ _ _ heq ↦ by cases heq
    simp only [step, pull]
    split
    next _ _ hph => rw [phase_withClient, hph]; rfl
    next => rfl
  | push j now arrives =>
    obtain rfl := Option.some.inj hactor
    refine .rests (by rw [step, client_push]) ?_ rfl rfl fun _ _ _ heq ↦ by cases heq
    by_cases hph : v.phase j = .running []
    · rw [step, phase_push hph, hph]; rfl
    · rw [step, push_of_ne hph]
  | take j =>
    obtain rfl := Option.some.inj hactor
    by_cases hph : ∃ cs, v.phase j = .received cs
    · obtain ⟨cs, hph⟩ := hph
      exact .merges rfl hph (take_of_received hph)
    · exact .of_step_eq (take_of_ne (not_exists.1 hph)) rfl rfl fun _ _ _ heq ↦ by cases heq
  | turn j =>
    obtain rfl := Option.some.inj hactor
    by_cases hph : ∃ k ks, v.phase j = .running (k :: ks)
    · obtain ⟨k, ks, hph⟩ := hph
      have hafter : v.step p (.turn j) = _ := turn_of_running hph
      have hbegun := begun_of_running hph
      have hrests (hnone : (Phase.after ks ((v.client j).beginning k)).inHand = none) :
          Moves p j (.turn j) v := by
        refine .rests ?_ ?_ (by rw [hbegun, hnone]; rfl) rfl fun _ _ _ heq ↦ by cases heq
        · rw [hafter, client_withClient]
        · rw [hafter, phase_withClient, hnone, hph]
          rfl
      cases hbegin : (v.client j).beginning k with
      | skip => exact hrests (by rw [hbegin]; rfl)
      | overflow => exact hrests (by rw [hbegin]; rfl)
      | handOver given =>
        rw [hbegin] at hafter hbegun
        exact .handsOver rfl hph hbegin hafter hbegun
    · have hne (k : Key) (ks : List Key) : v.phase j ≠ .running (k :: ks) :=
        fun heq ↦ hph ⟨k, ks, heq⟩
      exact .of_step_eq (turn_of_ne hne) (begun_of_ne hne) rfl fun _ _ _ heq ↦ by cases heq
  | carryOut j now =>
    obtain rfl := Option.some.inj hactor
    by_cases hph : ∃ given ks, v.phase j = .working given ks
    · obtain ⟨given, ks, hph⟩ := hph
      exact .carriesOut rfl hph (carryOut_of_working hph) (outcomes_of_working hph)
    · have hne (given : Command) (ks : List Key) : v.phase j ≠ .working given ks :=
        fun heq ↦ hph ⟨given, ks, heq⟩
      exact .of_step_eq (carryOut_of_ne hne) rfl (outcomes_of_ne hne) fun _ given ks _ ↦ hne given ks

/-- An event changes the ledger of a client only by merging the answer to its pull and by carrying
out the command in its hand. -/
theorem ledger_step_cases (p : ι → Protocol ω) (e : Event ι ω) (v : Fleet ι ω) (i : ι) :
    ((v.step p e).client i).ledger = (v.client i).ledger ∨
    (∃ cs, v.phase i = .received cs ∧
      ((v.step p e).client i).ledger = ((v.client i).ledger.mergePulled cs).2) ∨
    (∃ now given ks, v.phase i = .working given ks ∧
      outcomes p i e v = ((v.client i).carryOut (Client.dispatch now (p i)) given).1.toList ∧
      ((v.step p e).client i).ledger =
        ((v.client i).carryOut (Client.dispatch now (p i)) given).2.ledger) := by
  cases moves_step p i e v with
  | rests hledger => exact Or.inl hledger
  | handsOver _ _ _ hafter => exact Or.inl (by rw [hafter, client_withClient])
  | merges _ hph hafter =>
    refine Or.inr (Or.inl ⟨_, hph, ?_⟩)
    rw [hafter, client_withClient]
    rfl
  | carriesOut _ hph hafter hout =>
    exact Or.inr (Or.inr ⟨_, _, _, hph, hout, by rw [hafter, client_withClient]⟩)

/-- A client that has an answer to its pull had it before, or the root just gave it. -/
theorem of_phase_step_eq_received {e : Event ι ω} {cs : List Command}
    (h : (v.step p e).phase i = .received cs) :
    v.phase i = .received cs ∨ cs = answerTo (v.client i) v.root := by
  by_cases hactor : e.actor? = some i
  swap
  · rw [(step_of_actor?_ne hactor).2] at h
    exact Or.inl h
  cases e with
  | submit now c => cases hactor
  | delete k => cases hactor
  | refit inventory archive roster => cases hactor
  | rearrange j inventory bench =>
    obtain rfl := Option.some.inj hactor
    rw [step, phase_rearrange] at h
    exact Or.inl h
  | pull j arrives =>
    obtain rfl := Option.some.inj hactor
    simp only [step, pull] at h
    split at h
    · rw [phase_withClient] at h
      exact Or.inr (Phase.received.inj h).symm
    · exact Or.inl h
  | take j =>
    obtain rfl := Option.some.inj hactor
    by_cases hph : ∃ cs, v.phase j = .received cs
    · obtain ⟨cs', hph⟩ := hph
      rw [step, take_of_received hph, phase_withClient] at h
      cases h
    · rw [step, take_of_ne (not_exists.1 hph)] at h
      exact Or.inl h
  | turn j =>
    obtain rfl := Option.some.inj hactor
    simp only [step, turn] at h
    split at h
    · rw [phase_withClient] at h
      unfold Phase.after at h
      split at h <;> cases h
    · exact Or.inl h
  | carryOut j now =>
    obtain rfl := Option.some.inj hactor
    simp only [step, carryOut] at h
    split at h
    · rw [phase_withClient, Phase.resumed] at h
      split at h <;> cases h
    · exact Or.inl h
  | push j now arrives =>
    obtain rfl := Option.some.inj hactor
    by_cases hph : v.phase j = .running []
    · rw [step, phase_push hph] at h
      cases h
    · rw [step, push_of_ne hph] at h
      exact Or.inl h

/-! ### Whole cycles -/

/-- The events of the turns of some keys in a pass. -/
def passEvents (i : ι) (now : Time.Instant) (ks : List Key) : List (Event ι ω) :=
  ks.flatMap fun _ ↦ [.turn i, .carryOut i now]

/-- At rest a client has no turns. -/
theorem run_passEvents_of_idle (h : v.phase i = .idle) (now : Time.Instant) (ks : List Key) :
    run p (passEvents i now ks) v = v := by
  have hturn : v.step p (.turn i) = v := turn_of_ne fun k ks ↦ by rw [h]; exact Phase.noConfusion
  have hwork : v.step p (.carryOut i now) = v :=
    carryOut_of_ne fun given ks ↦ by rw [h]; exact Phase.noConfusion
  induction ks with
  | nil => rfl
  | cons k ks ih =>
    rw [passEvents, List.flatMap_cons, List.cons_append, List.cons_append, run, run, hturn, hwork]
    exact ih

/-- One turn is one attempt. -/
theorem step_turn_carryOut {k : Key} {ks : List Key} (h : v.phase i = .running (k :: ks))
    (now : Time.Instant) : (v.step p (.turn i)).step p (.carryOut i now) =
      v.withClient i ((v.client i).attempt (Client.dispatch now (p i)) k).2
        (if ((v.client i).attempt (Client.dispatch now (p i)) k).1.isSome then .running ks
          else .idle) := by
  have hturn : v.step p (.turn i) = _ := turn_of_running h
  have hstays {ph : Phase} (hph : ∀ given ks', ph ≠ .working given ks') :
      (v.withClient i (v.client i) ph).step p (.carryOut i now) = v.withClient i (v.client i) ph :=
    carryOut_of_ne fun given ks' ↦ by rw [phase_withClient]; exact hph given ks'
  cases hbegin : (v.client i).beginning k with
  | skip =>
    rw [hturn, hbegin, Node.attempt_of_skip hbegin]
    exact hstays fun _ _ ↦ Phase.noConfusion
  | overflow =>
    rw [hturn, hbegin, Node.attempt_of_overflow hbegin]
    exact hstays fun _ _ ↦ Phase.noConfusion
  | handOver given =>
    have hworking : v.step p (.turn i) = v.withClient i (v.client i) (.working given ks) := by
      rw [hturn, hbegin]
      rfl
    rw [hworking, Node.attempt_of_handOver hbegin, step,
      carryOut_of_working (phase_withClient ..), withClient_withClient, client_withClient,
      Option.isSome_map, Phase.resumed]

/-- An execution pass is a run of turns. It leaves the client about to push, or at rest if it is
ended. -/
theorem run_passEvents {now : Time.Instant} {ks : List Key} (h : v.phase i = .running ks) :
    run p (passEvents i now ks) v =
      v.withClient i ((v.client i).attemptAll (Client.dispatch now (p i)) ks).2
        (if ((v.client i).attemptAll (Client.dispatch now (p i)) ks).1.isSome then .running []
          else .idle) := by
  induction ks generalizing v with
  | nil => exact (withClient_eq_self rfl h).symm
  | cons k ks ih =>
    rw [passEvents, List.flatMap_cons, List.cons_append, List.cons_append, run, run,
      step_turn_carryOut h]
    cases hmade : ((v.client i).attempt (Client.dispatch now (p i)) k).1 with
    | none =>
      rw [Node.attemptAll_cons_of_none hmade]
      exact run_passEvents_of_idle (phase_withClient ..) now ks
    | some made =>
      rw [Node.attemptAll_cons_of_some hmade, Option.isSome_map]
      have hrest := ih (v := v.withClient i
        ((v.client i).attempt (Client.dispatch now (p i)) k).2 (.running ks)) (phase_withClient ..)
      rw [withClient_withClient, client_withClient] at hrest
      exact hrest

/-- The events of a cycle of a client over a link behind a gate. -/
def cycleEvents (p : ι → Protocol ω) (i : ι) (now : Time.Instant) (gate : Call → Option Fault)
    (v : Fleet ι ω) : List (Event ι ω) :=
  if (gate .pull).isSome then [.pull i false]
  else
    let n := ((v.client i).take (answerTo (v.client i) v.root)).2
    let table := (n.runPending (Client.dispatch now (p i))).2.ledger.commands.values
    .pull i true :: .take i :: passEvents i now n.ledger.runnableKeys ++
      [.push i now (gate (.push table.length)).isNone]

theorem cycle_of_pull_error {ρ : Type} {link : Link ρ} {far far' : ρ} {fault : Fault}
    {n : Client ω} (h : link.pull n.ledger.owner far = (.error fault, far'))
    (d : Dispatch (Bench ω)) : (n.cycle link d far).2 = (n, far') := by
  simp only [Client.cycle, h]

/-- A pass that is ended ends the cycle before the push. -/
theorem cycle_of_pull_ok {ρ : Type} {link : Link ρ} {far far' : ρ} {cs : List Command}
    {n : Client ω} (h : link.pull n.ledger.owner far = (.ok cs, far')) (d : Dispatch (Bench ω)) :
    (n.cycle link d far).2 = (((n.take cs).2.runPending d).2,
      if ((n.take cs).2.runPending d).1.isSome then
        (link.push ((n.take cs).2.runPending d).2.ledger.commands.values far').2
      else far') := by
  simp only [Client.cycle, h]
  cases hpass : (n.take cs).2.runPending d with
  | mk count m => cases count <;> rfl

theorem pull_gated (now : Time.Instant) (gate : Call → Option Fault) (log : CallLog)
    (n : Client ω) (r : Root) (h : gate .pull = none) :
    ((Link.loopback now).gated gate).pull n.ledger.owner (log, r) =
      (.ok (answerTo n r), log ++ [(.pull, true)], r) := by
  simp only [Link.gated, Link.through, h]
  rfl

theorem push_gated (now : Time.Instant) (gate : Call → Option Fault) (log : CallLog)
    (n : Client ω) (r : Root) :
    (((Link.loopback now).gated gate).push n.ledger.commands.values (log, r)).2.2 =
      if (gate (.push n.ledger.commands.values.length)).isNone then (r.accept now (report n)).2
      else r := by
  cases h : gate (.push n.ledger.commands.values.length) with
  | some fault => simp only [Link.gated, Link.through, h]; rfl
  | none => simp only [Link.gated, Link.through, h]; rfl

theorem run_cycleEvents_of_pull_error {gate : Call → Option Fault} {fault : Fault}
    (h : v.phase i = .idle) (hpull : gate .pull = some fault) (now : Time.Instant) :
    run p (cycleEvents p i now gate v) v = v := by
  simp [cycleEvents, hpull, run, step, pull, h]

theorem run_cycleEvents_of_pull_ok {gate : Call → Option Fault} (h : v.phase i = .idle)
    (hpull : gate .pull = none) (now : Time.Instant) :
    let pass := ((v.client i).take (answerTo (v.client i) v.root)).2.runPending
      (Client.dispatch now (p i))
    run p (cycleEvents p i now gate v) v =
      (v.withClient i pass.2 (if pass.1.isSome then .running [] else .idle)).push i now
        (gate (.push pass.2.ledger.commands.values.length)).isNone := by
  intro pass
  let taken := ((v.client i).take (answerTo (v.client i) v.root)).2
  have hanswer : v.step p (.pull i true) =
      v.withClient i (v.client i) (.received (answerTo (v.client i) v.root)) := by
    simp only [step, pull, h]
  have htake : (v.step p (.pull i true)).step p (.take i) =
      v.withClient i taken (.running taken.ledger.runnableKeys) := by
    rw [hanswer, step, take_of_received (phase_withClient ..), withClient_withClient,
      client_withClient]
  have hpass : run p (passEvents i now taken.ledger.runnableKeys)
      (v.withClient i taken (.running taken.ledger.runnableKeys)) =
        v.withClient i pass.2 (if pass.1.isSome then .running [] else .idle) := by
    rw [run_passEvents (phase_withClient ..), withClient_withClient, client_withClient]
    rfl
  rw [cycleEvents, hpull, if_neg (by simp), List.cons_append, List.cons_append, run, run,
    htake, run_append, hpass]
  rfl

/-- A cycle of a client at rest is a run: the client and the root are afterwards what the cycle
makes of them, and the client is at rest again. -/
theorem run_cycleEvents (h : v.phase i = .idle) (now : Time.Instant) (gate : Call → Option Fault)
    (log : CallLog) :
    run p (cycleEvents p i now gate v) v =
      { v.withClient i ((v.client i).cycle ((Link.loopback now).gated gate)
          (Client.dispatch now (p i)) (log, v.root)).2.1 .idle with
        root := ((v.client i).cycle ((Link.loopback now).gated gate)
          (Client.dispatch now (p i)) (log, v.root)).2.2.2 } := by
  cases hpull : gate .pull with
  | some fault =>
    have hfails : ((Link.loopback now).gated gate).pull (v.client i).ledger.owner (log, v.root) =
        (.error fault, log ++ [(.pull, false)], v.root) := by
      simp only [Link.gated, Link.through, hpull]
    rw [run_cycleEvents_of_pull_error h hpull, cycle_of_pull_error hfails]
    exact (withClient_eq_self rfl h).symm
  | none =>
    rw [run_cycleEvents_of_pull_ok h hpull,
      cycle_of_pull_ok (pull_gated now gate log (v.client i) v.root hpull)]
    cases (((v.client i).take (answerTo (v.client i) v.root)).2.runPending
      (Client.dispatch now (p i))).1 with
    | none =>
      rw [push_of_ne (by rw [phase_withClient]; exact Phase.noConfusion)]
      rfl
    | some count =>
      rw [Option.isSome_some, if_pos rfl, if_pos rfl, push_gated]
      simp only [push, phase_withClient, client_withClient, withClient_withClient,
        root_withClient]
      split <;> rfl

/-! ### A fleet with one client -/

/-- A network that grants every request and finds no devices. -/
def quiet : Unit → Protocol Unit := fun _ ↦
  { execute := fun _ w ↦ (.ok "", w), scan := fun _ w ↦ (.ok [], w) }

/-- A root and one client that just started. -/
def single : Fleet Unit Unit :=
  start default "root" ⟨"", .nothing⟩ (fun _ ↦ "c1") fun _ ↦ ()

/-- A cycle of the one client in which a single command is attempted. -/
def round (arrives : Bool) : List (Event Unit Unit) :=
  [.pull () true, .take (), .turn (), .carryOut () default, .push () default arrives]

/-- A cycle of the one client in which nothing is left to attempt. -/
def emptyRound : List (Event Unit Unit) := [.pull () true, .take (), .push () default true]

/-- An operator gives the text of a command. -/
def given (text : String) : Event Unit Unit := .submit default (.new default text)

end Fleet

end Switchyard
