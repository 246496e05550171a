import Switchyard.Client
import Switchyard.Proofs.Ledger.Lookup

/-!
# What handlers may do

Every handler keeps one contract. Its answer is the command it was given with another status,
result or device, and the command is never new again: it is done, or it waits, and only commands
for one device wait. The ledger of the node stays as it is, with one exception: `command delete`
takes the command out that it names. The handlers of a client and those of the root keep this
contract, so what becomes of a command in a ledger is a matter of the execution pass alone.

## Main definitions

* `Command.IsAnswer` : what an answer keeps of its command.
* `Command.deletes?` : the key of the command that a command takes out.
* `Handler.Keeps` : an answer, with the ledger as it was.

## Main results

* `Client.isAnswer_run`, `Client.get?_run` : the handlers of a client.
* `Root.keeps_run`, `Root.isTerminal_run` : the handlers of the root.
-/

namespace Switchyard

/-! ### Answers -/

/-- An answer keeps the key of its command, its story so far and its flags, and is not new. -/
structure Command.IsAnswer (c a : Command) : Prop where
  text : a.text = c.text
  client : a.client = c.client
  timestamp : a.timestamp = c.timestamp
  retries : a.retries = c.retries
  node : a.node = c.node
  flags : a.flags = c.flags
  status : a.status.isTerminal = true ∨
    a.status.isPending = true ∧ c.verb ∈ Handler.deviceVerbs

/-- The key of the command that `command delete` takes out of the ledger. -/
def Command.deletes? (c : Command) : Option Key :=
  match c.words with
  | "command" :: "delete" :: word :: words => some (.parse (Text.join " " (word :: words)))
  | _ => none

namespace Command

variable {c a : Command}

theorem IsAnswer.key (h : IsAnswer c a) : a.key = c.key := by
  rw [Command.key, Command.key, h.text, h.client]

theorem IsAnswer.status_ne_new (h : IsAnswer c a) : a.status ≠ .new := by
  intro hnew
  rcases h.status with hdone | ⟨hwait, -⟩
  · rw [hnew] at hdone; cases hdone
  · rw [hnew] at hwait; cases hwait

theorem isAnswer_finish {s : Status} (hs : s.isTerminal = true) (c : Command) :
    IsAnswer c (c.finish s) :=
  ⟨rfl, rfl, rfl, rfl, rfl, rfl, Or.inl hs⟩

theorem isAnswer_invalid (c : Command) : IsAnswer c c.invalid :=
  isAnswer_finish rfl c

theorem isAnswer_ok (result : String) (c : Command) :
    IsAnswer c { c with result, status := .ok } :=
  ⟨rfl, rfl, rfl, rfl, rfl, rfl, Or.inl rfl⟩

/-- An answer is still one when the dispatch has put the key of the command back. -/
theorem IsAnswer.rekey (h : IsAnswer c a) :
    IsAnswer c { a with text := c.text, client := c.client } :=
  ⟨rfl, rfl, h.timestamp, h.retries, h.node, h.flags, h.status⟩

theorem verb_of_words {word : String} {words : List String} (h : c.words = word :: words) :
    c.verb = word := by
  rw [verb, h, List.headD_cons]

theorem verb_of_deletes? {k : Key} (h : c.deletes? = some k) : c.verb = "command" := by
  unfold deletes? at h
  split at h
  next hw => exact verb_of_words hw
  next => cases h

end Command

namespace Handler

open Command

variable {ω ε : Type} {c : Command}

/-! ### Handlers that leave the ledger alone -/

/-- A result that answers the command and leaves the ledger as it was. -/
structure Keeps (c : Command) (n : Node ε) (r : Command × Node ε) : Prop where
  answer : IsAnswer c r.1
  ledger : r.2.ledger = n.ledger

theorem keeps_finish {s : Status} (hs : s.isTerminal = true) (c : Command) (n : Node ε) :
    Keeps c n (c.finish s, n) :=
  ⟨isAnswer_finish hs c, rfl⟩

theorem keeps_invalid (c : Command) (n : Node ε) : Keeps c n (c.invalid, n) :=
  keeps_finish rfl c n

theorem keeps_waiting (hc : c.verb ∈ deviceVerbs) (target reason : String) (n : Node ε) :
    Keeps c n (waiting reason (concerning target c), n) :=
  ⟨⟨rfl, rfl, rfl, rfl, rfl, rfl, Or.inr ⟨rfl, hc⟩⟩, rfl⟩

/-- The device that a command concerns is not part of what an answer keeps. -/
theorem Keeps.of_concerning {target : String} {n : Node ε} {r : Command × Node ε}
    (h : Keeps (concerning target c) n r) : Keeps c n r := by
  obtain ⟨⟨text, client, timestamp, retries, node, flags, status⟩, hledger⟩ := h
  exact ⟨⟨text, client, timestamp, retries, node, flags, status⟩, hledger⟩

theorem keeps_ask (p : Protocol ω) (r : Device.Request) (c : Command) (n : Node (Bench ω)) :
    Keeps c n (ask p r c n) := by
  refine ⟨?_, rfl⟩
  change IsAnswer c (answered (Bench.request p r n).1 c)
  cases (Bench.request p r n).1 with
  | ok output => exact isAnswer_ok _ c
  | error fault => exact isAnswer_finish rfl c

theorem keeps_simple (p : Protocol ω) (hc : c.verb ∈ deviceVerbs)
    (action target ip user password : String) (n : Node (Bench ω)) :
    Keeps c n (simple p action target ip user password c n) := by
  unfold simple
  simp only
  split
  next => exact keeps_waiting hc target _ n
  next d _ =>
    split
    · exact keeps_waiting hc target _ n
    · exact (keeps_ask p _ _ n).of_concerning

theorem keeps_reset (p : Protocol ω) (hc : c.verb ∈ deviceVerbs)
    (target ip user password : String) (n : Node (Bench ω)) :
    Keeps c n (reset p target ip user password c n) := by
  rw [reset]
  simp only
  split
  next => exact keeps_waiting hc target _ n
  next d _ =>
    split
    next => exact keeps_waiting hc target _ n
    next => exact keeps_waiting hc target _ n
    next held _ =>
      have hask := keeps_ask p { action := "reset", mac := d.mac, ip, user, password }
        (concerning target c) { n with inventory := held }
      have hask' : Keeps c n _ := Keeps.of_concerning ⟨hask.answer, hask.ledger⟩
      -- whether or not the lock can be given back, the ledger is the one after the request
      split
      next => exact ⟨hask'.answer, hask'.ledger⟩
      next => exact hask'

theorem keeps_switch (p : Protocol ω) (hc : c.verb ∈ deviceVerbs)
    (target user password args : String) (n : Node (Bench ω)) :
    Keeps c n (switch p target user password args c n) := by
  unfold switch
  simp only
  split
  next => exact keeps_waiting hc target _ n
  next d _ =>
    split_ifs
    · exact (keeps_finish rfl _ n).of_concerning
    · exact (keeps_finish rfl _ n).of_concerning
    · exact keeps_waiting hc target _ n
    · exact (keeps_ask p _ _ n).of_concerning

/-- The commands for one device keep the contract, and they alone may wait. -/
theorem keeps_deviceAction (p : Protocol ω) (hc : c.verb ∈ deviceVerbs) (n : Node (Bench ω)) :
    Keeps c n (deviceAction p c n) := by
  rw [deviceAction]
  split
  · exact keeps_simple p hc _ _ _ _ _ n
  · exact keeps_simple p hc _ _ _ _ _ n
  · exact keeps_reset p hc _ _ _ _ n
  · exact keeps_switch p hc _ _ _ _ n
  · exact keeps_invalid c n

theorem keeps_sweep (now : Time.Instant) (p : Protocol ω) (s : Source) (c : Command)
    (n : Node (Bench ω)) : Keeps c n (sweep now p s c n) := by
  rw [sweep]
  simp only
  split
  next => exact ⟨isAnswer_finish rfl c, rfl⟩
  next => exact ⟨isAnswer_ok _ c, rfl⟩

/-- The sweeps keep the contract. -/
theorem keeps_scan (now : Time.Instant) (p : Protocol ω) (c : Command) (n : Node (Bench ω)) :
    Keeps c n (scan now p c n) := by
  rw [scan]
  split
  · exact keeps_sweep now p _ c n
  · exact keeps_sweep now p _ c n
  · exact keeps_invalid c n

theorem keeps_setInterval (set : Nat → Intervals → Except Fault Intervals) (word : String)
    (c : Command) (n : Node (Bench ω)) : Keeps c n (setInterval set word c n) := by
  rw [setInterval]
  split
  next => exact keeps_invalid c n
  next =>
    split
    next => exact keeps_finish rfl c n
    next => exact ⟨isAnswer_ok _ c, rfl⟩

/-- What is made of the outcome of an archive call changes nothing but that call's part. -/
private theorem ledger_of_map {α : Type} {e : Except Fault α} {f : α → String × Node Archive}
    {n n' : Node Archive} {result : String} (hf : ∀ a, (f a).2.ledger = n.ledger)
    (h : some (e.map f) = some (.ok (result, n'))) : n'.ledger = n.ledger := by
  cases e with
  | error fault => cases h
  | ok a =>
    have hfa : f a = (result, n') := Except.ok.inj (Option.some.inj h)
    rw [← hf a, hfa]

theorem ledger_snapshotAction {now : Time.Instant} {words : List String} {n n' : Node Archive}
    {result : String} (h : snapshotAction now words n = some (.ok (result, n'))) :
    n'.ledger = n.ledger := by
  unfold snapshotAction at h
  simp only at h
  split at h
  · exact ledger_of_map (fun _ ↦ rfl) h
  · exact ledger_of_map (fun _ ↦ rfl) h
  · exact ledger_of_map (fun _ ↦ rfl) h
  · exact ledger_of_map (fun _ ↦ rfl) h
  · cases h

/-- The snapshot commands of the root keep the contract. -/
theorem keeps_snapshot (now : Time.Instant) (c : Command) (n : Node Archive) :
    Keeps c n (snapshot now c n) := by
  rw [snapshot]
  split
  next => exact keeps_invalid c n
  next result n' hact => exact ⟨isAnswer_ok result c, ledger_snapshotAction hact⟩
  next => exact keeps_finish rfl c n

/-! ### The handler that deletes -/

theorem isAnswer_admin (c : Command) (n : Node (Bench ω)) : IsAnswer c (admin c n).1 := by
  rw [admin]
  split
  next =>
    unfold deleteCommand
    simp only
    split
    next => exact isAnswer_ok _ c
    next => exact isAnswer_finish rfl c
  next => exact (keeps_setInterval _ _ c n).answer
  next => exact (keeps_setInterval _ _ c n).answer
  next => exact isAnswer_invalid c

theorem ledger_admin (h : c.deletes? = none) (n : Node (Bench ω)) :
    (admin c n).2.ledger = n.ledger := by
  unfold deletes? at h
  rw [admin]
  split
  next hw => simp [hw] at h
  next => exact (keeps_setInterval _ _ c n).ledger
  next => exact (keeps_setInterval _ _ c n).ledger
  next => rfl

@[simp] theorem owner_admin (c : Command) (n : Node (Bench ω)) :
    (admin c n).2.ledger.owner = n.ledger.owner := by
  rw [admin]
  split
  next =>
    unfold deleteCommand
    simp only
    split
    next hd => exact Ledger.owner_delete hd
    next => rfl
  next => rw [(keeps_setInterval _ _ c n).ledger]
  next => rw [(keeps_setInterval _ _ c n).ledger]
  next => rfl

/-- `command delete` takes one command out, if it is there. -/
theorem get?_admin_of_deletes? {k : Key} (h : c.deletes? = some k) (n : Node (Bench ω))
    (k' : Key) : (admin c n).2.ledger.get? k' = if k' = k then none else n.ledger.get? k' := by
  unfold deletes? at h
  split at h
  next word words hw =>
    obtain rfl := Option.some.inj h
    rw [admin]
    simp only [hw, deleteCommand]
    split
    next hd => exact Ledger.get?_delete hd k'
    next hd =>
      have hnone := Ledger.get?_eq_none_of_delete_error hd
      split
      next hk => rw [hk, hnone]
      next => rfl
  next => cases h

end Handler

/-! ### The handlers of a node together -/

namespace Dispatch

open Command

variable {ε : Type} {c : Command} {d : Dispatch ε} {serve : Handler ε}

theorem run_eq_of_none (h : d c.verb = none) (n : Node ε) : d.run c n = (c.invalid, n) := by
  simp [run, h]

theorem run_eq_of_some (h : d c.verb = some serve) (n : Node ε) : d.run c n =
    ({ (serve c n).1 with text := c.text, client := c.client }, (serve c n).2) := by
  simp [run, h]

/-- A handler that answers its command has nothing put back. -/
theorem run_eq_of_isAnswer {n : Node ε} (h : d c.verb = some serve)
    (hanswer : IsAnswer c (serve c n).1) : d.run c n = serve c n := by
  rw [run_eq_of_some h]
  exact Prod.ext (by rw [← hanswer.text, ← hanswer.client]) rfl

end Dispatch

namespace Client

open Command Handler

variable {ω : Type}

/-- The handler of a client for a command: of one device, a sweep, of the node itself, or none. -/
theorem dispatch_verb (now : Time.Instant) (p : Protocol ω) (verb : String) :
    dispatch now p verb =
      if verb ∈ deviceVerbs then some (deviceAction p)
      else if verb ∈ scanVerbs then some (scan now p)
      else if verb ∈ adminVerbs then some admin
      else none := rfl

/-- A client answers every command. -/
theorem isAnswer_run (now : Time.Instant) (p : Protocol ω) (c : Command) (n : Client ω) :
    IsAnswer c ((dispatch now p).run c n).1 := by
  have h := dispatch_verb now p c.verb
  split_ifs at h with hdevice hscan hadmin
  · rw [Dispatch.run_eq_of_some h]
    exact (keeps_deviceAction p hdevice n).answer.rekey
  · rw [Dispatch.run_eq_of_some h]
    exact (keeps_scan now p c n).answer.rekey
  · rw [Dispatch.run_eq_of_some h]
    exact (isAnswer_admin c n).rekey
  · rw [Dispatch.run_eq_of_none h]
    exact isAnswer_invalid c

/-- Carrying a command out takes at most the command out of the ledger that it names for
deletion. -/
theorem get?_run (now : Time.Instant) (p : Protocol ω) (c : Command) (n : Client ω) (k : Key) :
    ((dispatch now p).run c n).2.ledger.get? k =
      if c.deletes? = some k then none else n.ledger.get? k := by
  have h := dispatch_verb now p c.verb
  cases hd : c.deletes? with
  | some k' =>
    have hverb := verb_of_deletes? hd
    have hadmin : dispatch now p c.verb = some admin := by
      rw [hverb]; rfl
    rw [Dispatch.run_eq_of_some hadmin, get?_admin_of_deletes? hd]
    simp only [Option.some.injEq, eq_comm]
  | none =>
    rw [if_neg (by simp)]
    split_ifs at h with hdevice hscan hadmin
    · rw [Dispatch.run_eq_of_some h, (keeps_deviceAction p hdevice n).ledger]
    · rw [Dispatch.run_eq_of_some h, (keeps_scan now p c n).ledger]
    · rw [Dispatch.run_eq_of_some h, ledger_admin hd]
    · rw [Dispatch.run_eq_of_none h]

theorem owner_run (now : Time.Instant) (p : Protocol ω) (c : Command) (n : Client ω) :
    ((dispatch now p).run c n).2.ledger.owner = n.ledger.owner := by
  have h := dispatch_verb now p c.verb
  split_ifs at h with hdevice hscan hadmin
  · rw [Dispatch.run_eq_of_some h, (keeps_deviceAction p hdevice n).ledger]
  · rw [Dispatch.run_eq_of_some h, (keeps_scan now p c n).ledger]
  · rw [Dispatch.run_eq_of_some h, owner_admin]
  · rw [Dispatch.run_eq_of_none h]

end Client

namespace Root

open Command Handler

/-- The handler of the root for a command: of snapshots, or none. -/
theorem dispatch_verb (now : Time.Instant) (r : Root) (verb : String) :
    r.dispatch now verb =
      if r.keepsSnapshots = true ∧ verb ∈ snapshotVerbs then some (snapshot now) else none := by
  rw [dispatch]
  split
  next hk => simp [hk, Dispatch.serving, Dispatch.empty]
  next hk => simp [hk, Dispatch.empty]

/-- The root answers its own commands and leaves its ledger alone. -/
theorem keeps_run (now : Time.Instant) (r : Root) (c : Command) (n : Node Archive) :
    Keeps c n ((r.dispatch now).run c n) := by
  have h := dispatch_verb now r c.verb
  split_ifs at h
  · rw [Dispatch.run_eq_of_some h]
    have hkeeps := keeps_snapshot now c n
    exact ⟨hkeeps.answer.rekey, hkeeps.ledger⟩
  · rw [Dispatch.run_eq_of_none h]
    exact keeps_invalid c n

/-- Whatever the root runs itself is done at once. -/
theorem isTerminal_run (now : Time.Instant) (r : Root) (c : Command) (n : Node Archive) :
    ((r.dispatch now).run c n).1.status.isTerminal = true := by
  rcases (keeps_run now r c n).answer.status with hdone | ⟨hwait, hverb⟩
  · exact hdone
  · have h := dispatch_verb now r c.verb
    split_ifs at h with hsnapshot
    · have hne : c.verb ∉ snapshotVerbs := by
        intro hmem
        rw [List.mem_singleton.1 hmem] at hverb
        exact absurd hverb (by decide)
      exact absurd hsnapshot.2 hne
    · rw [Dispatch.run_eq_of_none h]
      rfl

end Root

end Switchyard
