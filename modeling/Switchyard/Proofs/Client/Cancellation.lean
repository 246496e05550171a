import Switchyard.Proofs.Fleet.Run
import Switchyard.Proofs.Inventory.Targets
import Switchyard.Proofs.Node.Handover

/-!
# The note of a cancellation

A command for a device that still waits after its last attempt is cancelled, with a note if its
device is not known. The handler looks the device up by the target of the command, which may be its
hardware address in any spelling or its address on the network. The note goes by the device that the
answer names: the canonical spelling of the target, if it is a hardware address, else the target
itself. This is looked up as a hardware address only.

So a cancellation carries the note exactly if no device has the target as its hardware address. That
is right unless a device has the target as its address on the network only.

## Main results

* `Handler.acts_deviceAction` : a command for a device is done, or it waits and names its target.
* `Client.note_of_cancellation` : when a cancellation carries the note, and when that is right.
-/

namespace Switchyard

/-! ### Commands for one device -/

namespace Handler

variable {ω : Type}

/-- Whether a command was carried out or refused. -/
def isDecided : Status → Bool
  | .ok => true
  | .error _ => true
  | _ => false

theorem ne_cancelled_of_isDecided {s : Status} (h : isDecided s = true) (note : Option String) :
    s ≠ .cancelled note := by
  rintro rfl
  cases h

theorem isPending_of_isDecided {s : Status} (h : isDecided s = true) : s.isPending = false := by
  cases s with
  | pending reason => cases h
  | _ => rfl

/-- A command for a device is carried out or refused, or it waits and concerns the device that its
second word names. Then nothing else has happened. -/
def Acts (c : Command) (n : Node (Bench ω)) (r : Command × Node (Bench ω)) : Prop :=
  isDecided r.1.status = true ∨ ∃ target reason, c.words[1]? = some target ∧
    r = (waiting reason (concerning target c), n)

variable {target : String} {c : Command}

theorem isDecided_ask (p : Protocol ω) (q : Device.Request) (c : Command) (n : Node (Bench ω)) :
    isDecided (ask p q c n).1.status = true := by
  change isDecided (answered (Bench.request p q n).1 c).status = true
  cases (Bench.request p q n).1 <;> rfl

theorem acts_waiting (h : c.words[1]? = some target) (reason : String) (n : Node (Bench ω)) :
    Acts c n (waiting reason (concerning target c), n) :=
  Or.inr ⟨target, reason, h, rfl⟩

theorem acts_simple (h : c.words[1]? = some target) (p : Protocol ω)
    (action ip user password : String) (n : Node (Bench ω)) :
    Acts c n (simple p action target ip user password c n) := by
  unfold simple
  simp only
  split
  next => exact acts_waiting h _ n
  next =>
    split
    · exact acts_waiting h _ n
    · exact Or.inl (isDecided_ask ..)

theorem acts_reset (h : c.words[1]? = some target) (p : Protocol ω) (ip user password : String)
    (n : Node (Bench ω)) : Acts c n (reset p target ip user password c n) := by
  unfold reset
  simp only
  split
  next => exact acts_waiting h _ n
  next =>
    split
    next => exact acts_waiting h _ n
    next => exact acts_waiting h _ n
    next =>
      -- the answer is that of the device, whether or not the lock can be given back
      left
      split
      · exact isDecided_ask ..
      · exact isDecided_ask ..

theorem acts_switch (h : c.words[1]? = some target) (p : Protocol ω) (user password args : String)
    (n : Node (Bench ω)) : Acts c n (switch p target user password args c n) := by
  unfold switch
  simp only
  split
  next => exact acts_waiting h _ n
  next =>
    split_ifs
    · exact Or.inl rfl
    · exact Or.inl rfl
    · exact acts_waiting h _ n
    · exact Or.inl (isDecided_ask ..)

/-- So acts every command for a device. -/
theorem acts_deviceAction (p : Protocol ω) (c : Command) (n : Node (Bench ω)) :
    Acts c n (deviceAction p c n) := by
  unfold deviceAction
  split
  next hwords => exact acts_simple (congrArg (·[1]?) hwords) ..
  next hwords => exact acts_simple (congrArg (·[1]?) hwords) ..
  next hwords => exact acts_reset (congrArg (·[1]?) hwords) ..
  next hwords => exact acts_switch (congrArg (·[1]?) hwords) ..
  next => exact Or.inl rfl

/-- The note of a cancelled command that concerned a target. -/
theorem missingDevice_concerning (target reason : String) (c : Command) (inv : Inventory) :
    (waiting reason (concerning target c)).missingDevice inv =
      if (inv.atMac? target).isSome then none
      else some ("device " ++ (Mac.canonical? target).getD target ++ " not found") := by
  rw [← Inventory.contains_canonical]
  change ((some ((Mac.canonical? target).getD target)).filter _).map _ = _
  rw [Option.filter_some]
  cases inv.contains ((Mac.canonical? target).getD target) <;> rfl

end Handler

/-! ### Cancellations -/

/-- What is cancelled after an attempt was to wait. -/
theorem Command.cancelled_of_settled {c o : Command} {inv : Inventory} {note : Option String}
    (hc : ∀ note, c.status ≠ .cancelled note) (ho : c.settled inv = some o)
    (h : o.status = .cancelled note) :
    c.status.isPending = true ∧ o = c.finish (.cancelled note) ∧ note = c.missingDevice inv := by
  rcases of_settled ho with ⟨rfl, -⟩ | ⟨rfl, hwait, -⟩
  · exact absurd h (hc note)
  · obtain rfl := Status.cancelled.inj h
    exact ⟨hwait, rfl, rfl⟩

namespace Client

open Command Handler

variable {ω : Type} {p : Protocol ω} {d : Dispatch (Bench ω)} {n : Client ω} {h : Handover}
  {o : Command} {note : Option String}

/-- If a command for a device is cancelled in a pass, the second word of its text is its target, and
it concerns the device in the canonical spelling. It carries the note that this device was not found
if and only if no device has the target as its hardware address at that moment, and so always if
the target is an address on the network. The note is there exactly if the target names no device,
unless a device has the target as its address on the network and none as its hardware address. -/
theorem note_of_cancellation (hd : ∀ verb ∈ deviceVerbs, d verb = some (deviceAction p))
    (hh : h ∈ n.handed d n.ledger.runnableKeys) (hverb : h.given.verb ∈ deviceVerbs)
    (ho : h.outcome = some o) (hcancel : o.status = .cancelled note) :
    ∃ target, h.given.words[1]? = some target ∧
      let device := (Mac.canonical? target).getD target
      let inv := h.inventory
      o.device = some device ∧
      note = (if (inv.atMac? target).isSome then none
        else some ("device " ++ device ++ " not found")) ∧
      (isIpv4 target = true → note = some ("device " ++ target ++ " not found")) ∧
      ((note.isSome ↔ inv.find? target = none) ↔
        (inv.atMac? target = none → inv.atIp? target = none)) := by
  obtain ⟨m, hanswer, -⟩ := Node.exists_answer_of_mem_handed hh
  have hrun : (d.run h.given m).1 =
      { (deviceAction p h.given m).1 with text := h.given.text, client := h.given.client } := by
    rw [Dispatch.run, hd _ hverb]
  rcases acts_deviceAction p h.given m with hdecided | ⟨target, reason, htarget, hwaits⟩
  · have hstatus : isDecided h.answer.status = true := by
      rw [hanswer, hrun]
      exact hdecided
    obtain ⟨hwait, -⟩ := cancelled_of_settled (ne_cancelled_of_isDecided hstatus) ho hcancel
    rw [isPending_of_isDecided hstatus] at hwait
    cases hwait
  · have hwaiting : h.answer = waiting reason (concerning target h.given) := by
      rw [hanswer, hrun, hwaits]
      rfl
    obtain ⟨-, houtcome, hnote⟩ :=
      cancelled_of_settled (by rw [hwaiting]; exact fun _ ↦ Status.noConfusion) ho hcancel
    rw [hwaiting, missingDevice_concerning] at hnote
    refine ⟨target, htarget, ?_, hnote, fun hip ↦ ?_, ?_⟩
    · rw [houtcome, hwaiting]
      rfl
    · rw [hnote, Inventory.atMac?_of_isIpv4 hip, Mac.canonical?_of_isIpv4 hip]
      rfl
    · rw [hnote, Inventory.find?_eq]
      cases h.inventory.atMac? target <;> simp

/-! ### A device that stays locked -/

/-- A client that knows one device, which is locked. Two commands for it have one attempt left: one
that names it by its hardware address, and one that names it by its address on the network. -/
def barred : Client Unit where
  ledger := ["beep 00:60:e9:00:00:01 10.0.0.1", "beep 10.0.0.1 10.0.0.1"].foldl
    (fun l text ↦ l.store { text, status := .pending "device locked", retries := 2 })
    { owner := "c1" }
  inventory := Inventory.store
    { mac := "00-60-E9-00-00-01", ip := "10.0.0.1", locked := true } .listened
  site := { network := () }

/-- A dispatch of commands for devices. -/
def actions : Dispatch (Bench Unit) :=
  .serving deviceVerbs (deviceAction (Fleet.quiet ())) .empty

/-- Both commands are cancelled although the device is known, the first without a note and the
second with one. -/
theorem note_of_cancellation_of_barred :
    let handed := barred.handed actions barred.ledger.runnableKeys
    (∃ h ∈ handed, ∃ o, h.outcome = some o ∧ o.status = .cancelled none ∧
      (h.inventory.find? "00:60:e9:00:00:01").isSome = true) ∧
    ∃ h ∈ handed, ∃ o, h.outcome = some o ∧
      o.status = .cancelled (some "device 10.0.0.1 not found") ∧
      (h.inventory.find? "10.0.0.1").isSome = true := by
  intro handed
  have hd : ∀ verb ∈ deviceVerbs, actions verb = some (deviceAction (Fleet.quiet ())) :=
    fun _ hverb ↦ if_pos hverb
  constructor
  · obtain ⟨h, hh, hverb, hwords, hmac, hfind, hdone⟩ : ∃ h ∈ handed, h.given.verb ∈ deviceVerbs ∧
        h.given.words[1]? = some "00:60:e9:00:00:01" ∧
        (h.inventory.atMac? "00:60:e9:00:00:01").isSome = true ∧
        (h.inventory.find? "00:60:e9:00:00:01").isSome = true ∧
        h.outcome.any (·.status matches .cancelled _) = true := by decide +kernel
    obtain ⟨o, ho, hdone⟩ := (Option.any_eq_true ..).1 hdone
    cases hcancel : o.status with
    | cancelled note =>
      obtain ⟨target, htarget, -, hnote, -⟩ := note_of_cancellation hd hh hverb ho hcancel
      obtain rfl := Option.some.inj (htarget.symm.trans hwords)
      rw [if_pos hmac] at hnote
      exact ⟨h, hh, o, ho, by rw [hcancel, hnote], hfind⟩
    | _ => simp [hcancel] at hdone
  · obtain ⟨h, hh, hverb, hwords, hfind, hdone⟩ : ∃ h ∈ handed, h.given.verb ∈ deviceVerbs ∧
        h.given.words[1]? = some "10.0.0.1" ∧
        (h.inventory.find? "10.0.0.1").isSome = true ∧
        h.outcome.any (·.status matches .cancelled _) = true := by decide +kernel
    obtain ⟨o, ho, hdone⟩ := (Option.any_eq_true ..).1 hdone
    cases hcancel : o.status with
    | cancelled note =>
      obtain ⟨target, htarget, -, -, hnote, -⟩ := note_of_cancellation hd hh hverb ho hcancel
      obtain rfl := Option.some.inj (htarget.symm.trans hwords)
      exact ⟨h, hh, o, ho, by rw [hcancel, hnote (by decide)]; rfl, hfind⟩
    | _ => simp [hcancel] at hdone

end Client

end Switchyard
