import Switchyard.Proofs.Handler.Contract
import Switchyard.Proofs.Inventory.Targets

/-!
# Locks of devices and requests

A command for one device makes at most one request, and only if the device is there and free. A
reset holds the lock while its request runs, all other commands make their request of an unlocked
device. Whatever becomes of a command, and however the network answers, the inventory is the same
afterwards, locks included.

## Main definitions

* `Handler.Free` : when a device that was found may be acted upon.
* `Handler.Course` : how a command for one device may go.

## Main results

* `Handler.course_deviceAction` : so goes every command for one device.
* `Handler.locks_respected` : locks and requests in a canonical inventory.
-/

namespace Switchyard.Handler

open Command

variable {ω : Type} {p : Protocol ω} {c : Command} {n : Node (Bench ω)} {inv : Inventory}
  {target verb : String} {d : Device}

/-! ### How a command may go -/

/-- Whether a device that was found is free. A reset takes the lock of what is stored under the
address of the device, the other commands look at the device itself. -/
def Free (verb : String) (inv : Inventory) (d : Device) : Prop :=
  if verb = "reset" then ∃ d', inv.atMac? d.mac = some d' ∧ d'.locked = false
  else d.locked = false

/-- In a canonical inventory it comes to the same. -/
theorem free_iff (hinv : inv.Canonical) (hd : inv.find? target = some d) :
    Free verb inv d ↔ d.locked = false := by
  rw [Free, (hinv.atMac?_of_find? hd).2]
  split
  · simp
  · rfl

/-- A node after a request, which was made while the device had the given lock. -/
def requested (p : Protocol ω) (q : Device.Request) (locked : Option Bool) (n : Node (Bench ω)) :
    Node (Bench ω) :=
  { n with site := { n.site with
      asked := n.site.asked ++ [⟨q, locked⟩], network := (p.execute q n.site.network).2 } }

/-- How a command for one device may go: it is refused for its words or for the model of the device,
or it waits for the device that its second word names, or it makes one request of that device. Only
the request leaves something behind. -/
inductive Course (p : Protocol ω) (c : Command) (n : Node (Bench ω)) :
    Command × Node (Bench ω) → Prop
  | invalid : Course p c n (c.invalid, n)
  | unsuited (target reason : String) :
      Course p c n ((concerning target c).finish (.error reason), n)
  | barred {target : String} (reason : String) (htarget : c.words[1]? = some target)
      (hbarred : ∀ d, n.inventory.find? target = some d → ¬Free c.verb n.inventory d) :
      Course p c n (waiting reason (concerning target c), n)
  | asked {target : String} {d : Device} {q : Device.Request} {locked : Option Bool}
      (htarget : c.words[1]? = some target) (hd : n.inventory.find? target = some d)
      (hfree : Free c.verb n.inventory d) (hmac : q.mac = d.mac) (haction : q.action = c.verb)
      (hlocked : locked = if c.verb = "reset" then some true
        else (n.inventory.isLocked d.mac).toOption) :
      Course p c n
        (answered (p.execute q n.site.network).1 (concerning target c), requested p q locked n)

/-- A target that names nothing has no device that is free. -/
theorem course_unknown (htarget : c.words[1]? = some target)
    (hnone : n.inventory.find? target = none) (reason : String) :
    Course p c n (waiting reason (concerning target c), n) := by
  refine .barred reason htarget fun d hd ↦ ?_
  rw [hnone] at hd
  cases hd

/-- A device that is not free is the only one that the target names. -/
theorem course_barred (htarget : c.words[1]? = some target)
    (hd : n.inventory.find? target = some d) (hbarred : ¬Free c.verb n.inventory d)
    (reason : String) : Course p c n (waiting reason (concerning target c), n) := by
  refine .barred reason htarget fun d' hd' ↦ ?_
  obtain rfl := Option.some.inj (hd.symm.trans hd')
  exact hbarred

theorem free_of_ne (hverb : verb ≠ "reset") : Free verb inv d ↔ d.locked = false := by
  rw [Free, if_neg hverb]

/-- A request of a device that is not locked for it. -/
theorem course_ask (htarget : c.words[1]? = some target) (hd : n.inventory.find? target = some d)
    (hverb : c.verb ≠ "reset") (hfree : d.locked = false) {q : Device.Request}
    (hmac : q.mac = d.mac) (haction : q.action = c.verb) :
    Course p c n (ask p q (concerning target c) n) := by
  refine .asked htarget hd ((free_of_ne hverb).2 hfree) hmac haction ?_
  rw [if_neg hverb, hmac]

theorem course_simple {action : String} (htarget : c.words[1]? = some target)
    (haction : action = c.verb) (hverb : c.verb ≠ "reset") (ip user password : String) :
    Course p c n (simple p action target ip user password c n) := by
  unfold simple
  simp only
  split
  next hnone => exact course_unknown htarget hnone _
  next d hd =>
    split
    next hlocked =>
      refine course_barred htarget hd ?_ _
      rw [free_of_ne hverb, hlocked]
      exact Bool.noConfusion
    next hfree => exact course_ask htarget hd hverb (Bool.eq_false_iff.2 hfree) rfl haction

theorem course_switch (htarget : c.words[1]? = some target) (hverb : c.verb = "switch")
    (user password args : String) :
    Course p c n (switch p target user password args c n) := by
  have hne : c.verb ≠ "reset" := by
    rw [hverb]
    decide
  unfold switch
  simp only
  split
  next hnone => exact course_unknown htarget hnone _
  next d hd =>
    split_ifs with _ _ hlocked
    · exact .unsuited ..
    · exact .unsuited ..
    · refine course_barred htarget hd ?_ _
      rw [free_of_ne hne, hlocked]
      exact Bool.noConfusion
    · exact course_ask htarget hd hne (Bool.eq_false_iff.2 hlocked) rfl hverb.symm

/-- A reset takes the lock, makes its request and gives the lock back. -/
theorem course_reset (htarget : c.words[1]? = some target) (hverb : c.verb = "reset")
    (ip user password : String) :
    Course p c n (reset p target ip user password c n) := by
  unfold reset
  simp only
  split
  next hnone => exact course_unknown htarget hnone _
  next d hd =>
    have hbarred (h : ∀ held, n.inventory.tryAcquire d.mac ≠ .ok (true, held)) :
        ¬Free c.verb n.inventory d := by
      rw [Free, if_pos hverb]
      rintro ⟨d', hd', hfree⟩
      obtain ⟨held, hheld⟩ := Inventory.exists_tryAcquire hd' hfree
      exact h held hheld
    split
    next hlock => exact course_barred htarget hd (hbarred (by simp [hlock])) _
    next hlock => exact course_barred htarget hd (hbarred (by simp [hlock])) _
    next held hlock =>
      obtain ⟨key, d', hmac, hd', hfree, -⟩ := Inventory.exists_of_tryAcquire hlock
      have hrelease : held.release d.mac = .ok n.inventory := Inventory.release_of_tryAcquire hlock
      have hlocked : some true = (held.isLocked d.mac).toOption := by
        rw [Inventory.isLocked_of_tryAcquire hlock]
        rfl
      have hown : n.inventory.atMac? d.mac = some d' := by
        rw [Inventory.atMac?, hmac, Option.bind_some, hd']
      have hasked := Course.asked (p := p)
        (q := { action := "reset", mac := d.mac, ip, user, password }) htarget hd
        (by rw [Free, if_pos hverb]; exact ⟨d', hown, hfree⟩) rfl hverb.symm
        (hlocked.symm.trans (if_pos hverb).symm)
      split
      next released hreleased =>
        obtain rfl : n.inventory = released := Except.ok.inj (hrelease.symm.trans hreleased)
        exact hasked
      next fault hreleased => exact absurd (hrelease.symm.trans hreleased) (by simp)

/-- So goes every command for one device. -/
theorem course_deviceAction (p : Protocol ω) (c : Command) (n : Node (Bench ω)) :
    Course p c n (deviceAction p c n) := by
  unfold deviceAction
  split
  next hwords =>
    have hverb := verb_of_words hwords
    exact course_simple (congrArg (·[1]?) hwords) hverb.symm (by rw [hverb]; decide) ..
  next hwords =>
    have hverb := verb_of_words hwords
    exact course_simple (congrArg (·[1]?) hwords) hverb.symm (by rw [hverb]; decide) ..
  next hwords => exact course_reset (congrArg (·[1]?) hwords) (verb_of_words hwords) ..
  next hwords => exact course_switch (congrArg (·[1]?) hwords) (verb_of_words hwords) ..
  next => exact .invalid

/-! ### Locks -/

/-- In a canonical inventory: whatever a command for a device does and however the network answers,
the inventory is the same afterwards. Every request that is made is one of the device that the
second word names, which was free when the command came, and this device is locked at that moment
for a reset and not locked for any other command. A command whose device is locked when it comes
makes no request, leaves everything as it was and does not succeed. -/
theorem locks_respected (hinv : n.inventory.Canonical) (p : Protocol ω) (c : Command) :
    let r := deviceAction p c n
    r.2.inventory = n.inventory ∧
    (∃ asked, r.2.site.asked = n.site.asked ++ asked ∧ ∀ a ∈ asked,
      a.request.action = c.verb ∧ a.locked = some (c.verb == "reset") ∧
      ∃ target d, c.words[1]? = some target ∧ n.inventory.find? target = some d ∧
        n.inventory.devices.get? a.request.mac = some d ∧ d.locked = false) ∧
    ∀ target d, c.words[1]? = some target → n.inventory.find? target = some d → d.locked = true →
      r.2 = n ∧ r.1.status ≠ .ok := by
  intro r
  have hcourse : Course p c n r := course_deviceAction p c n
  clear_value r
  cases hcourse with
  | @asked target d q locked htarget hd hfree hmac haction hlocked =>
    obtain ⟨hstored, hown⟩ := hinv.atMac?_of_find? hd
    have hfree : d.locked = false := (free_iff hinv hd).1 hfree
    refine ⟨rfl, ⟨[⟨q, locked⟩], rfl, ?request⟩, ?locked⟩
    case request =>
      rw [List.forall_mem_singleton]
      refine ⟨haction, ?_, target, d, htarget, hd, hmac ▸ hstored, hfree⟩
      rw [Inventory.isLocked_of_atMac? hown, hfree] at hlocked
      by_cases hverb : c.verb = "reset" <;> simp [hlocked, hverb, Except.toOption]
    case locked =>
      intro target' d' htarget' hd' hlocked'
      obtain rfl := Option.some.inj (htarget.symm.trans htarget')
      obtain rfl := Option.some.inj (hd.symm.trans hd')
      exact absurd (hfree.symm.trans hlocked') Bool.false_ne_true
  | _ => exact ⟨rfl, ⟨[], by simp⟩, fun _ _ _ _ _ ↦ ⟨rfl, Status.noConfusion⟩⟩

/-- A network on which every request fails. -/
def failing : Protocol Unit where
  execute _ _ := (.error (.execution "telnet timeout"), ())
  scan _ _ := (.error (.execution "no answer"), ())

/-- A node that knows two devices, of which the second is locked. -/
def guarding : Node (Bench Unit) where
  ledger := { owner := "c1" }
  inventory := Inventory.listened.after
    [.insert default { mac := "00:60:e9:00:00:01", ip := "10.0.0.1" },
      .insert default { mac := "00:60:e9:00:00:02", ip := "10.0.0.2" },
      .setLock true "0060e9000002"]
  site := { network := () }

/-- A reset of the device with the given address on the network. -/
def wiping (ip : String) : Command := { text := "reset " ++ ip ++ " 10.0.0.9 admin default" }

/-- A reset of the first device is asked for under the lock, fails and leaves the devices as they
were. One of the second is not asked for. -/
theorem locks_respected_of_guarding :
    let first := deviceAction failing (wiping "10.0.0.1") guarding
    let second := deviceAction failing (wiping "10.0.0.2") guarding
    ((first.2.site.asked.map (·.request.mac)) = ["00-60-E9-00-00-01"] ∧
      (∀ a ∈ first.2.site.asked, a.locked = some true) ∧
      first.2.inventory = guarding.inventory) ∧ second.2 = guarding := by
  intro first second
  have hinv : guarding.inventory.Canonical := (Inventory.Canonical.of_empty rfl).after _
  have hverb : (wiping "10.0.0.1").verb = "reset" := by decide +kernel
  have hlocked : (guarding.inventory.find? "10.0.0.2").any (·.locked) = true := by decide +kernel
  obtain ⟨d, hd, hlocked⟩ := (Option.any_eq_true ..).1 hlocked
  obtain ⟨hkept, ⟨asked, hasked, hrequests⟩, -⟩ := locks_respected hinv failing (wiping "10.0.0.1")
  obtain ⟨-, -, hbarred⟩ := locks_respected hinv failing (wiping "10.0.0.2")
  refine ⟨⟨by decide +kernel, fun a ha ↦ ?_, hkept⟩,
    (hbarred "10.0.0.2" d (by decide +kernel) hd hlocked).1⟩
  have hmade : a ∈ guarding.site.asked ++ asked := hasked ▸ ha
  obtain ⟨-, hheld, -⟩ := hrequests a hmade
  rw [hheld, hverb]
  rfl

end Switchyard.Handler
