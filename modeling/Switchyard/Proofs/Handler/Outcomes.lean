import Switchyard.Proofs.Handler.Locks

/-!
# What comes of a command

Whatever handlers a node has, what comes of a command keeps to one contract. The answer is the
command with another status, result or device, and it is never new. It waits only for a device that
is not known or not free, and then nothing has happened. If it does not succeed, its result stays,
and nothing is changed but the record of requests and the network itself. At most one request is
made. And a fault of anything that the command relies on, the network, an interval, the ledger or
the archive, is its error.

## Main definitions

* `Dispatch.limited` : a dispatch that serves only some first words.
* `Handler.Outcome`, `Handler.ArchiveOutcome` : the contract, for the handlers of a client and for
  that of snapshots.
* `Handler.Faulty`, `Handler.ArchiveFaulty` : what they may meet with.
* `Handler.archivist` : a dispatch with the handler of snapshots alone.

## Main results

* `Handler.outcome_run`, `Handler.archiveOutcome_run` : what comes of a command.
* `Handler.status_run` : what comes of a fault.
* `Handler.contract_of_run` : dispatches with any of the handlers.
-/

namespace Switchyard

/-- A dispatch that serves only some of the first words it could. -/
def Dispatch.limited {ε : Type} (served : String → Bool) (d : Dispatch ε) : Dispatch ε :=
  fun verb ↦ if served verb then d verb else none

namespace Handler

open Command

variable {ω ε : Type} {p : Protocol ω} {now : Time.Instant} {c : Command} {n : Node (Bench ω)}
  {r : Command × Node (Bench ω)}

/-- What may come of a command at a client. -/
structure Outcome (c : Command) (n : Node (Bench ω)) (r : Command × Node (Bench ω)) : Prop where
  answer : IsAnswer c r.1
  waits : r.1.status.isPending = true → r.2 = n ∧ ∃ target, c.words[1]? = some target ∧
    ∀ d, n.inventory.find? target = some d →
      ¬Free c.verb n.inventory d ∧ (n.inventory.Canonical → d.locked = true)
  unchanged : r.1.status ≠ .ok → r.1.result = c.result ∧
    r.2 = { n with site := { n.site with
      asked := r.2.site.asked, network := r.2.site.network } }
  requests : ∃ asked, r.2.site.asked = n.site.asked ++ asked ∧ asked.length ≤ 1

/-- What a command may meet with at a client, as the reason of its error: the one request that it
made failed, its sweep failed, its interval is refused, or the command that it takes out is not
there. -/
inductive Faulty (p : Protocol ω) (c : Command) (n m : Node (Bench ω)) : String → Prop
  | request {a : Asked} {fault : Fault} (hverb : c.verb ∈ deviceVerbs)
      (hasked : m.site.asked = n.site.asked ++ [a])
      (hfault : (p.execute a.request n.site.network).1 = .error fault) :
      Faulty p c n m fault.message
  | sweep {s : Source} {fault : Fault} (hwords : c.words = ["scan", s.name])
      (hfault : (p.scan s n.site.network).1 = .error fault) : Faulty p c n m fault.message
  | command {word : String} {seconds : Nat} {fault : Fault}
      (hwords : c.words = ["command", "interval", word])
      (hseconds : Text.unsigned? 10 Text.bound64 word.toList = some seconds)
      (hfault : n.site.intervals.setCommand seconds = .error fault) :
      Faulty p c n m (refusal fault)
  | liveness {word : String} {seconds : Nat} {fault : Fault}
      (hwords : c.words = ["arp", "interval", word])
      (hseconds : Text.unsigned? 10 Text.bound64 word.toList = some seconds)
      (hfault : n.site.intervals.setLiveness seconds = .error fault) :
      Faulty p c n m (refusal fault)
  | deletion {k : Key} {fault : Fault} (hdeletes : c.deletes? = some k)
      (hfault : n.ledger.delete k = .error fault) : Faulty p c n m fault.message

/-- What may come of a command about snapshots. -/
structure ArchiveOutcome (c : Command) (n : Node Archive) (r : Command × Node Archive) : Prop where
  answer : IsAnswer c r.1
  terminal : r.1.status.isTerminal = true
  unchanged : r.1.status ≠ .ok → r.1.result = c.result ∧ r.2 = n

/-- What a command about snapshots may meet with. -/
inductive ArchiveFaulty (now : Time.Instant) (c : Command) (n : Node Archive) : Fault → Prop
  | save {fault : Fault} (hwords : c.words = ["devices", "save"])
      (hfault : n.site.save now n.inventory.devices = .error fault) : ArchiveFaulty now c n fault
  | load {file : Option String} {fault : Fault}
      (hwords : c.words = "devices" :: "load" :: file.toList)
      (hfault : n.inventory.load file n.site = .error fault) : ArchiveFaulty now c n fault
  | list {fault : Fault} (hwords : c.words = ["devices", "files", "list"])
      (hfault : n.site.snapshots = .error fault) : ArchiveFaulty now c n fault

/-! ### Outcomes at a client -/

/-- A command that ends with an error leaves its result and changes nothing but the record of
requests and the network. -/
theorem outcome_error (reason : String) (c : Command) (n : Node (Bench ω)) (asked : List Asked)
    (network : ω) (hone : asked.length ≤ 1) :
    Outcome c n (c.finish (.error reason),
      { n with site := { n.site with asked := n.site.asked ++ asked, network } }) where
  answer := isAnswer_finish rfl c
  waits h := by cases h
  unchanged _ := ⟨rfl, rfl⟩
  requests := ⟨asked, rfl, hone⟩

theorem outcome_refused (reason : String) (c : Command) (n : Node (Bench ω)) :
    Outcome c n (c.finish (.error reason), n) := by
  have h := outcome_error reason c n [] n.site.network (Nat.zero_le 1)
  rwa [List.append_nil] at h

theorem outcome_invalid (c : Command) (n : Node (Bench ω)) : Outcome c n (c.invalid, n) :=
  outcome_refused _ c n

/-- The device that a command concerns is not part of what comes of it. -/
theorem Outcome.of_concerning {target : String} (h : Outcome (concerning target c) n r) :
    Outcome c n r where
  answer := (Keeps.of_concerning (n := r.2) ⟨h.answer, rfl⟩).answer
  waits := h.waits
  unchanged := h.unchanged
  requests := h.requests

/-- A command that succeeded is answered, and at most one request was made for it. -/
theorem outcome_ok (asked : List Asked) {m : Node (Bench ω)} (result : String)
    (hasked : m.site.asked = n.site.asked ++ asked) (hone : asked.length ≤ 1) :
    Outcome c n ({ c with result, status := .ok }, m) where
  answer := isAnswer_ok result c
  waits h := by cases h
  unchanged h := absurd rfl h
  requests := ⟨asked, hasked, hone⟩

theorem Course.outcome (hcourse : Course p c n r) (hanswer : IsAnswer c r.1) : Outcome c n r := by
  cases hcourse with
  | invalid => exact outcome_invalid c n
  | unsuited target reason => exact (outcome_refused reason _ n).of_concerning
  | barred reason htarget hbarred =>
    refine ⟨hanswer, fun _ ↦ ⟨rfl, _, htarget, fun d hd ↦ ⟨hbarred d hd, fun hinv ↦ ?_⟩⟩,
      fun _ ↦ ⟨rfl, rfl⟩, [], by simp⟩
    have hlocked := hbarred d hd
    rwa [free_iff hinv hd, Bool.not_eq_false] at hlocked
  | @asked target d q locked =>
    refine ⟨hanswer, fun h ↦ ?_, fun h ↦ ⟨?_, rfl⟩, [⟨q, locked⟩], rfl, Nat.le_refl 1⟩
    all_goals
      revert h
      dsimp only
      cases (p.execute q n.site.network).1 with
      | ok output => simp [answered, Status.isPending]
      | error fault => simp [answered, Status.isPending, concerning, finish]

/-- Commands for one device. -/
theorem outcome_deviceAction (p : Protocol ω) (hc : c.verb ∈ deviceVerbs) (n : Node (Bench ω)) :
    Outcome c n (deviceAction p c n) :=
  (course_deviceAction p c n).outcome (keeps_deviceAction p hc n).answer

theorem outcome_sweep (now : Time.Instant) (p : Protocol ω) (s : Source) (c : Command)
    (n : Node (Bench ω)) : Outcome c n (sweep now p s c n) := by
  rw [sweep]
  simp only
  split
  next => exact outcome_error _ c n [_] _ (Nat.le_refl 1)
  next => exact outcome_ok [_] _ rfl (Nat.le_refl 1)

/-- Sweeps of the network. -/
theorem outcome_scan (now : Time.Instant) (p : Protocol ω) (c : Command) (n : Node (Bench ω)) :
    Outcome c n (scan now p c n) := by
  rw [scan]
  split
  · exact outcome_sweep now p _ c n
  · exact outcome_sweep now p _ c n
  · exact outcome_invalid c n

theorem outcome_setInterval (set : Nat → Intervals → Except Fault Intervals) (word : String)
    (c : Command) (n : Node (Bench ω)) : Outcome c n (setInterval set word c n) := by
  rw [setInterval]
  split
  next => exact outcome_invalid c n
  next =>
    split
    next => exact outcome_refused _ c n
    next => exact outcome_ok [] _ (List.append_nil _).symm (Nat.zero_le 1)

theorem outcome_deleteCommand (words : List String) (c : Command) (n : Node (Bench ω)) :
    Outcome c n (deleteCommand words c n) := by
  unfold deleteCommand
  simp only
  split
  next => exact outcome_ok [] _ (List.append_nil _).symm (Nat.zero_le 1)
  next => exact outcome_refused _ c n

/-- Commands for the node itself. -/
theorem outcome_admin (c : Command) (n : Node (Bench ω)) : Outcome c n (admin c n) := by
  rw [admin]
  split
  · exact outcome_deleteCommand _ c n
  · exact outcome_setInterval _ _ c n
  · exact outcome_setInterval _ _ c n
  · exact outcome_invalid c n

/-! ### Faults at a client -/

/-- A request that was made and failed. -/
theorem Course.status_of_fault {a : Asked} {fault : Fault} (hcourse : Course p c n r)
    (hasked : r.2.site.asked = n.site.asked ++ [a])
    (hfault : (p.execute a.request n.site.network).1 = .error fault) :
    r.1.status = .error fault.message := by
  cases hcourse with
  | @asked target d q locked =>
    obtain rfl : (⟨q, locked⟩ : Asked) = a := List.singleton_inj.1 (List.append_cancel_left hasked)
    simp only [hfault, answered, finish]
  | _ => simp at hasked

theorem status_sweep {s : Source} {fault : Fault}
    (hfault : (p.scan s n.site.network).1 = .error fault) :
    (sweep now p s c n).1.status = .error fault.message := by
  simp only [sweep, Bench.sweep, hfault, finish]

/-- A sweep that failed. -/
theorem status_scan {s : Source} {fault : Fault} (hwords : c.words = ["scan", s.name])
    (hfault : (p.scan s n.site.network).1 = .error fault) :
    (scan now p c n).1.status = .error fault.message := by
  rw [scan, hwords]
  cases s with
  | gwd => exact status_sweep hfault
  | snmp => exact status_sweep hfault

/-- An interval that is refused. -/
theorem status_setInterval {set : Nat → Intervals → Except Fault Intervals} {word : String}
    {seconds : Nat} {fault : Fault}
    (hseconds : Text.unsigned? 10 Text.bound64 word.toList = some seconds)
    (hfault : set seconds n.site.intervals = .error fault) :
    (setInterval set word c n).1.status = .error (refusal fault) := by
  simp only [setInterval, hseconds, hfault, finish]

/-- A command to be taken out that is not there. -/
theorem status_admin_of_deletes? {k : Key} {fault : Fault} (hdeletes : c.deletes? = some k)
    (hfault : n.ledger.delete k = .error fault) :
    (admin c n).1.status = .error fault.message := by
  unfold deletes? at hdeletes
  split at hdeletes
  next word words hwords =>
    obtain rfl := Option.some.inj hdeletes
    simp only [admin, hwords, deleteCommand, hfault, finish]
  next => cases hdeletes

end Handler

/-! ### Dispatches -/

namespace Dispatch

open Command

variable {ε : Type} {d : Dispatch ε} {c : Command} {n : Node ε} {served : String → Bool}

theorem run_limited_of_served (h : served c.verb = true) (n : Node ε) :
    (d.limited served).run c n = d.run c n := by
  simp [run, limited, h]

/-- What holds of invalid commands and of those that a dispatch runs holds under any limit. -/
theorem of_run_limited {P : Command × Node ε → Prop} (hinvalid : P (c.invalid, n))
    (hrun : P (d.run c n)) (served : String → Bool) : P ((d.limited served).run c n) := by
  cases h : served c.verb with
  | true => rwa [run_limited_of_served h]
  | false => rwa [run_eq_of_none (by simp [limited, h])]

end Dispatch

namespace Handler

open Command

variable {ω : Type} {p : Protocol ω} {now : Time.Instant} {c : Command}

theorem run_of_deviceVerbs (hverb : c.verb ∈ deviceVerbs) (n : Client ω) :
    (Client.dispatch now p).run c n = deviceAction p c n :=
  Dispatch.run_eq_of_isAnswer (by rw [Client.dispatch_verb, if_pos hverb])
    (keeps_deviceAction p hverb n).answer

theorem run_of_scanVerbs (hverb : c.verb ∈ scanVerbs) (n : Client ω) :
    (Client.dispatch now p).run c n = scan now p c n := by
  refine Dispatch.run_eq_of_isAnswer ?_ (keeps_scan now p c n).answer
  rw [List.mem_singleton.1 hverb]
  rfl

theorem run_of_adminVerbs (hverb : c.verb ∈ adminVerbs) (n : Client ω) :
    (Client.dispatch now p).run c n = admin c n := by
  refine Dispatch.run_eq_of_isAnswer ?_ (isAnswer_admin c n)
  rcases List.mem_pair.1 hverb with h | h <;> rw [h] <;> rfl

/-- What comes of a command at a client, whichever handler it has. -/
theorem outcome_run (now : Time.Instant) (p : Protocol ω) (c : Command) (n : Client ω) :
    Outcome c n ((Client.dispatch now p).run c n) := by
  by_cases hdevice : c.verb ∈ deviceVerbs
  · rw [run_of_deviceVerbs hdevice]
    exact outcome_deviceAction p hdevice n
  by_cases hscan : c.verb ∈ scanVerbs
  · rw [run_of_scanVerbs hscan]
    exact outcome_scan now p c n
  by_cases hadmin : c.verb ∈ adminVerbs
  · rw [run_of_adminVerbs hadmin]
    exact outcome_admin c n
  rw [Dispatch.run_eq_of_none]
  · exact outcome_invalid c n
  · rw [Client.dispatch_verb, if_neg hdevice, if_neg hscan, if_neg hadmin]

/-- Whatever a command meets with is its error. -/
theorem status_run {n : Client ω} {reason : String}
    (h : Faulty p c n ((Client.dispatch now p).run c n).2 reason) :
    ((Client.dispatch now p).run c n).1.status = .error reason := by
  cases h with
  | request hverb hasked hfault =>
    rw [run_of_deviceVerbs hverb] at hasked ⊢
    exact (course_deviceAction p c n).status_of_fault hasked hfault
  | sweep hwords hfault =>
    rw [run_of_scanVerbs (by rw [verb_of_words hwords]; decide)]
    exact status_scan hwords hfault
  | command hwords hseconds hfault =>
    rw [run_of_adminVerbs (by rw [verb_of_words hwords]; decide), admin, hwords]
    exact status_setInterval hseconds hfault
  | liveness hwords hseconds hfault =>
    rw [run_of_adminVerbs (by rw [verb_of_words hwords]; decide), admin, hwords]
    exact status_setInterval hseconds hfault
  | deletion hdeletes hfault =>
    rw [run_of_adminVerbs (by rw [verb_of_deletes? hdeletes]; decide)]
    exact status_admin_of_deletes? hdeletes hfault

/-! ### Snapshots -/

theorem archiveOutcome_invalid (c : Command) (n : Node Archive) :
    ArchiveOutcome c n (c.invalid, n) :=
  ⟨isAnswer_invalid c, rfl, fun _ ↦ ⟨rfl, rfl⟩⟩

/-- Commands about snapshots. -/
theorem archiveOutcome_snapshot (now : Time.Instant) (c : Command) (n : Node Archive) :
    ArchiveOutcome c n (snapshot now c n) := by
  refine ⟨(keeps_snapshot now c n).answer, ?terminal, ?unchanged⟩
  case terminal =>
    rw [snapshot]
    split <;> rfl
  case unchanged =>
    rw [snapshot]
    split
    · exact fun _ ↦ ⟨rfl, rfl⟩
    · exact fun h ↦ absurd rfl h
    · exact fun _ ↦ ⟨rfl, rfl⟩

/-- Whatever a command about snapshots meets with is its error, and nothing is changed. -/
theorem snapshot_of_faulty {n : Node Archive} {fault : Fault} (h : ArchiveFaulty now c n fault) :
    snapshot now c n = (c.finish (.error fault.message), n) := by
  have hact : snapshotAction now c.words n = some (.error fault) := by
    cases h with
    | save hwords hfault => simp [snapshotAction, hwords, hfault, Except.map]
    | @load file _ hwords hfault =>
      cases file <;> simp [snapshotAction, hwords, hfault, Except.map]
    | list hwords hfault => simp [snapshotAction, hwords, hfault, Except.map]
  rw [snapshot, hact]

/-- A dispatch with the handler of snapshots alone. -/
def archivist (now : Time.Instant) : Dispatch Archive :=
  Dispatch.serving snapshotVerbs (snapshot now) .empty

theorem run_archivist (hverb : c.verb ∈ snapshotVerbs) (n : Node Archive) :
    (archivist now).run c n = snapshot now c n :=
  Dispatch.run_eq_of_isAnswer (if_pos hverb) (keeps_snapshot now c n).answer

theorem archiveOutcome_run (now : Time.Instant) (c : Command) (n : Node Archive) :
    ArchiveOutcome c n ((archivist now).run c n) := by
  by_cases hverb : c.verb ∈ snapshotVerbs
  · rw [run_archivist hverb]
    exact archiveOutcome_snapshot now c n
  · rw [Dispatch.run_eq_of_none (if_neg hverb)]
    exact archiveOutcome_invalid c n

theorem run_archivist_of_faulty {n : Node Archive} {fault : Fault}
    (h : ArchiveFaulty now c n fault) :
    (archivist now).run c n = (c.finish (.error fault.message), n) := by
  have hverb : c.verb ∈ snapshotVerbs := by
    cases h with
    | save hwords | load hwords | list hwords =>
      rw [verb_of_words hwords]
      decide
  rw [run_archivist hverb, snapshot_of_faulty h]

/-! ### The contract -/

/-- Whatever first words a node serves, with the handlers of a client or with that of snapshots, and
whatever the command, the node and the answers it gets: the command is answered and not new, it
waits only for a device that is not known or not free, without success its result and the node
stay as they were but for the record of requests and the network, and at most one request is made.
What a served command meets with is its error. -/
theorem contract_of_run {ω : Type} (served : String → Bool) (now : Time.Instant) (c : Command) :
    (∀ (p : Protocol ω) (n : Client ω),
      let r := ((Client.dispatch now p).limited served).run c n
      r.1.status ≠ .new ∧ Outcome c n r ∧
      (served c.verb = true → ∀ reason, Faulty p c n r.2 reason →
        r.1.status = .error reason)) ∧
    ∀ n : Node Archive,
      let r := ((archivist now).limited served).run c n
      r.1.status ≠ .new ∧ ArchiveOutcome c n r ∧
      (served c.verb = true → ∀ fault, ArchiveFaulty now c n fault →
        r.1.status = .error fault.message) := by
  constructor
  case left =>
    intro p n r
    have houtcome : Outcome c n r :=
      Dispatch.of_run_limited (outcome_invalid c n) (outcome_run now p c n) served
    refine ⟨houtcome.answer.status_ne_new, houtcome, fun hserved reason hfaulty ↦ ?_⟩
    have hr : r = (Client.dispatch now p).run c n := Dispatch.run_limited_of_served hserved n
    rw [hr] at hfaulty ⊢
    exact status_run hfaulty
  case right =>
    intro n r
    have houtcome : ArchiveOutcome c n r :=
      Dispatch.of_run_limited (archiveOutcome_invalid c n) (archiveOutcome_run now c n) served
    refine ⟨houtcome.answer.status_ne_new, houtcome, fun hserved fault hfaulty ↦ ?_⟩
    have hr : r = (archivist now).run c n := Dispatch.run_limited_of_served hserved n
    rw [hr, run_archivist_of_faulty hfaulty]
    rfl

/-- A reset whose request fails ends with the reason of the fault. -/
theorem contract_of_run_of_guarding :
    let d := (Client.dispatch default failing).limited fun _ ↦ true
    let r := d.run (wiping "10.0.0.1") guarding
    r.1.status = .error "telnet timeout" ∧ r.1.result = "" := by
  intro d r
  obtain ⟨-, houtcome, hfaulty⟩ :=
    (contract_of_run (fun _ ↦ true) default (wiping "10.0.0.1")).1 failing guarding
  have hasked : r.2.site.asked =
      [⟨⟨"reset", "00-60-E9-00-00-01", "10.0.0.9", "admin", "default", ""⟩, some true⟩] := by
    decide +kernel
  have hstatus := hfaulty rfl _ (.request (by decide +kernel) hasked rfl)
  refine ⟨hstatus, (houtcome.unchanged ?_).1⟩
  rw [hstatus]
  exact Status.noConfusion

end Handler

end Switchyard
