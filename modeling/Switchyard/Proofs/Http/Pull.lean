import Switchyard.Proofs.Command.Legible
import Switchyard.Proofs.Http.Requests
import Switchyard.Proofs.Root.Submit

/-!
# What a client receives

A client that pulls is offered commands that are stored under its own name or under none, and what
it receives comes from these alone. It receives them as they are stored if and only if their keys
are legible and their timestamps are read back. Requests may store keys that are not: a wire form
may hide an address behind a blank, and a client may register under a name with a space. Then a
client receives a command under a key that is meant for another.

## Main definitions

* `Command.Readable` : a command whose fields other than key and timestamp are read back.

## Main results

* `Http.upheld_readable` : requests leave only such commands.
* `Http.pull_faithful_iff` : when a pull brings what is stored.
-/

namespace Switchyard

/-! ### Readable commands -/

namespace Command

variable {c : Command}

/-- A command that has a status and a device that are read back, if it is still to be run. -/
def Readable (c : Command) : Prop :=
  c.status.isRunnable = true → Status.parse c.status.text = c.status ∧ c.device ≠ some ""

theorem nonempty?_ne (s : String) : nonempty? s ≠ some "" := by
  rw [nonempty?]
  split
  next => simp
  next h =>
    rw [ne_eq, Option.some.injEq]
    rintro rfl
    exact h rfl

/-- What comes over the wire is readable. -/
theorem readable_of_mem_decode {table : CommandTable} (h : c ∈ CommandTable.decode table) :
    c.Readable := by
  obtain ⟨⟨wire, e⟩, -, rfl⟩ := List.mem_map.1 h
  exact fun hrun ↦ ⟨Status.parse_text_parse hrun, nonempty?_ne e.device⟩

theorem carried_device_of_ne (h : c.device ≠ some "") : c.carried.device = c.device := by
  rw [carried_device]
  cases hd : c.device with
  | none => rfl
  | some device =>
    have hne : device ≠ "" := fun hempty ↦ h (by rw [hd, hempty])
    simp [nonempty?, hne]

/-- A readable command that is still to be run comes back as it was if and only if its key is
legible and its timestamp is read back. -/
theorem carried_eq_iff (h : c.Readable) (hrun : c.status.isRunnable = true) :
    c.carried = c ↔ c.key.Legible ∧ c.carried.timestamp = c.timestamp := by
  obtain ⟨hstatus, hdevice⟩ := h hrun
  rw [← Key.carried_eq_iff, ← key_carried]
  constructor
  · intro hsame
    rw [hsame]
    exact ⟨rfl, rfl⟩
  · rintro ⟨hkey, htime⟩
    obtain ⟨hclient, htext⟩ := Key.mk.inj hkey
    have hcarried : c.carried = { c with
        text := c.carried.text, timestamp := c.carried.timestamp, status := c.carried.status,
        client := c.carried.client, device := c.carried.device } := rfl
    rw [hcarried, htext, htime, hclient, carried_status, hstatus, carried_device_of_ne hdevice]

end Command

/-- A root whose commands stand under their own keys and are readable. -/
structure Root.Readable (r : Root) : Prop where
  keyed : r.ledger.Keyed
  readable : ∀ k c, r.ledger.get? k = some c → c.Readable

namespace Root

variable {r : Root} {now : Time.Instant} {c : Command}

/-- What an operator gives is readable at the root, or done. -/
theorem Readable.submit (h : r.Readable) (hc : c.Readable) (hnew : c.status = .new) :
    (r.submit now c).2.Readable := by
  refine ⟨keyed_submit h.keyed now c, fun k d hd ↦ ?_⟩
  by_cases hk : k ∈ (r.submit now c).1
  · obtain ⟨d', hd', -, hstatus⟩ := exists_get?_submit_of_mem hk
    obtain rfl := Option.some.inj (hd'.symm.trans hd)
    intro hrun
    split at hstatus
    · exact absurd hrun (Status.not_isRunnable_of_isTerminal hstatus)
    · obtain ⟨hfresh, -, hdevice⟩ := hstatus
      rw [hfresh, hdevice, Status.parse_text_new]
      exact ⟨rfl, (hc (by rw [hnew]; rfl)).2⟩
  · rw [get?_submit_of_not_mem hk] at hd
    exact h.readable k d hd

/-- What clients report is readable at the root. -/
theorem Readable.acceptPush {ds : List Command} (h : r.Readable) (hds : ∀ d ∈ ds, d.Readable) :
    (r.acceptPush now ds).2.Readable := by
  refine ⟨h.keyed.mergePushed ds, fun k c hc ↦ ?_⟩
  rcases Ledger.of_get?_mergePushed hc with hold | ⟨d, hd, -, flags, rfl⟩
  · exact h.readable k c hold
  · exact hds d hd

end Root

namespace Http

/-- Requests leave only readable commands. -/
theorem upheld_readable : Upheld Root.Readable where
  accept now table r hr := by
    have htable (c : Command) (hc : c ∈ CommandTable.decode table) : c.Readable :=
      Command.readable_of_mem_decode hc
    refine Root.accept_induction hr ?_ ?_
    · exact fun r hr c hc hnew ↦ hr.submit (htable c hc) hnew
    · exact fun r hr ds hds ↦ hr.acceptPush fun d hd ↦ htable d (hds d hd)
  delete k c ledger r hd hr := by
    refine ⟨hr.keyed.delete hd, fun k' c' hc' ↦ ?_⟩
    rw [Root.ledger_withLedger, Ledger.get?_delete hd] at hc'
    split at hc'
    · cases hc'
    · exact hr.readable k' c' hc'
  acceptDevices now ds r hr := ⟨hr.keyed, hr.readable⟩
  register now a r _ hr := ⟨hr.keyed, hr.readable⟩

/-! ### Pulls -/

/-- After any requests to a root that had no commands, a client that pulls is offered only what is
stored for it or for everybody, and receives nothing else. It receives the commands as they are
stored if and only if their keys are legible and their timestamps are read back, and under the keys
under which they are stored if and only if these are legible. -/
theorem pull_faithful_iff {s : Surface} (h : s.root.ledger.commands = .empty)
    (rs : List (Time.Instant × Request)) (client : String) :
    let l := (s.after rs).root.ledger
    let offered := l.pullFor client
    let received := CommandTable.decode (.encode offered)
    (∀ c ∈ offered, l.get? c.key = some c ∧ c.key.isFor client = true) ∧
    (∀ c ∈ received, ∃ sent ∈ offered, c = sent.carried ∧
      (sent.key.Legible → c.key = sent.key ∧ c.key.isFor client = true)) ∧
    (received.Perm offered ↔
      ∀ c ∈ offered, c.key.Legible ∧ c.carried.timestamp = c.timestamp) ∧
    ((received.map (·.key)).Perm (offered.map (·.key)) ↔ ∀ c ∈ offered, c.key.Legible) := by
  intro l offered received
  have hstart : s.root.Readable := by
    refine ⟨Ledger.Keyed.of_empty h, fun k c hc ↦ ?_⟩
    rw [Ledger.get?_of_empty h] at hc
    cases hc
  have hr : (s.after rs).root.Readable := upheld_readable.after hstart rs
  have hnodup : (offered.map (·.key)).Nodup := hr.keyed.nodup_pullFor client
  have hoffered (c : Command) (hc : c ∈ offered) : l.get? c.key = some c ∧
      c.key.isFor client = true ∧ c.status.isRunnable = true ∧ c.Readable := by
    obtain ⟨k, hget, hrun, hfor, -⟩ := Ledger.mem_pullFor_iff.1 hc
    obtain rfl := hr.keyed k c hget
    exact ⟨hget, hfor, hrun, hr.readable _ c hget⟩
  refine ⟨fun c hc ↦ ?_, fun c hc ↦ ?_, ?_, CommandTable.keys_arrive_iff hnodup⟩
  · obtain ⟨hget, hfor, -⟩ := hoffered c hc
    exact ⟨hget, hfor⟩
  · obtain ⟨sent, hsent, rfl⟩ := CommandTable.mem_decode_encode hc
    refine ⟨sent, hsent, rfl, fun hlegible ↦ ?_⟩
    have hkey : sent.carried.key = sent.key := Key.carried_eq_iff.2 hlegible
    exact ⟨hkey, hkey ▸ (hoffered sent hsent).2.1⟩
  · rw [CommandTable.decode_encode_perm_iff hnodup]
    refine forall₂_congr fun c hc ↦ ?_
    obtain ⟨-, -, hrun, hreadable⟩ := hoffered c hc
    exact Command.carried_eq_iff hreadable hrun

/-- A root without commands that lets in who shows the key `k`. -/
def bare : Surface where
  root := { node := ⟨{ owner := "root" }, .listened, ⟨"", .nothing⟩⟩ }
  key := "k"
  started := default

/-- An operator posts a command whose wire form hides an address behind a blank. -/
def hidden : Request where
  method := "POST"
  target := "/api/v1/commands"
  key := some "k"
  contentType := some "application/json"
  body := "\x7b\" @c2 scan gwd\": \x7b\x7d\x7d"

/-- The client `c1` is offered the command as one for everybody and receives it as one for `c2`. -/
theorem pull_of_hidden :
    let offered := (bare.after [(default, hidden)]).root.ledger.pullFor "c1"
    let received := CommandTable.decode (.encode offered)
    offered.map (·.key) = [⟨none, "@c2 scan gwd"⟩] ∧
      received.map (·.key) = [⟨some "c2", "scan gwd"⟩] ∧ ¬received.Perm offered := by
  intro offered received
  have hoffered : offered.map (·.key) = [⟨none, "@c2 scan gwd"⟩] := by decide +kernel
  have hreceived : received.map (·.key) = [⟨some "c2", "scan gwd"⟩] := by decide +kernel
  refine ⟨hoffered, hreceived, fun hperm ↦ ?_⟩
  obtain ⟨-, -, hiff, -⟩ := pull_faithful_iff (s := bare) rfl [(default, hidden)] "c1"
  obtain ⟨c, hc, hkey⟩ : ∃ c ∈ offered, c.key = ⟨none, "@c2 scan gwd"⟩ :=
    List.mem_map.1 (hoffered ▸ List.mem_singleton_self _)
  obtain ⟨⟨hclear, -⟩, -⟩ := hiff.1 hperm c hc
  rw [hkey] at hclear
  exact hclear ['c', '2'] "scan gwd".toList ⟨by decide, by decide, by decide⟩

end Http

end Switchyard
