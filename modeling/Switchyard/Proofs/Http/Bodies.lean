import Switchyard.Command.Entry
import Switchyard.Device.Basic
import Switchyard.Proofs.Inventory.Unlocked
import Switchyard.Proofs.Json.Reading
import Switchyard.Roster

/-!
# The bodies of requests and answers

What is sent in a body is read back: a table of commands entry by entry, an announcement whose
numbers have 64 bits, and a table of devices without their locks. The moment at which a device was
last seen is written as a text, so a device is read only if that text is.

## Main definitions

* `Device.TimeReadable` : the text of the moment a device was last seen can be read back.

## Main results

* `CommandTable.run_render`, `DeviceTable.run_render`, `Announcement.run_render` : what is read of
  the bodies.
-/

namespace Switchyard

open Json Json.Reader

/-! ### Commands -/

namespace Entry

/-- The members that are written of an entry. -/
def written (e : Entry) : List (String × Value) :=
  [("timestamp", .text e.timestamp), ("command", .text e.command), ("result", .text e.result),
    ("status", .text e.status), ("name", .text e.node), ("retries", .int e.retries.toNat)] ++
  (if e.client.isEmpty then [] else [("client", .text e.client)]) ++
  (if e.device.isEmpty then [] else [("devid", .text e.device)]) ++
  (if ¬e.flags.all then [] else [("all", .bool true)]) ++
  (if ¬e.flags.noOverwrite then [] else [("nooverwrite", .bool true)]) ++
  (if ¬e.flags.noSyslog then [] else [("nosyslog", .bool true)])

theorem toJson_eq (e : Entry) : e.toJson = .object e.written := by
  simp only [toJson, written, ite_not]

theorem nodup_written (e : Entry) : (e.written.map (·.1)).Nodup := by
  have hnames : (e.written.map (·.1)).Sublist
      (["timestamp", "command", "result", "status", "name", "retries"] ++ ["client"] ++ ["devid"] ++
        ["all"] ++ ["nooverwrite"] ++ ["nosyslog"]) := by
    simp only [written, List.map_append]
    refine (((((List.Sublist.refl _).append ?_).append ?_).append ?_).append ?_).append ?_
    all_goals exact Shape.names_unless _ _ _
  exact hnames.nodup (by decide)

/-- The written members fill an entry in. -/
theorem fill_written (e : Entry) : shape.fill e.written {} = .ok e := by
  have hretries : natural Text.bound32 (Value.int e.retries.toNat).document =
      .ok e.retries.toNat := natural_document (UInt32.toNat_lt e.retries)
  have hfixed : shape.fill
      [("timestamp", .text e.timestamp), ("command", .text e.command), ("result", .text e.result),
        ("status", .text e.status), ("name", .text e.node), ("retries", .int e.retries.toNat)] {} =
      .ok { e with client := "", device := "", flags := {} } := by
    iterate 5 refine (Shape.fill_member rfl (text_document _)).trans ?_
    rw [Shape.fill_member rfl hretries, UInt32.ofNat_toNat, Shape.fill_nil]
  have hempty {s : String} (h : s.isEmpty) : "" = s := (String.isEmpty_iff.1 h).symm
  have hclient : shape.fill (if e.client.isEmpty then [] else [("client", .text e.client)])
      { e with client := "", device := "", flags := {} } =
      .ok { e with device := "", flags := {} } :=
    Shape.fill_unless rfl (fun _ ↦ text_document _) rfl fun h ↦
      congrArg (fun s ↦ { e with client := s, device := "", flags := {} }) (hempty h)
  have hdevice : shape.fill (if e.device.isEmpty then [] else [("devid", .text e.device)])
      { e with device := "", flags := {} } = .ok { e with flags := {} } :=
    Shape.fill_unless rfl (fun _ ↦ text_document _) rfl fun h ↦
      congrArg (fun s ↦ { e with device := s, flags := {} }) (hempty h)
  have hoff {b : Bool} (h : ¬b) : false = b := (Bool.eq_false_iff.2 h).symm
  have hon {b : Bool} (h : ¬¬b) : bool (Value.bool true).document = .ok b := by
    rw [bool_document, not_not.1 h]
  have hall : shape.fill (if ¬e.flags.all then [] else [("all", .bool true)])
      { e with flags := {} } = .ok { e with flags := ⟨e.flags.all, false, false⟩ } :=
    Shape.fill_unless rfl hon rfl fun h ↦
      congrArg (fun b ↦ { e with flags := ⟨b, false, false⟩ }) (hoff h)
  have hkeep : shape.fill (if ¬e.flags.noOverwrite then [] else [("nooverwrite", .bool true)])
      { e with flags := ⟨e.flags.all, false, false⟩ } =
      .ok { e with flags := ⟨e.flags.all, e.flags.noOverwrite, false⟩ } :=
    Shape.fill_unless rfl hon rfl fun h ↦
      congrArg (fun b ↦ { e with flags := ⟨e.flags.all, b, false⟩ }) (hoff h)
  have hquiet : shape.fill (if ¬e.flags.noSyslog then [] else [("nosyslog", .bool true)])
      { e with flags := ⟨e.flags.all, e.flags.noOverwrite, false⟩ } = .ok e :=
    Shape.fill_unless rfl hon rfl fun h ↦
      congrArg (fun b ↦ { e with flags := ⟨e.flags.all, e.flags.noOverwrite, b⟩ }) (hoff h)
  refine (Shape.fill_append ?_).trans hquiet
  refine (Shape.fill_append ?_).trans hkeep
  refine (Shape.fill_append ?_).trans hall
  refine (Shape.fill_append ?_).trans hdevice
  exact (Shape.fill_append hfixed).trans hclient

/-- An entry is read back. -/
theorem read_toJson (e : Entry) : shape.read e.toJson.document = .ok e := by
  rw [toJson_eq]
  exact Shape.read_document e.nodup_written (by simp [shape]) e.fill_written

end Entry

/-- A table of commands is read back. -/
theorem CommandTable.run_render (t : CommandTable) :
    Reader.run CommandTable.read t.toJson.render = .ok t := by
  have htable : CommandTable.read t.toJson.document = .ok (t.map id) :=
    table_document fun e _ ↦ e.2.read_toJson
  rw [Reader.run_render, htable, t.map_id]

/-! ### Devices -/

namespace Device

/-- The text of the moment at which a device was last seen can be read back. -/
def TimeReadable (d : Device) : Prop := ∀ t ∈ d.lastSeen, Time.Reading.relaxed? t.zulu = some t

/-- The members that are always written of a device. -/
def writtenAlways (d : Device) : List (String × Value) :=
  [("mac", .text d.mac), ("modelname", .text d.model), ("scanproto", .text d.source.name),
    ("ipaddress", .text d.ip), ("netmask", .text d.netmask), ("gateway", .text d.gateway),
    ("hostname", .text d.hostname), ("kernel", .text d.kernel), ("ap", .text d.application),
    ("scannedby", .text d.scannedBy), ("arpmissed", .int d.missed.toNat),
    ("readcommunity", .text d.readCommunity), ("writecommunity", .text d.writeCommunity)]

/-- The members that are written of a device. -/
def written (d : Device) : List (String × Value) :=
  d.writtenAlways ++ (d.lastSeen.map fun t ↦ ("lastseen", Value.text t.zulu)).toList

theorem toJson_eq (d : Device) : d.toJson = .object d.written := rfl

theorem nodup_written (d : Device) : (d.written.map (·.1)).Nodup := by
  cases h : d.lastSeen <;> simp [written, writtenAlways, h]

/-- The written members fill a device in. -/
theorem fill_written {d : Device} (h : d.TimeReadable) :
    shape.fill d.written { mac := "", source := .snmp } = .ok d.unlocked := by
  have hsource : optional text (Value.text d.source.name).document = .ok (some d.source.name) := rfl
  have hname : Source.ofName (some d.source.name) = d.source := by cases d.source <;> rfl
  have hmissed : natural Text.bound32 (Value.int d.missed.toNat).document =
      .ok d.missed.toNat := natural_document (UInt32.toNat_lt d.missed)
  have halways : shape.fill d.writtenAlways { mac := "", source := .snmp } =
      .ok { d with lastSeen := none, locked := false } := by
    -- the record is flattened after every member, else it grows with each of them
    iterate 2 refine (Shape.fill_member rfl (text_document _)).trans ?_; dsimp only
    refine (Shape.fill_member rfl hsource).trans ?_; dsimp only
    iterate 7 refine (Shape.fill_member rfl (text_document _)).trans ?_; dsimp only
    refine (Shape.fill_member rfl hmissed).trans ?_; dsimp only
    iterate 2 refine (Shape.fill_member rfl (text_document _)).trans ?_; dsimp only
    rw [hname, UInt32.ofNat_toNat, Shape.fill_nil]
  refine (Shape.fill_append halways).trans ?_
  cases hseen : d.lastSeen with
  | none => simp [unlocked, hseen]
  | some t =>
    have htime : optional shape.time (Value.text t.zulu).document = .ok (some t) := by
      have hback : Time.Reading.relaxed? t.zulu = some t := h t hseen
      rw [optional_text, shape.time, text_document]
      simp only [bind, Except.bind, hback, Except.map]
    rw [Option.map_some, Option.toList_some, Shape.fill_member rfl htime, Shape.fill_nil, unlocked,
      hseen]

/-- A device is read back without its lock. -/
theorem read_toJson {d : Device} (h : d.TimeReadable) :
    shape.read d.toJson.document = .ok d.unlocked := by
  rw [toJson_eq]
  refine Shape.read_document d.nodup_written ?_ (fill_written h)
  simp [shape, written, writtenAlways]

end Device

/-- A table of devices is read back without the locks. -/
theorem DeviceTable.run_render {t : DeviceTable} (h : ∀ d ∈ t.values, d.TimeReadable) :
    Reader.run DeviceTable.read t.toJson.render = .ok (t.map Device.unlocked) := by
  rw [Reader.run_render]
  exact table_document fun e he ↦ Device.read_toJson (h e.2 (List.mem_map.2 ⟨e, he, rfl⟩))

/-! ### Announcements -/

namespace Announcement

/-- The numbers of an announcement have 64 bits, of which one is a sign in its moments. -/
structure Fits (a : Announcement) : Prop where
  devices : a.devices < Text.bound64
  commands : a.commands < Text.bound64
  start : Text.fitsSigned a.start
  now : Text.fitsSigned a.now

/-- An announcement is read back. -/
theorem run_render {a : Announcement} (h : a.Fits) :
    Reader.run read a.toJson.render = .ok a := by
  have haddresses : list text (Value.array (a.addresses.map .text)).document =
      .ok a.addresses := list_document fun s _ ↦ text_document s
  rw [Reader.run_render]
  refine Shape.read_document (by simp) (by simp [shape]) ?_
  refine (Shape.fill_member rfl (text_document _)).trans ?_
  refine (Shape.fill_member rfl (natural_document h.devices)).trans ?_
  refine (Shape.fill_member rfl (natural_document h.commands)).trans ?_
  refine (Shape.fill_member rfl (integer_document h.start)).trans ?_
  refine (Shape.fill_member rfl (integer_document h.now)).trans ?_
  rw [Shape.fill_member rfl haddresses, Shape.fill_nil]

end Announcement

end Switchyard
