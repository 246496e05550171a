import Switchyard.Inventory.Archive
import Switchyard.Proofs.Http.Bodies
import Switchyard.Proofs.Json.Pretty
import Switchyard.Proofs.Text.ByteOrder
import Switchyard.Proofs.Text.Decoding
import Switchyard.Proofs.Text.Trimming
import Switchyard.Proofs.Time.Stamps

/-!
# The files of an archive

A file that is written stands under its name in the folder of the archive, in the place of the file
that had this name, and everything else in the folder stays. The name of a snapshot leads to its
file, whose text is the table that was saved. A table can be read of a file exactly if the file is
there, its bytes are a text, the text is one JSON object, and every member of the object is a
device.

## Main definitions

* `Archive.Contents.items` : what stands in the folder, which may still have to be made.
* `Archive.PlainName` : a name that leads to what has this name.
* `Archive.Legible` : a file of which a table can be read.

## Main results

* `Archive.plainName_snapshotName` : names of snapshots are plain.
* `Archive.of_save`, `Archive.save_eq_ok` : what saving does.
* `Archive.readTable_snapshot` : a snapshot is read back without the locks.
* `Archive.exists_readTable_iff` : when a table is read at all.
-/

namespace Switchyard.Archive

open Text

/-- What stands in the folder of an archive. There is nothing before the folder is made. -/
def Contents.items : Contents → Table String Item
  | .folder items => items
  | _ => .empty

/-- An archive with one more file in its folder. -/
def withFile (name : String) (bytes : List UInt8) (a : Archive) : Archive :=
  { a with contents := .folder (a.contents.items.insert name (.file bytes)) }

variable {a a' : Archive} {now : Time.Instant} {name path : String} {bytes : List UInt8}
  {devices : DeviceTable} {file : Option String}

/-! ### Names -/

/-- A name that leads from a folder to what has this name in it. -/
structure PlainName (name : String) : Prop where
  nul : '\x00' ∉ name.toList
  slash : '/' ∉ name.toList
  size : name.utf8ByteSize ≤ maxName
  ne_empty : name ≠ ""
  ne_here : name ≠ "."
  ne_above : name ≠ ".."

/-- A plain name is the only step of its path. -/
theorem PlainName.locate (h : PlainName name)
    (hitem : a.contents.items.get? name = some (.file bytes)) :
    a.locate name = .ok (.file bytes) := by
  have hpath : ¬name.utf8ByteSize > maxPath := by
    have hsize := h.size
    unfold maxName at hsize
    unfold maxPath
    omega
  have hrelative : name.startsWith "/" = false := by
    rw [String.startsWith_string_eq_false_iff]
    exact fun hstart ↦ h.slash (hstart.subset (List.mem_singleton.2 rfl))
  have hsteps : steps name = [name] := by
    rw [steps, pieces_of_forall, List.map_singleton, String.ofList_toList]
    intro c hc
    exact beq_false_of_ne fun hslash ↦ h.slash (hslash ▸ hc)
  have hname : ¬(name = "" ∨ name = ".") := not_or.2 ⟨h.ne_empty, h.ne_here⟩
  rw [Archive.locate, if_neg h.nul, if_neg hpath, hrelative]
  cases hcontents : a.contents with
  | folder items =>
    rw [hcontents] at hitem
    have hitem : items.get? name = some (.file bytes) := hitem
    simp [hsteps, Position.enter, hname, h.ne_above, Nat.not_lt.2 h.size, hitem]
  | nothing | file =>
    rw [hcontents] at hitem
    cases hitem

/-- The name of a snapshot that a clock can give is plain. -/
theorem plainName_snapshotName (h : now.Proper) : PlainName (snapshotName now) := by
  have hlist : (snapshotName now).toList =
      "devices-".toList ++ now.compact.toList ++ ".json".toList := by
    rw [snapshotName, String.toList_append, String.toList_append]
  have hmem (c : Char) (hc : c ∈ (snapshotName now).toList) : c ≠ '\x00' ∧ c ≠ '/' := by
    have hfixed : ∀ c ∈ "devices-".toList ++ ".json".toList, c ≠ '\x00' ∧ c ≠ '/' := by simp
    rw [hlist, List.mem_append, List.mem_append] at hc
    rcases hc with (hc | hc) | hc
    · exact hfixed c (List.mem_append_left _ hc)
    · rcases Time.Instant.mem_compact hc with hc | rfl | rfl | rfl
      · constructor <;> rintro rfl <;> exact absurd hc (by decide)
      all_goals decide
    · exact hfixed c (List.mem_append_right _ hc)
  have hlength : (snapshotName now).toList.length ≤ 31 := by
    have hcompact := h.length_compact_le
    rw [hlist, List.length_append, List.length_append]
    change 8 + _ + 5 ≤ 31
    omega
  have hlong : 13 ≤ (snapshotName now).toList.length := by
    rw [hlist, List.length_append, List.length_append]
    change 13 ≤ 8 + _ + 5
    omega
  have hne {s : String} (hs : s.toList.length < 13) : snapshotName now ≠ s := by
    rintro rfl
    omega
  have hsize := utf8ByteSize_le (snapshotName now)
  exact ⟨fun hc ↦ (hmem _ hc).1 rfl, fun hc ↦ (hmem _ hc).2 rfl, show _ ≤ 255 by omega,
    hne (by decide), hne (by decide), hne (by decide)⟩

/-! ### Writing -/

theorem write_eq_ok (hplace : a.contents ≠ .file)
    (hitem : a.contents.items.get? name ≠ some .folder) (bytes : List UInt8) :
    a.write name bytes = .ok (a.withFile name bytes) := by
  unfold write withFile
  cases hcontents : a.contents with
  | nothing => rfl
  | file => exact absurd hcontents hplace
  | folder items =>
    rw [hcontents] at hitem
    exact if_neg hitem

theorem of_write (h : a.write name bytes = .ok a') : a' = a.withFile name bytes := by
  unfold write at h
  unfold withFile
  cases hcontents : a.contents with
  | nothing =>
    rw [hcontents] at h
    exact (Except.ok.inj h).symm
  | file =>
    rw [hcontents] at h
    cases h
  | folder items =>
    rw [hcontents] at h
    simp only at h
    split at h
    · cases h
    · exact (Except.ok.inj h).symm

/-- Saving writes a file under the name of the snapshot. -/
theorem save_eq_ok (hplace : a.contents ≠ .file)
    (hitem : a.contents.items.get? (snapshotName now) ≠ some .folder) (devices : DeviceTable) :
    a.save now devices =
      .ok (snapshotName now, a.withFile (snapshotName now) (snapshotBytes devices)) := by
  rw [save, write_eq_ok hplace hitem]

theorem of_save (h : a.save now devices = .ok (name, a')) :
    name = snapshotName now ∧ a' = a.withFile name (snapshotBytes devices) := by
  unfold save at h
  split at h
  next hwrite =>
    obtain ⟨rfl, rfl⟩ := Prod.mk.inj (Except.ok.inj h)
    exact ⟨rfl, of_write hwrite⟩
  next => cases h

/-! ### Reading -/

/-- The path of the snapshot that is asked for, which is the newest if none is named. -/
def pathOf (file : Option String) (a : Archive) : Except Fault String :=
  match file with
  | some name => .ok name
  | none => a.newest

/-- A file of which a table can be read: its bytes are a text, the text is one JSON object with
nothing after it, and every member of the object is a device. -/
def Legible (file : Option String) (a : Archive) : Prop :=
  ∃ path bytes cs fields, a.pathOf file = .ok path ∧ a.locate path = .ok (.file bytes) ∧
    Utf8.decode? bytes = some cs ∧
    Json.Document.ofText (String.ofList cs) = (.object fields true, []) ∧
    ∀ f ∈ fields, f.1 ≠ .unpaired ∧ ∃ d, Device.shape.read f.2 = .ok d

theorem readText_eq_ok_iff {text : String} : a.readText path = .ok text ↔
    ∃ bytes cs, a.locate path = .ok (.file bytes) ∧ Utf8.decode? bytes = some cs ∧
      text = String.ofList cs := by
  rw [readText, bind_eq_ok_iff]
  constructor
  · rintro ⟨p, hp, htext⟩
    cases p with
    | file bytes =>
      cases hdecode : Utf8.decode? bytes with
      | none => simp [hdecode] at htext
      | some cs => exact ⟨bytes, cs, hp, hdecode, by simpa [hdecode, eq_comm] using htext⟩
    | _ => simp at htext
  · rintro ⟨bytes, cs, hlocate, hdecode, rfl⟩
    exact ⟨_, hlocate, by simp [hdecode]⟩

/-- A table is read of the text to which the path leads. -/
theorem readTable_eq_ok_iff {t : DeviceTable} : a.readTable file = .ok t ↔
    ∃ path text, a.pathOf file = .ok path ∧ a.readText path = .ok text ∧
      Json.Reader.run DeviceTable.read text = .ok t := by
  have htable : a.readTable file = a.pathOf file >>= fun path ↦
      (a.readText path).mapError .file >>= fun text ↦
        (Json.Reader.run DeviceTable.read text).mapError fun misfit ↦
          .serialization misfit.text := by
    cases file <;> rfl
  simp only [htable, bind_eq_ok_iff, mapError_eq_ok_iff, exists_and_left]

/-- A table is read exactly of a legible file. -/
theorem exists_readTable_iff : (∃ t, a.readTable file = .ok t) ↔ a.Legible file := by
  constructor
  · rintro ⟨t, ht⟩
    obtain ⟨path, text, hpath, htext, hrun⟩ := readTable_eq_ok_iff.1 ht
    obtain ⟨bytes, cs, hlocate, hdecode, rfl⟩ := readText_eq_ok_iff.1 htext
    obtain ⟨d, hdocument, hread⟩ := Json.Reader.run_eq_ok_iff.1 hrun
    obtain ⟨fields, rfl, hfields⟩ := Json.Reader.exists_table_eq_ok_iff.1 ⟨t, hread⟩
    exact ⟨path, bytes, cs, fields, hpath, hlocate, hdecode, hdocument, hfields⟩
  · rintro ⟨path, bytes, cs, fields, hpath, hlocate, hdecode, hdocument, hfields⟩
    obtain ⟨t, ht⟩ := Json.Reader.exists_table_eq_ok_iff.2 ⟨fields, rfl, hfields⟩
    exact ⟨t, readTable_eq_ok_iff.2 ⟨path, _, hpath,
      readText_eq_ok_iff.2 ⟨bytes, cs, hlocate, hdecode, rfl⟩,
      Json.Reader.run_eq_ok_iff.2 ⟨_, hdocument, ht⟩⟩⟩

/-- A snapshot is read back without the locks. -/
theorem readTable_snapshot (hname : PlainName name)
    (hitem : a.contents.items.get? name = some (.file (snapshotBytes devices)))
    (htimes : ∀ d ∈ devices.values, d.TimeReadable) :
    a.readTable (some name) = .ok (devices.map Device.unlocked) := by
  refine readTable_eq_ok_iff.2 ⟨name, (devices.toJson.pretty 0), rfl, ?text, ?_⟩
  case text =>
    refine readText_eq_ok_iff.2 ⟨_, _, hname.locate hitem, Utf8.decode?_encode _, ?_⟩
    rw [String.ofList_toList]
  rw [Json.Reader.run_pretty, DeviceTable.run_render htimes]

end Switchyard.Archive
