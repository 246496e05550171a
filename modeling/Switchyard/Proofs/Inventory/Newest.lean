import Mathlib.Data.List.Dedup
import Mathlib.Data.List.Sort
import Switchyard.Proofs.Inventory.Restoring

/-!
# The newest snapshot

Snapshots that are saved one after the other are listed in the order in which they were saved, and
the newest of them is the last one that was saved. Of those that are saved within one second only
the last one is left, under the name that they all have. Nothing else in the folder matters, unless
it has the name of a snapshot.

## Main definitions

* `Archive.saveAll` : saves one snapshot after the other.
* `Archive.Holds` : an archive whose snapshots are those that some saves left.

## Main results

* `Archive.snapshotName_le_snapshotName` : names of snapshots are in the order of time.
* `Archive.Holds.save`, `Archive.Holds.saveAll` : what one more save leaves, and many more.
* `Archive.Holds.snapshots_eq`, `Archive.Holds.newest_eq` : what is listed, and what is the newest.
* `Inventory.newest_is_last_saved` : saving many snapshots and loading one.
-/

namespace Switchyard

namespace Archive

variable {a : Archive} {now : Time.Instant} {devices : DeviceTable} {name : String}
  {saves : List (Time.Instant × DeviceTable)} {s : Time.Instant × DeviceTable}

/-! ### Names in the order of time -/

theorem isSnapshotName_snapshotName (now : Time.Instant) :
    isSnapshotName (snapshotName now) = true := by
  rw [isSnapshotName, snapshotName, String.toList_append, String.toList_append, Bool.and_eq_true,
    List.isPrefixOf_iff_prefix, List.isSuffixOf_iff_suffix]
  exact ⟨(List.prefix_append _ _).trans (List.prefix_append _ _), List.suffix_append _ _⟩

/-- In the years 0 to 9999 the names of snapshots are in the order of time. -/
theorem snapshotName_le_snapshotName {t t' : Time.Instant} (h : t.FourDigit) (h' : t'.FourDigit)
    (hle : t.le t' = true) : snapshotName t ≤ snapshotName t' := by
  refine not_lt.1 fun hlt ↦ ?_
  rw [String.lt_iff_toList_lt, snapshotName, snapshotName, String.append_assoc, String.append_assoc,
    String.toList_append, String.toList_append, String.toList_append, String.toList_append] at hlt
  have hlength : t'.compact.toList.length = t.compact.toList.length :=
    h'.length_compact.trans h.length_compact.symm
  rcases Text.lt_of_append_lt rfl hlt with hbegin | ⟨-, hrest⟩
  · exact lt_irrefl _ hbegin
  rcases Text.lt_of_append_lt hlength hrest with hstamp | ⟨-, hend⟩
  · exact (Time.Instant.compact_le_compact h h' hle).not_gt (String.lt_iff_toList_lt.2 hstamp)
  · exact lt_irrefl _ hend

/-! ### What saves leave -/

/-- Saves snapshots one after the other and gives their names. -/
def saveAll : List (Time.Instant × DeviceTable) → Archive → Except Fault (List String × Archive)
  | [], a => .ok ([], a)
  | (now, devices) :: rest, a => do
    let (name, a) ← a.save now devices
    let (names, a) ← saveAll rest a
    .ok (name :: names, a)

/-- The names of the snapshots that are saved, in the order of the saves. -/
def savedNames (saves : List (Time.Instant × DeviceTable)) : List String :=
  saves.map fun s ↦ snapshotName s.1

/-- What the last of the saves under a name leaves there. -/
def lastSaved? (name : String) (saves : List (Time.Instant × DeviceTable)) : Option Item :=
  (saves.reverse.find? fun s ↦ snapshotName s.1 = name).map fun s ↦ .file (snapshotBytes s.2)

/-- An archive whose snapshots are those that some saves left. -/
structure Holds (saves : List (Time.Instant × DeviceTable)) (a : Archive) : Prop where
  place : a.contents ≠ .file
  snapshot : ∀ name, isSnapshotName name = true →
    a.contents.items.get? name = lastSaved? name saves

theorem isSome_lastSaved?_iff : (lastSaved? name saves).isSome ↔ name ∈ savedNames saves := by
  simp [lastSaved?, savedNames]

theorem lastSaved?_append (name : String) (saves : List (Time.Instant × DeviceTable))
    (now : Time.Instant) (devices : DeviceTable) :
    lastSaved? name (saves ++ [(now, devices)]) =
      if name = snapshotName now then some (.file (snapshotBytes devices))
      else lastSaved? name saves := by
  rw [lastSaved?, List.reverse_append, List.reverse_singleton, List.singleton_append,
    List.find?_cons]
  by_cases h : snapshotName now = name
  · simp [h]
  · simp [h, Ne.symm h, lastSaved?]

/-- What is listed is what has the name of a snapshot. -/
theorem snapshots_eq_keys (hplace : a.contents ≠ .file) :
    a.snapshots = .ok (a.contents.items.keys.filter isSnapshotName) := by
  unfold snapshots
  cases hcontents : a.contents with
  | nothing => rfl
  | file => exact absurd hcontents hplace
  | folder items => rfl

/-- An archive without snapshots holds those of no saves. -/
theorem holds_nil (h : a.snapshots = .ok []) : a.Holds [] := by
  have hplace : a.contents ≠ .file := by
    intro hfile
    rw [snapshots, hfile] at h
    cases h
  refine ⟨hplace, fun name hname ↦ ?_⟩
  rw [snapshots_eq_keys hplace] at h
  by_contra hsome
  have hmem : name ∈ a.contents.items.keys :=
    (Table.mem_keys_iff ..).2 (Option.isSome_iff_ne_none.2 hsome)
  exact List.filter_eq_nil_iff.1 (Except.ok.inj h) name hmem hname

/-- One more save succeeds and leaves one more snapshot. -/
theorem Holds.save (h : a.Holds saves) (now : Time.Instant) (devices : DeviceTable) :
    ∃ a', a.save now devices = .ok (snapshotName now, a') ∧ a'.Holds (saves ++ [(now, devices)]) := by
  have hitem : a.contents.items.get? (snapshotName now) ≠ some .folder := by
    rw [h.snapshot _ (isSnapshotName_snapshotName now), lastSaved?]
    simp
  refine ⟨_, save_eq_ok h.place hitem devices, Contents.noConfusion, fun name hname ↦ ?_⟩
  rw [lastSaved?_append, ← h.snapshot name hname]
  exact Table.get?_insert ..

/-- All saves succeed and leave their snapshots. -/
theorem Holds.saveAll (h : a.Holds saves) (more : List (Time.Instant × DeviceTable)) :
    ∃ a', a.saveAll more = .ok (savedNames more, a') ∧ a'.Holds (saves ++ more) := by
  induction more generalizing a saves with
  | nil => exact ⟨a, rfl, by rwa [List.append_nil]⟩
  | cons s more ih =>
    obtain ⟨now, devices⟩ := s
    obtain ⟨a₁, hsave, h₁⟩ := h.save now devices
    obtain ⟨a', hmore, h'⟩ := ih h₁
    refine ⟨a', ?_, by rwa [List.append_assoc, List.singleton_append] at h'⟩
    simp only [Archive.saveAll, hsave, bind, Except.bind, hmore]
    rfl

/-! ### What is listed -/

/-- Names that are saved in their order are listed in this order, each once. -/
theorem Holds.snapshots_eq (h : a.Holds saves) (horder : (savedNames saves).Pairwise (· ≤ ·)) :
    a.snapshots = .ok (savedNames saves).dedup := by
  rw [snapshots_eq_keys h.place]
  -- both lists are strictly increasing, so it is enough that they have the same members
  have hlisted : (a.contents.items.keys.filter isSnapshotName).Pairwise (· < ·) :=
    (List.pairwise_map.2 a.contents.items.sorted).filter _
  have hsaved : (savedNames saves).dedup.Pairwise (· < ·) :=
    ((horder.sublist (List.dedup_sublist _)).and (List.nodup_dedup _)).imp
      fun hle ↦ lt_of_le_of_ne hle.1 hle.2
  refine congrArg _ (hlisted.eq_of_mem_iff hsaved fun name ↦ ?_)
  rw [List.mem_filter, Table.mem_keys_iff, List.mem_dedup, ← isSome_lastSaved?_iff]
  constructor
  · rintro ⟨hsome, hname⟩
    rwa [← h.snapshot name hname]
  · intro hsome
    have hname : isSnapshotName name = true := by
      obtain ⟨s, -, rfl⟩ := List.mem_map.1 (isSome_lastSaved?_iff.1 hsome)
      exact isSnapshotName_snapshotName s.1
    exact ⟨by rwa [h.snapshot name hname], hname⟩

/-- The newest is the last one that was saved. -/
theorem Holds.newest_eq (h : a.Holds (saves ++ [s]))
    (horder : (savedNames (saves ++ [s])).Pairwise (· ≤ ·)) :
    a.newest = .ok (snapshotName s.1) := by
  have hnames : savedNames (saves ++ [s]) = savedNames saves ++ [snapshotName s.1] :=
    List.map_append
  obtain ⟨others, hothers⟩ : [snapshotName s.1] <:+ (savedNames (saves ++ [s])).dedup := by
    rw [hnames, List.dedup_append]
    exact List.suffix_union_right _ _
  rw [newest, h.snapshots_eq horder, ← hothers]
  simp [bind, Except.bind]

end Archive

namespace Inventory

variable {inv : Inventory} {a : Archive} {name : String}
  {saves : List (Time.Instant × DeviceTable)}

/-- When no name is given, the newest snapshot is loaded. -/
theorem load_none (h : a.newest = .ok name) : inv.load none a = inv.load (some name) a := by
  unfold load Archive.readTable
  rw [h]

/-- Snapshots that are saved one after the other, where there were none before, are listed in the
order of the saves, with one entry for those of one second, and what is loaded when no name is given
is what was saved last. -/
theorem newest_is_last_saved (hnone : a.snapshots = .ok [])
    (hyears : ∀ s ∈ saves, s.1.FourDigit)
    (horder : saves.Pairwise fun s s' ↦ s.1.le s'.1 = true) :
    ∃ a', a.saveAll saves = .ok (Archive.savedNames saves, a') ∧
      a'.snapshots = .ok (Archive.savedNames saves).dedup ∧
      ∀ (now : Time.Instant) (S : Inventory), S.Reached → saves.getLast? = some (now, S.devices) →
        ∀ inv : Inventory, ∃ inv', inv.load none a' = .ok (S.size, inv') ∧
          Replaced S.devices inv inv' := by
  have hnames : (Archive.savedNames saves).Pairwise (· ≤ ·) := by
    refine List.pairwise_map.2 (horder.imp_of_mem fun hs hs' hle ↦ ?_)
    exact Archive.snapshotName_le_snapshotName (hyears _ hs) (hyears _ hs') hle
  obtain ⟨a', hsaveAll, hholds⟩ := (Archive.holds_nil hnone).saveAll saves
  refine ⟨a', hsaveAll, hholds.snapshots_eq hnames, fun now S hS hlast inv ↦ ?_⟩
  obtain ⟨earlier, rfl⟩ := List.getLast?_eq_some_iff.1 hlast
  have hnow : now.Proper := (hyears _ (List.mem_append_right _ (List.mem_singleton_self _))).toProper
  rw [load_none (hholds.newest_eq hnames)]
  refine exists_load_of_item hS (Archive.plainName_snapshotName hnow) ?_ inv
  rw [hholds.snapshot _ (Archive.isSnapshotName_snapshotName now), List.nil_append,
    Archive.lastSaved?_append, if_pos rfl]

/-- Saves at the turn of a year, two of them in the last second of the old one. -/
def turnOfYear : List (Time.Instant × DeviceTable) :=
  [(⟨1704067199, 0⟩, listened.devices), (⟨1704067199, 500000000⟩, keeper.devices),
    (⟨1704067200, 0⟩, recorded.devices)]

/-- Two snapshots are left, and the device is loaded as it was saved in the new year. -/
theorem newest_is_last_saved_of_turnOfYear :
    ∃ a' inv', shelf.saveAll turnOfYear =
      .ok (["devices-20231231T235959.json", "devices-20231231T235959.json",
        "devices-20240101T000000.json"], a') ∧
      a'.snapshots =
        .ok ["devices-20231231T235959.json", "devices-20240101T000000.json"] ∧
      keeper.load none a' = .ok (1, inv') ∧
      (inv'.devices.get? "00-60-E9-00-00-01").map (fun d ↦ (d.ip, d.locked)) =
        some ("10.0.0.1", true) := by
  have hyears : ∀ s ∈ turnOfYear, s.1.FourDigit := by
    intro s hs
    have hcases : s.1 ∈ turnOfYear.map Prod.fst := List.mem_map_of_mem hs
    simp only [turnOfYear, List.map_cons, List.map_nil, List.mem_cons, List.not_mem_nil,
      or_false] at hcases
    rcases hcases with h | h | h <;> rw [h] <;>
      exact ⟨⟨by decide, .inl (by decide)⟩, by decide, by decide⟩
  have hnames : Archive.savedNames turnOfYear = ["devices-20231231T235959.json",
      "devices-20231231T235959.json", "devices-20240101T000000.json"] := by decide +kernel
  have horder : turnOfYear.Pairwise fun s s' ↦ s.1.le s'.1 = true := by decide +kernel
  obtain ⟨a', hsaveAll, hlisted, hload⟩ := newest_is_last_saved (a := shelf) rfl hyears horder
  obtain ⟨inv', hinv', hreplaced⟩ := hload _ recorded reached_recorded rfl keeper
  rw [hnames] at hsaveAll hlisted
  exact ⟨a', inv', hsaveAll, hlisted, hinv', ip_of_replaced_recorded hreplaced⟩

end Inventory

end Switchyard
