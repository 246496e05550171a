import Switchyard.Inventory
import Switchyard.Text.Utf8

/-!
# Snapshots of the inventory

An archive is the place where snapshots are kept: a folder that may still have to be made, or whose
place may be taken by a plain file. A snapshot is a file with a device table in JSON, named for
the second in which it was saved, so the names in byte order are also in the order of time and the
last of them is the newest. Loading a snapshot puts its devices in the place of the stored ones,
except that locks stay as they are; nothing is loaded from a file with a fault in it.

## Main definitions

* `Archive.save` — writes a snapshot.
* `Archive.load` — reads a snapshot, the newest if none is named.
* `Archive.snapshots` — the names of the snapshots.
-/

namespace Switchyard

namespace Archive

/-- What a name in a folder stands for. -/
inductive Item where
  | file (bytes : List UInt8)
  | folder
  deriving Repr, DecidableEq

/-- What is found where an archive is kept. -/
inductive Contents where
  | nothing
  | file
  | folder (items : Table String Item)
  deriving Repr, DecidableEq

end Archive

/-- The place where snapshots are kept. -/
structure Archive where
  path : String
  contents : Archive.Contents
  deriving Repr, DecidableEq

namespace Archive

/-- Where one is while following a path: in the folder of the archive, in a folder above it, in a
folder inside it, or at a file. -/
inductive Position where
  | top
  | above
  | inside
  | file (bytes : List UInt8)
  deriving Repr, DecidableEq

/-- The longest name of a file in bytes. -/
def maxName : Nat := 255

/-- The longest path in bytes. -/
def maxPath : Nat := 4095

/-- Takes one step along a path through the folder with the given items. -/
def Position.enter (items : Table String Item) (p : Position) (name : String) :
    Except FileFault Position :=
  match p with
  | .file _ => .error .notDirectory
  | _ =>
    if name = "" ∨ name = "." then .ok p
    else if name = ".." then .ok (if p = .inside then .top else .above)
    else if name.utf8ByteSize > maxName then .error .nameTooLong
    else if p = .top then
      match items.get? name with
      | some (.file bytes) => .ok (.file bytes)
      | some .folder => .ok .inside
      | none => .error .missing
    else .error .missing

/-- The parts of a path between slashes. -/
def steps (path : String) : List String :=
  (Text.pieces (· == '/') path.toList).map String.ofList

/-- Where a path leads from the folder of the archive. An absolute path begins above it. -/
def locate (path : String) (a : Archive) : Except FileFault Position :=
  if '\x00' ∈ path.toList then .error .nulInName
  else if path.utf8ByteSize > maxPath then .error .nameTooLong
  else
    match a.contents, path.startsWith "/" with
    | .nothing, false => .error .missing
    | .file, false => .error .notDirectory
    | .folder items, false => (steps path).foldlM (Position.enter items) .top
    | _, true => (steps path).foldlM (Position.enter .empty) .above

/-- The text of the file that a path leads to. -/
def readText (path : String) (a : Archive) : Except FileFault String := do
  match ← a.locate path with
  | .file bytes =>
    match Text.Utf8.decode? bytes with
    | some cs => .ok (String.ofList cs)
    | none => .error .notText
  | _ => .error .isDirectory

/-- The name of the snapshot saved at a moment. -/
def snapshotName (now : Time.Instant) : String := "devices-" ++ now.compact ++ ".json"

/-- Whether a name is that of a snapshot. -/
def isSnapshotName (name : String) : Bool :=
  "devices-".toList.isPrefixOf name.toList && ".json".toList.isSuffixOf name.toList

/-- The names of the snapshots, the oldest first. -/
def snapshots (a : Archive) : Except Fault (List String) :=
  match a.contents with
  | .nothing => .ok []
  | .file => .error (.file .notDirectory)
  | .folder items => .ok (items.keys.filter isSnapshotName)

/-- The name of the newest snapshot. -/
def newest (a : Archive) : Except Fault String := do
  match (← a.snapshots).getLast? with
  | some name => .ok name
  | none => .error (.notFound .snapshot a.path)

/-- Writes a file, making the folder if need be. -/
def write (name : String) (bytes : List UInt8) (a : Archive) : Except FileFault Archive :=
  let put (items : Table String Item) : Archive :=
    { a with contents := .folder (items.insert name (.file bytes)) }
  match a.contents with
  | .nothing => .ok (put .empty)
  | .file => .error .exists
  | .folder items => if items.get? name = some .folder then .error .isDirectory else .ok (put items)

/-- The bytes of a snapshot. -/
def snapshotBytes (devices : DeviceTable) : List UInt8 :=
  Text.Utf8.encode (devices.toJson.pretty 0).toList

/-- Saves a snapshot of some devices and gives its name. -/
def save (now : Time.Instant) (devices : DeviceTable) (a : Archive) :
    Except Fault (String × Archive) :=
  match a.write (snapshotName now) (snapshotBytes devices) with
  | .ok a => .ok (snapshotName now, a)
  | .error cause => .error (.file cause)

/-- Reads the table of a snapshot, the newest if none is named. -/
def readTable (name : Option String) (a : Archive) : Except Fault DeviceTable := do
  let path ← match name with
    | some name => .ok name
    | none => a.newest
  let text ← (a.readText path).mapError .file
  (Json.Reader.run DeviceTable.read text).mapError fun misfit ↦ .serialization misfit.text

end Archive

namespace Inventory

/-- Puts a device in the place of the stored one and keeps the lock. A device whose address cannot
be read is passed over. -/
def restore (d : Device) (inv : Inventory) : Inventory :=
  match Mac.canonical? d.mac with
  | none => inv
  | some mac =>
    inv.store { d with mac, locked := ((inv.devices.get? mac).map (·.locked)).getD false }

/-- Loads a snapshot, the newest if none is named, and says how many entries it has. -/
def load (name : Option String) (a : Archive) (inv : Inventory) : Except Fault (Nat × Inventory) :=
  (a.readTable name).map fun table ↦
    (table.size, table.values.foldl (fun inv d ↦ inv.restore d) inv)

end Inventory

end Switchyard
