import Switchyard.Root
import Switchyard.Text.Blank
import Switchyard.Yaml.Node

/-!
# How a root is set up

A root has a name, an address at which it listens, and a directory for its snapshots. They are
written in a file as a mapping, or as a sequence in this order; what is left out has a default. A
root always starts: a file that cannot be understood counts as an empty one.

## Main definitions

* `Root.Config.ofNode?` — the configuration that a document means.
* `Root.Config.read` — the configuration that a text means.
-/

namespace Switchyard.Root

/-- How a root is set up. -/
structure Config where
  name : String := "root"
  bind : String := "0.0.0.0:27182"
  directory : String := "./data"
  deriving Repr, DecidableEq, Inhabited

namespace Config

/-- The steps of a path. Repeated and final slashes make no step, and neither does a dot, unless it
is the first one. -/
def pathSteps (path : String) : List (List Char) :=
  if path.isEmpty then []
  else
    match Text.pieces (· == '/') path.toList with
    | first :: rest => first :: rest.filter fun step ↦ step ≠ [] && step ≠ ['.']
    | [] => []

/-- Whether a root is set up as by default. Paths are compared by their steps. -/
def isDefault (c : Config) : Bool :=
  let other : Config := {}
  c.name == other.name && c.bind == other.bind &&
    pathSteps c.directory == pathSteps other.directory

/-- What can be set, under the names that it has in a file. -/
def keys : List String := ["name", "bind", "data_dir"]

/-- Sets what is named. -/
def set (key value : String) (c : Config) : Config :=
  match key with
  | "name" => { c with name := value }
  | "bind" => { c with bind := value }
  | "data_dir" => { c with directory := value }
  | _ => c

/-- Sets what is named to the text of a scalar. -/
def setNode (key : String) (value : Yaml.Node) (c : Config) : Option Config :=
  value.text?.map fun value ↦ c.set key value

/-- The configuration that the entries of a mapping mean. All keys have to be scalars, and one that
means something may stand there only once. -/
def ofEntries? (entries : List (Yaml.Node × Yaml.Node)) : Option Config := do
  let entries ← entries.mapM fun (key, value) ↦ key.text?.map fun key ↦ (key, value)
  let known := entries.filter fun e ↦ keys.contains e.1
  if (known.map (·.1)).Nodup then known.foldlM (fun c (key, value) ↦ c.setNode key value) {}
  else none

/-- The configuration that the items of a sequence mean. -/
def ofItems? (items : List Yaml.Node) : Option Config :=
  if items.length ≤ keys.length then
    (keys.zip items).foldlM (fun c (key, value) ↦ c.setNode key value) {}
  else none

/-- The configuration that a document means. -/
def ofNode? : Yaml.Node → Option Config
  | .mapping entries => ofEntries? entries
  | .sequence items => ofItems? items
  | _ => none

/-- The configuration that a text means, which has to be a single document. -/
def ofText? (text : String) : Option Config :=
  match Yaml.documents text with
  | some [n] => ofNode? n
  | _ => none

/-- The configuration of a root whose file holds a text. -/
def read (text : String) : Config :=
  if (Text.trim text).isEmpty then {} else (ofText? text).getD {}

/-- The configuration of a root whose file may be missing. -/
def load (file : Option String) : Config := (file.map read).getD {}

end Config

end Switchyard.Root
