import Switchyard.Helper
import Switchyard.Intervals
import Switchyard.Toml.Document

/-!
# How a client is set up

A client has a name, knows where its root is and which key opens it, and keeps several periods and
deadlines; in a table of its own stands which program reaches the devices. What is left out has a
default, and what is not known is ignored. A value of the wrong kind is a fault, and so is a file
that is no table of settings.

A table of settings may also be written as an array of its values in order. A date and a time count
as a table of which nothing is known.

## Main definitions

* `Client.Config` and `Client.HelperConfig`.
* `Client.Config.read?` — the configuration that a text means.
-/

namespace Switchyard.Client

/-- Which program reaches the devices, and how many seconds it may take. -/
structure HelperConfig where
  command : String := ""
  limit : Nat := 30
  deriving Repr, DecidableEq, Inhabited

/-- How a client is set up. Periods are in seconds, and only the deadline for devices to answer is
in milliseconds. -/
structure Config where
  name : String := "client"
  rootUrl : String := "http://127.0.0.1:27182"
  apiKey : String := ""
  commandPeriod : Nat := 5
  registerPeriod : Nat := 60
  livenessPeriod : Nat := 60
  requestLimit : Nat := 10
  probeDeadline : Nat := 3000
  helper : HelperConfig := {}
  deriving Repr, DecidableEq, Inhabited

/-- The text of a value. -/
def asText? : Toml.Value → Option String
  | .text s => some s
  | _ => none

/-- The number of a value, which is not negative. -/
def asNumber? : Toml.Value → Option Nat
  | .integer n => if 0 ≤ n then some n.toNat else none
  | _ => none

namespace HelperConfig

/-- What can be set, in order. -/
def keys : List String := ["command", "timeout_secs"]

/-- Sets what is named. -/
def set (key : String) (v : Toml.Value) (c : HelperConfig) : Option HelperConfig :=
  match key with
  | "command" => (asText? v).map fun command ↦ { c with command }
  | "timeout_secs" => (asNumber? v).map fun limit ↦ { c with limit }
  | _ => some c

/-- Sets what is named, one after the other. -/
def ofEntries? (es : Toml.Entries) : Option HelperConfig :=
  es.foldlM (fun c (key, v) ↦ c.set key v) {}

/-- The configuration that a value means. -/
def ofValue? : Toml.Value → Option HelperConfig
  | .table _ es => ofEntries? es
  | .array items => ofEntries? (keys.zip items)
  | .moment => some {}
  | _ => none

end HelperConfig

namespace Config

/-- Sets what is named. -/
def set (key : String) (v : Toml.Value) (c : Config) : Option Config :=
  match key with
  | "name" => (asText? v).map fun name ↦ { c with name }
  | "root_url" => (asText? v).map fun rootUrl ↦ { c with rootUrl }
  | "api_key" => (asText? v).map fun apiKey ↦ { c with apiKey }
  | "command_interval_secs" => (asNumber? v).map fun commandPeriod ↦ { c with commandPeriod }
  | "register_interval_secs" => (asNumber? v).map fun registerPeriod ↦ { c with registerPeriod }
  | "liveness_interval_secs" => (asNumber? v).map fun livenessPeriod ↦ { c with livenessPeriod }
  | "http_timeout_secs" => (asNumber? v).map fun requestLimit ↦ { c with requestLimit }
  | "probe_deadline_ms" => (asNumber? v).map fun probeDeadline ↦ { c with probeDeadline }
  | "protocol" => (HelperConfig.ofValue? v).map fun helper ↦ { c with helper }
  | _ => some c

/-- The configuration that a table of settings means. -/
def ofEntries? (es : Toml.Entries) : Option Config :=
  es.foldlM (fun c (key, v) ↦ c.set key v) {}

/-- The configuration that a text means. -/
def read? (text : String) : Option Config := (Toml.read? text).bind ofEntries?

/-- The configuration of a client whose file may be missing. -/
def load? (file : Option String) : Option Config :=
  match file with
  | some text => read? text
  | none => some {}

/-- How often the client looks for commands and checks its devices. -/
def intervals (c : Config) : Intervals := .ofSeconds c.commandPeriod c.livenessPeriod

/-- How long a request to the root may take, in milliseconds. -/
def requestMillis (c : Config) : Nat := 1000 * c.requestLimit

/-- How often the client announces itself, in milliseconds. It does so at most once a second. -/
def registerMillis (c : Config) : Nat := 1000 * max 1 c.registerPeriod

end Config

end Switchyard.Client
