import Switchyard.Command.Entry
import Switchyard.Http.MediaType
import Switchyard.Http.Message
import Switchyard.Http.Query
import Switchyard.Root

/-!
# The root over HTTP

Operators and clients reach the root over HTTP. Every request has to show the key of the root, the
one for `/health` excepted. A request is refused for its key first, then for its path, then for its
method, and after that for what the route itself asks for: a query with at most one value for each
field it knows, or a body of JSON in the right shape.

## Main definitions

* `Http.Surface` — the root with its key.
* `Http.Surface.answer` — the answer to a request.
-/

namespace Switchyard.Http

/-- The root as it is reached over HTTP: with its key, and the moment it started. -/
structure Surface where
  root : Root
  key : String
  started : Time.Instant

/-- What a route does with a request. -/
abbrev Route := Request → Surface → Response × Surface

namespace Surface

/-- The answer that refuses a request. -/
def refuse (status : Nat) : Route := fun _ s ↦ (⟨status, .empty⟩, s)

/-- A route that changes nothing. -/
def reading (f : Request → Surface → Response) : Route := fun r s ↦ (f r s, s)

/-- A route that asks that none of some fields is given more than once. -/
def withQuery (names : List String) (f : List (String × String) → Route) : Route := fun r s ↦
  let fields := Query.fields r.query
  if Query.unambiguous names fields then f fields r s else refuse 400 r s

/-- A route that asks for a body of JSON with a value for `read`. -/
def withBody {α : Type} (read : Json.Reader α) (f : α → Route) : Route := fun r s ↦
  if ((r.contentType.bind MediaType.parse?).map (·.isJson)).getD false then
    match Json.Reader.run read r.body with
    | .ok a => f a r s
    | .error .malformed => refuse 400 r s
    | .error .mistyped => refuse 422 r s
  else refuse 415 r s

/-! ### Routes -/

/-- Says that the root is there. -/
def health : Route := reading fun _ _ ↦ ⟨200, .text "ok"⟩

/-- Says how much the root holds. -/
def systemHealth (now : Time.Instant) : Route := reading fun _ s ↦
  .json <| .object
    [("name", .text s.root.ledger.owner),
     ("uptime_seconds", .int (now.seconds - s.started.seconds)),
     ("devices_tracked", .int s.root.inventory.size),
     ("commands_total", .int s.root.ledger.size),
     ("commands_open", .int s.root.ledger.runnable.length),
     ("clients_registered", .int s.root.roster.size)]

/-- The answer that carries a table of commands. -/
def commandsAnswer (cs : List Command) : Response := .json (CommandTable.encode cs).toJson

/-- The names of the fields that commands are asked for with. -/
def commandFields : List String := ["id", "cmd"]

/-- The commands that a client may take, one command, or all of them. -/
def getCommands : Route := withQuery commandFields fun fields ↦ reading fun _ s ↦
  match Query.value? "id" fields, Query.value? "cmd" fields with
  | some client, _ => commandsAnswer (s.root.ledger.pullFor client)
  | none, none => commandsAnswer s.root.ledger.commands.values
  | none, some wire =>
    if wire = "all" then commandsAnswer s.root.ledger.commands.values
    else
      match s.root.ledger.get? (Key.parse wire) with
      | some c => commandsAnswer [c]
      | none => ⟨404, .empty⟩

/-- Counts of what was offered and what was taken of it. -/
def countsAnswer (offered accepted : Nat) : Response :=
  .json (.object [("offered", .int offered), ("accepted", .int accepted)])

/-- Takes a table of commands from operators or clients. -/
def postCommands (now : Time.Instant) : Route := withBody CommandTable.read fun table _ s ↦
  let (accepted, root) := s.root.accept now (CommandTable.decode table)
  (countsAnswer table.size accepted, { s with root })

/-- Deletes a command. -/
def deleteCommand : Route := withQuery commandFields fun fields _ s ↦
  match Query.value? "cmd" fields with
  | none => (⟨400, .empty⟩, s)
  | some wire =>
    match s.root.ledger.delete (Key.parse wire) with
    | .error _ => (⟨404, .empty⟩, s)
    | .ok (_, ledger) =>
      (.json (.object [("deleted", .text wire)]), { s with root := s.root.withLedger ledger })

/-- The answer that carries a table of devices. -/
def devicesAnswer (ds : List Device) : Response := .json (DeviceTable.encode ds).toJson

/-- One device, or all of them. -/
def getDevices : Route := withQuery ["dev"] fun fields ↦ reading fun _ s ↦
  match Query.value? "dev" fields with
  | none => devicesAnswer s.root.inventory.devices.values
  | some target =>
    match s.root.inventory.find? target with
    | some d => devicesAnswer [d]
    | none => ⟨404, .empty⟩

/-- Takes a table of devices from a client. -/
def postDevices (now : Time.Instant) : Route := withBody DeviceTable.read fun table _ s ↦
  let (accepted, root) := s.root.acceptDevices now table.values
  (countsAnswer table.size accepted, { s with root })

/-- Takes an announcement of a client with a name. -/
def postRegister (now : Time.Instant) : Route := withBody Announcement.read fun a _ s ↦
  if a.name.isEmpty then (⟨400, .empty⟩, s)
  else
    let (first, root) := s.root.register now a
    (.json (.object [("registered", .text a.name), ("first", .bool first)]), { s with root })

/-- The clients. -/
def getClients : Route := reading fun _ s ↦ .json s.root.roster.toJson

/-! ### Answers -/

/-- The routes of a path by method, if the path is known. -/
def routes (now : Time.Instant) (path : String) : Option (List (String × Route)) :=
  [("/health", [("GET", health)]),
   ("/system/health", [("GET", systemHealth now)]),
   ("/api/v1/commands",
     [("GET", getCommands), ("POST", postCommands now), ("DELETE", deleteCommand)]),
   ("/api/v1/devices", [("GET", getDevices), ("POST", postDevices now)]),
   ("/api/v1/register", [("POST", postRegister now)]),
   ("/api/v1/clients", [("GET", getClients)])].lookup path

/-- What becomes of a request that is let in. A method `HEAD` stands for `GET` without the
body. -/
def serve (now : Time.Instant) : Route := fun r s ↦
  match routes now r.path with
  | none => refuse 404 r s
  | some methods =>
    let method := if r.method = "HEAD" then "GET" else r.method
    match methods.lookup method with
    | none => refuse 405 r s
    | some route =>
      let (answer, s) := route r s
      (if r.method = "HEAD" then { answer with body := .empty } else answer, s)

/-- Whether a header field shows a text as it is: the characters from the space to the tilde, and
the tab. -/
def isShown (text : String) : Bool :=
  text.toList.all fun c ↦ c == '\t' || (0x20 ≤ c.toNat && c.toNat ≤ 0x7E)

/-- Whether a request may pass. A key that is empty, or that no header field shows as it is, lets
nobody in. -/
def letsIn (r : Request) (s : Surface) : Bool :=
  r.path == "/health" || (!s.key.isEmpty && isShown s.key && r.key == some s.key)

/-- The answer to a request. -/
def answer (now : Time.Instant) : Route := fun r s ↦
  if s.letsIn r then serve now r s else refuse 401 r s

end Surface

end Switchyard.Http
