import Switchyard.Client.Link
import Switchyard.Http.Surface

/-!
# Links over HTTP

A client may reach the root over HTTP. Each call is one request that shows the key of the client;
an answer other than success, or one that cannot be read, is a fault of the transport.
-/

namespace Switchyard.Http

/-- The request of a client with a body. -/
def posting (key path : String) (body : Json.Value) : Request where
  method := "POST"
  target := path
  key := some key
  contentType := some "application/json"
  body := body.render

/-- The request of a client for the commands it may run. -/
def pulling (key client : String) : Request where
  method := "GET"
  target := "/api/v1/commands?id=" ++ Query.encode client
  key := some key

/-- What is wrong with an answer. -/
def unsuccessful (r : Response) : Fault := .transport ("status " ++ toString r.status)

/-- The commands that an answer carries. -/
def carriedCommands (r : Response) : Except Fault (List Command) :=
  match r.isSuccess, r.body with
  | true, .json v =>
    match Json.Reader.run CommandTable.read v.render with
    | .ok table => .ok (CommandTable.decode table)
    | .error misfit => .error (.transport misfit.text)
  | true, _ => .error (.transport Json.Misfit.malformed.text)
  | false, _ => .error (unsuccessful r)

/-- Whether an answer is a success. -/
def acknowledged (r : Response) : Except Fault Unit :=
  if r.isSuccess then .ok () else .error (unsuccessful r)

/-- The link over HTTP with a key. -/
def link (now : Time.Instant) (key : String) : Link Surface where
  pull client s :=
    let (r, s) := s.answer now (pulling key client)
    (carriedCommands r, s)
  push cs s :=
    let (r, s) := s.answer now (posting key "/api/v1/commands" (CommandTable.encode cs).toJson)
    (acknowledged r, s)
  pushDevices ds s :=
    let (r, s) := s.answer now (posting key "/api/v1/devices" (DeviceTable.encode ds).toJson)
    (acknowledged r, s)
  register a s :=
    let (r, s) := s.answer now (posting key "/api/v1/register" a.toJson)
    (acknowledged r, s)

end Switchyard.Http
