import Switchyard.Json.Value

/-!
# Requests and answers

A request has a method, a target with an optional query, the two header fields that matter, and a
body. An answer has a status and a body of JSON or plain text, or none.
-/

namespace Switchyard.Http

/-- A request. -/
structure Request where
  method : String
  target : String
  key : Option String := none
  contentType : Option String := none
  body : String := ""
  deriving Repr, DecidableEq

/-- The body of an answer. -/
inductive Body where
  | empty
  | text (s : String)
  | json (v : Json.Value)
  deriving Repr, Inhabited

/-- An answer. -/
structure Response where
  status : Nat
  body : Body := .empty
  deriving Repr, Inhabited

namespace Response

/-- Whether the request was carried out. -/
def isSuccess (r : Response) : Bool := 200 ≤ r.status && r.status < 300

/-- The answer that carries a JSON value. -/
def json (v : Json.Value) : Response := ⟨200, .json v⟩

end Response

namespace Request

/-- The target without what may follow a number sign. -/
def resource (r : Request) : List Char := r.target.toList.takeWhile (· != '#')

/-- The path of a request, as it is written. -/
def path (r : Request) : String := String.ofList (r.resource.takeWhile (· != '?'))

/-- The query of a request. -/
def query (r : Request) : List Char := (r.resource.dropWhile (· != '?')).drop 1

end Request

end Switchyard.Http
