import Switchyard.Client.Bench
import Switchyard.Helper.Process
import Switchyard.Helper.Words
import Switchyard.Text.Utf8

/-!
# External helpers

Devices may be reached through a program of the site's own, named by a template. Words of the
template may contain placeholders for the parts of a request; the placeholders are replaced after
the template is split, so a part with blanks in it stays in its word. Only a word that is nothing
but the placeholder of the arguments becomes as many words as there are arguments.

A helper that ends with success answers with what it wrote. One that fails answers with what it
wrote to its error output, or else with its exit code.

## Main definitions

* `Helper.ofTemplate` — a helper from its template.
* `Helper.commandLine` — the program and its arguments for a request.
* `Helper.run`, `Helper.sweep` — carrying a request out.
-/

namespace Switchyard

/-- A program that reaches devices: the words of its template, and how long it may take. -/
structure Helper where
  template : List String
  limit : Nat
  deriving Repr, DecidableEq

namespace Helper

/-- The helper of a template, which may take a number of milliseconds. -/
def ofTemplate (template : String) (limit : Nat) : Except Fault Helper :=
  match splitLine template with
  | some words => .ok ⟨words, limit⟩
  | none => .error (.rejected "bad protocol command template: missing closing quote")

/-- The placeholder of a name. -/
def placeholder (name : String) : String := "\x7b" ++ name ++ "\x7d"

/-- The placeholders and what stands for them, in the order in which they are replaced. -/
def substitutions (r : Device.Request) : List (String × String) :=
  [(placeholder "action", r.action), (placeholder "mac", r.mac), (placeholder "ip", r.ip),
   (placeholder "user", r.user), (placeholder "pass", r.password), (placeholder "args", r.args)]

/-- A word with its placeholders replaced, one after the other. -/
def substitute (r : Device.Request) (word : String) : String :=
  String.ofList <|
    (substitutions r).foldl (fun cs (target, value) ↦ Text.replace target.toList value.toList cs)
      word.toList

/-- What a word of the template becomes. -/
def expand (r : Device.Request) (word : String) : List String :=
  if word = placeholder "args" then Text.words r.args else [substitute r word]

/-- The program for a request and its arguments. -/
def commandLine (r : Device.Request) (h : Helper) : List String := h.template.flatMap (expand r)

/-- The reason for a failure: what was written to the error output, or else the exit code. -/
def reason (action : String) (o : Outcome) : String :=
  let errors := Text.trimChars (Text.Utf8.decodeLossy o.errors)
  if !errors.isEmpty then String.ofList errors
  else
    match o.ending with
    | .exit code => action ++ " exited with " ++ toString code
    | .signal => action ++ " exited with -1"

/-- What a process answers that was started for an action and may take `limit` milliseconds. -/
def answer (action : String) (limit : Nat) (o : Outcome) : Except Fault String :=
  if limit < o.millis then
    .error (.execution (action ++ " timed out after " ++ toString (limit / 1000) ++ "s"))
  else if o.succeeded then .ok (String.ofList (Text.Utf8.decodeLossy o.output))
  else .error (.execution (reason action o))

/-- Carries a request out. -/
def run (programs : Programs) (r : Device.Request) (h : Helper) : Except Fault String :=
  match h.commandLine r with
  | [] => .error (.execution "no device protocol helper configured")
  | program :: args =>
    match programs program args with
    | .error obstacle =>
      .error (.execution ("failed to start " ++ program ++ ": " ++ obstacle.message))
    | .ok o => answer r.action h.limit o

/-- Sweeps the network through a source. The helper writes an array of devices. -/
def sweep (programs : Programs) (s : Source) (h : Helper) : Except Fault (List Device) := do
  let written ← h.run programs (.sweep s)
  (Json.Reader.run (Json.Reader.list Device.shape.read) written).mapError fun misfit ↦
    .serialization misfit.text

/-- The protocol of a helper. -/
def protocol (programs : Programs) (h : Helper) : Protocol Unit where
  execute r _ := (h.run programs r, ())
  scan s _ := (h.sweep programs s, ())

end Helper

end Switchyard
