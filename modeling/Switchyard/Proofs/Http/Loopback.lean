import Switchyard.Http.Link
import Switchyard.Proofs.Device.DeviceTable
import Switchyard.Proofs.Http.Bodies
import Switchyard.Proofs.Http.Pull
import Switchyard.Proofs.Http.Query

/-!
# The link over HTTP and the loopback link

A client that shows the right key does the same to the root over HTTP as in the same process: it
receives the same commands, its calls succeed, and the root is the same afterwards. Two things set
the links apart. A name that is empty is no name over HTTP: such a client is given every command,
and it is not registered. And the link in the same process departs from the wire form: commands are
written down and read back on it, reports of devices are not. So the lock of a report, which the
wire form leaves out, leaks to the root with a device that is new there. That is a fault of the
link: what `Http.link_eq_loopback` says of devices holds up to locks, and of the whole root where
every locked report is of a device that the root knows.

## Main definitions

* `Http.Surface.Opens` : the key of the root is one that lets in.
* `Http.LinksAgree` : every call does the same on both links.

## Main results

* `Http.link_eq_loopback` : where the links agree.
* `Http.not_linksAgree` : they do not agree for an empty name.
-/

namespace Switchyard

/-- A root whose inventory has no locks. -/
def Root.unlocked (r : Root) : Root := r.withInventory r.inventory.unlocked

namespace Http

variable {now : Time.Instant} {s : Surface}

/-! ### Requests with the right key -/

namespace Surface

/-- The key of a root is one that lets in: it is not empty, and a header field shows it as it
is. -/
def Opens (s : Surface) : Prop := s.key ≠ "" ∧ isShown s.key = true

/-- What a call on the root comes to where the root stands behind its key. -/
def lift {α : Type} (s : Surface) (call : α × Root) : α × Surface :=
  (call.1, { s with root := call.2 })

/-- A request with the right key is let in. -/
theorem Opens.letsIn (h : s.Opens) {r : Request} (hkey : r.key = some s.key) :
    s.letsIn r = true := by
  obtain ⟨hne, hshown⟩ := h
  simp [Surface.letsIn, hne, hshown, hkey]

/-- A request of a client with a body comes to the route for it. -/
theorem answer_posting (h : s.Opens) (now : Time.Instant) (path : String)
    (hmark : '#' ∉ path.toList) (hask : '?' ∉ path.toList) {methods : List (String × Route)}
    (hpath : routes now path = some methods) {route : Route}
    (hmethod : methods.lookup "POST" = some route) (v : Json.Value) :
    s.answer now (posting s.key path v) = route (posting s.key path v) s := by
  have hsame : (posting s.key path v).path = path := Request.path_of_not_mem hmark hask
  exact answer_of_route (h.letsIn rfl) (by rw [hsame, hpath]) hmethod
    (by decide : "POST" ≠ "HEAD")

/-- A body that is read back comes to its route. -/
theorem withBody_posting {α : Type} {read : Json.Reader α} {f : α → Route} {v : Json.Value}
    {a : α} (h : Json.Reader.run read v.render = .ok a) (key path : String) (s : Surface) :
    withBody read f (posting key path v) s = f a (posting key path v) s := by
  have hjson : ((some "application/json").bind MediaType.parse?).map (·.isJson) = some true := by
    decide
  simp only [withBody, posting, hjson, h, Option.getD_some, if_true]

end Surface

/-- A root behind its key whose inventory has no locks. -/
def Surface.unlocked (s : Surface) : Surface := { s with root := s.root.unlocked }

/-! ### The four calls -/

/-- The commands that an answer was made from are those it carries. -/
theorem carriedCommands_commandsAnswer (cs : List Command) :
    carriedCommands (Surface.commandsAnswer cs) = .ok (CommandTable.decode (.encode cs)) := by
  have hsuccess : (Surface.commandsAnswer cs).isSuccess = true := rfl
  have hbody : (Surface.commandsAnswer cs).body = .json (CommandTable.encode cs).toJson := rfl
  simp only [carriedCommands, hsuccess, hbody, CommandTable.run_render]

/-- A pull over HTTP is answered with what is asked for in the one field of its query. -/
theorem answer_pulling (h : s.Opens) (client : String) :
    s.answer now (pulling s.key client) =
      (Surface.commandsAnswer (if client = "" then s.root.ledger.commands.values
        else s.root.ledger.pullFor client), s) := by
  have hmark : '#' ∉ "/api/v1/commands".toList := by decide
  have hask : '?' ∉ "/api/v1/commands".toList := by decide
  have hid : Query.encode "id" = "id" := by
    rw [Query.encode, Text.Utf8.encode_eq_flatMap]
    decide
  have htarget : (pulling s.key client).target.toList =
      "/api/v1/commands".toList ++ '?' :: Query.fieldText "id" client := by
    rw [Query.fieldText, hid, pulling, String.toList_append]
    rfl
  have hfields : Query.fields (pulling s.key client).query = [("id", client)] := by
    rw [Request.query_of_field hmark hask htarget, Query.fields_fieldText]
  have honce : Query.unambiguous Surface.commandFields [("id", client)] = true := by
    simp [Query.unambiguous, Query.values, Surface.commandFields]
  have hother : Query.value? "cmd" [("id", client)] = none := by
    simp [Query.value?, Query.values]
  have hname : Query.value? "id" [("id", client)] = if client = "" then none else some client := by
    by_cases hempty : client = "" <;> simp [Query.value?, Query.values, hempty]
  have hroute : s.answer now (pulling s.key client) =
      Surface.getCommands (pulling s.key client) s :=
    Surface.answer_of_route (h.letsIn rfl)
      (by rw [Request.path_of_field hmark hask htarget]; rfl) rfl (by decide : "GET" ≠ "HEAD")
  rw [hroute]
  simp only [Surface.getCommands, Surface.withQuery, hfields, honce, if_true, Surface.reading,
    hother, hname]
  by_cases hempty : client = "" <;> simp [hempty]

/-- What is pulled over HTTP. -/
theorem pull_link (h : s.Opens) (client : String) :
    (link now s.key).pull client s =
      if client = "" then (.ok (CommandTable.decode (.encode s.root.ledger.commands.values)), s)
      else s.lift ((Link.loopback now).pull client s.root) := by
  simp only [link, answer_pulling h, carriedCommands_commandsAnswer]
  split <;> rfl

/-- What is pushed over HTTP. -/
theorem push_link (h : s.Opens) (cs : List Command) :
    (link now s.key).push cs s = s.lift ((Link.loopback now).push cs s.root) := by
  have hroute := Surface.answer_posting h now "/api/v1/commands" (by decide) (by decide)
    rfl rfl (CommandTable.encode cs).toJson
  have hread := CommandTable.run_render (CommandTable.encode cs)
  simp only [link, hroute, Surface.postCommands, Surface.withBody_posting hread]
  rfl

/-- Devices that are sent over HTTP arrive without their locks. -/
theorem pushDevices_link (h : s.Opens) {ds : List Device} (hds : ∀ d ∈ ds, d.TimeReadable) :
    (link now s.key).pushDevices ds s = s.lift (.ok (),
      (s.root.acceptDevices now ((DeviceTable.encode ds).values.map Device.unlocked)).2) := by
  have hroute := Surface.answer_posting h now "/api/v1/devices" (by decide) (by decide)
    rfl rfl (DeviceTable.encode ds).toJson
  have hread := DeviceTable.run_render fun d hd ↦ hds d (DeviceTable.mem_of_mem_values_encode hd)
  simp only [link, hroute, Surface.postDevices, Surface.withBody_posting hread, Table.values_map]
  rfl

/-- What a client announces over HTTP. -/
theorem register_link (h : s.Opens) {a : Announcement} (ha : a.Fits) :
    (link now s.key).register a s =
      if a.name = "" then (.error (unsuccessful ⟨400, .empty⟩), s)
      else s.lift ((Link.loopback now).register a s.root) := by
  have hroute := Surface.answer_posting h now "/api/v1/register" (by decide) (by decide)
    rfl rfl a.toJson
  have hread := Announcement.run_render ha
  simp only [link, hroute, Surface.postRegister, Surface.withBody_posting hread,
    String.isEmpty_iff]
  split <;> rfl

/-! ### Both links -/

/-- A client that shows the right key does the same on both links. If it has a name, it pulls the
same commands and is registered in the same way; without a name it is given every command over HTTP,
and it is not registered there. What it pushes has the same effect. The devices that it sends have
the same effect up to locks; those that the root knew are the same with their locks, and all of them
are if every locked report is of such a device. -/
theorem link_eq_loopback (h : s.Opens) (now : Time.Instant) :
    let http := link now s.key
    let here := Link.loopback now
    (∀ client, http.pull client s =
      if client = "" then (.ok (CommandTable.decode (.encode s.root.ledger.commands.values)), s)
      else s.lift (here.pull client s.root)) ∧
    (∀ cs, http.push cs s = s.lift (here.push cs s.root)) ∧
    (∀ ds : List Device, (∀ d ∈ ds, d.TimeReadable) →
      (http.pushDevices ds s).1 = (here.pushDevices ds s.root).1 ∧
      (http.pushDevices ds s).2.unlocked = (s.lift (here.pushDevices ds s.root)).2.unlocked ∧
      (∀ mac, (s.root.inventory.devices.get? mac).isSome →
        (http.pushDevices ds s).2.root.inventory.devices.get? mac =
          (here.pushDevices ds s.root).2.inventory.devices.get? mac) ∧
      ((∀ d ∈ ds, d.locked → ∀ mac ∈ Mac.canonical? d.mac,
          (s.root.inventory.devices.get? mac).isSome) →
        http.pushDevices ds s = s.lift (here.pushDevices ds s.root))) ∧
    (∀ a : Announcement, a.Fits → http.register a s =
      if a.name = "" then (.error (unsuccessful ⟨400, .empty⟩), s)
      else s.lift (here.register a s.root)) := by
  dsimp only
  refine ⟨pull_link h, push_link h, fun ds hds ↦ ?_, fun a ha ↦ register_link h ha⟩
  rw [pushDevices_link h hds]
  refine ⟨rfl, ?_, fun mac hmac ↦ ?_, fun hknown ↦ ?_⟩
  · have hsame := (Inventory.insertAll_map_unlocked now (DeviceTable.encode ds).values
      s.root.inventory).2
    exact congrArg (fun inventory ↦ { s with root := s.root.withInventory inventory }) hsame
  · exact Inventory.get?_insertAll_map_unlocked hmac now _
  · have hsame := Inventory.insertAll_map_unlocked_of_known now
      fun d hd ↦ hknown d (DeviceTable.mem_of_mem_values_encode hd)
    exact congrArg (fun merged ↦ s.lift (Except.ok (), s.root.withInventory merged.2)) hsame

/-- A device that the root of `stocked` holds. -/
def camera : Device where
  mac := "00-60-E9-00-00-01"
  model := "EH7506"
  ip := "10.0.50.1"
  netmask := "255.255.255.0"
  gateway := "10.0.50.254"
  kernel := "1.0"
  application := "EH7506 V1.0"
  lastSeen := some ⟨1700000000, 250000000⟩

/-- A root that holds one device. -/
def stocked : Surface := { bare with root := (bare.root.acceptDevices default [camera]).2 }

/-- A client named `c 1` pulls, pushes a command that it ran, reports the device again while it
holds its lock, and announces itself. -/
theorem link_eq_loopback_of_stocked :
    let report : List Device := [{ camera with locked := true, hostname := "switch" }]
    let ran : List Command := [{ text := "scan gwd", status := .ok, client := some "c 1" }]
    let greeting : Announcement := { name := "c 1", devices := 1, now := -1 }
    (link default stocked.key).pull "c 1" stocked =
      stocked.lift ((Link.loopback default).pull "c 1" stocked.root) ∧
    (link default stocked.key).push ran stocked =
      stocked.lift ((Link.loopback default).push ran stocked.root) ∧
    (link default stocked.key).pushDevices report stocked =
      stocked.lift ((Link.loopback default).pushDevices report stocked.root) ∧
    (link default stocked.key).register greeting stocked =
      stocked.lift ((Link.loopback default).register greeting stocked.root) := by
  intro report ran greeting
  have hopens : stocked.Opens := ⟨by decide, by decide⟩
  obtain ⟨hpull, hpush, hdevices, hregister⟩ := link_eq_loopback hopens default
  have htext : Time.Instant.zulu ⟨1700000000, 250000000⟩ = "2023-11-14T22:13:20.250Z" := by
    decide +kernel
  have hback : Time.Reading.relaxed? "2023-11-14T22:13:20.250Z" =
      some ⟨1700000000, 250000000⟩ := by decide +kernel
  have htime : ∀ d ∈ report, d.TimeReadable := by
    rintro d hd t ht
    obtain rfl := List.mem_singleton.1 hd
    cases ht
    rwa [htext]
  have hknown : (stocked.root.inventory.devices.get? "00-60-E9-00-00-01").isSome := by
    decide +kernel
  have hlocks : ∀ d ∈ report, d.locked → ∀ mac ∈ Mac.canonical? d.mac,
      (stocked.root.inventory.devices.get? mac).isSome := by
    rintro d hd - mac hmac
    obtain rfl := List.mem_singleton.1 hd
    have hcanonical : Mac.canonical? camera.mac = some "00-60-E9-00-00-01" := by decide +kernel
    obtain rfl := Option.some.inj (hcanonical.symm.trans hmac)
    exact hknown
  have hfits : greeting.Fits := ⟨by decide, by decide, by decide, by decide⟩
  obtain ⟨-, -, -, hsame⟩ := hdevices report htime
  have hpulled := hpull "c 1"
  have hregistered := hregister greeting hfits
  rw [if_neg (by decide)] at hpulled hregistered
  exact ⟨hpulled, hpush ran, hsame hlocks, hregistered⟩

/-! ### Where the links differ -/

/-- Every call does the same on both links. -/
structure LinksAgree (now : Time.Instant) (s : Surface) : Prop where
  pull : ∀ client, (link now s.key).pull client s = s.lift ((Link.loopback now).pull client s.root)
  push : ∀ cs, (link now s.key).push cs s = s.lift ((Link.loopback now).push cs s.root)
  pushDevices : ∀ ds : List Device, (∀ d ∈ ds, d.TimeReadable) →
    (link now s.key).pushDevices ds s = s.lift ((Link.loopback now).pushDevices ds s.root)
  register : ∀ a : Announcement, a.Fits →
    (link now s.key).register a s = s.lift ((Link.loopback now).register a s.root)

/-- An announcement without a name is refused over HTTP and taken down in the same process. -/
theorem not_linksAgree : bare.Opens ∧ ¬LinksAgree default bare := by
  have hopens : bare.Opens := ⟨by decide, by decide⟩
  refine ⟨hopens, fun hagree ↦ ?_⟩
  have hfits : Announcement.Fits { name := "" } :=
    ⟨by decide, by decide, by decide, by decide⟩
  have htaken := hagree.register { name := "" } hfits
  rw [register_link hopens hfits, if_pos rfl] at htaken
  cases congrArg Prod.fst htaken

end Http

end Switchyard
