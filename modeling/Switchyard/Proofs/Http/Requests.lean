import Switchyard.Http.Surface

/-!
# What requests leave as it is

Whatever operators and clients ask of a root over HTTP, its state changes only by four operations: a
table of commands is accepted, a command is deleted, devices are accepted, a client with a name is
registered. What each of them keeps holds after any requests.

## Main definitions

* `Http.Upheld` : what the four operations keep.
* `Http.Surface.after` : the root after some requests.

## Main results

* `Http.Upheld.after` : what the four operations keep is kept by all requests.
-/

namespace Switchyard.Http

/-- A property of roots that is kept by all that a request may come to. -/
structure Upheld (P : Root → Prop) : Prop where
  accept : ∀ now table r, P r → P (r.accept now (CommandTable.decode table)).2
  delete : ∀ k c ledger r, r.ledger.delete k = .ok (c, ledger) → P r → P (r.withLedger ledger)
  acceptDevices : ∀ now ds r, P r → P (r.acceptDevices now ds).2
  register : ∀ now (a : Announcement) r, a.name ≠ "" → P r → P (r.register now a).2

namespace Surface

/-- A route keeps a property of the root. -/
def Keeps (P : Root → Prop) (f : Route) : Prop := ∀ r s, P s.root → P (f r s).2.root

variable {P : Root → Prop}

/-! ### Routes in general -/

theorem keeps_refuse (status : Nat) : Keeps P (refuse status) := fun _ _ hs ↦ hs

theorem keeps_reading (f : Request → Surface → Response) : Keeps P (reading f) := fun _ _ hs ↦ hs

theorem keeps_withQuery {names : List String} {f : List (String × String) → Route}
    (h : ∀ fields, Keeps P (f fields)) : Keeps P (withQuery names f) := by
  intro r s hs
  simp only [withQuery]
  split
  · exact h _ r s hs
  · exact keeps_refuse 400 r s hs

theorem keeps_withBody {α : Type} {read : Json.Reader α} {f : α → Route}
    (h : ∀ a, Keeps P (f a)) : Keeps P (withBody read f) := by
  intro r s hs
  rw [withBody]
  split
  · split
    next a _ => exact h a r s hs
    next => exact keeps_refuse 400 r s hs
    next => exact keeps_refuse 422 r s hs
  · exact keeps_refuse 415 r s hs

/-! ### The routes -/

theorem keeps_health : Keeps P health := keeps_reading _

theorem keeps_systemHealth (now : Time.Instant) : Keeps P (systemHealth now) := keeps_reading _

theorem keeps_getCommands : Keeps P getCommands := keeps_withQuery fun _ ↦ keeps_reading _

theorem keeps_postCommands (h : Upheld P) (now : Time.Instant) : Keeps P (postCommands now) :=
  keeps_withBody fun table _ s hs ↦ h.accept now table s.root hs

theorem keeps_deleteCommand (h : Upheld P) : Keeps P deleteCommand := by
  refine keeps_withQuery fun fields r s hs ↦ ?_
  split
  next => exact hs
  next =>
    split
    next => exact hs
    next hd => exact h.delete _ _ _ s.root hd hs

theorem keeps_getDevices : Keeps P getDevices := keeps_withQuery fun _ ↦ keeps_reading _

theorem keeps_postDevices (h : Upheld P) (now : Time.Instant) : Keeps P (postDevices now) :=
  keeps_withBody fun table _ s hs ↦ h.acceptDevices now table.values s.root hs

theorem keeps_postRegister (h : Upheld P) (now : Time.Instant) : Keeps P (postRegister now) := by
  refine keeps_withBody fun a r s hs ↦ ?_
  split
  next => exact hs
  next hname => exact h.register now a s.root (by simpa using hname) hs

theorem keeps_getClients : Keeps P getClients := keeps_reading _

/-- What is found in a table has what all its entries have. -/
theorem of_lookup {α : Type} {Q : α → Prop} {word : String} {found : α} {es : List (String × α)}
    (h : es.lookup word = some found) (hes : ∀ e ∈ es, Q e.2) : Q found := by
  obtain ⟨before, rest, rfl, -⟩ := List.lookup_eq_some_iff.1 h
  exact hes (word, found) (List.mem_append_right _ List.mem_cons_self)

/-- Every route keeps what the four operations keep. -/
theorem keeps_of_mem_routes (h : Upheld P) {now : Time.Instant} {path : String}
    {methods : List (String × Route)} (hpath : routes now path = some methods) :
    ∀ m ∈ methods, Keeps P m.2 := by
  refine of_lookup (Q := fun methods ↦ ∀ m ∈ methods, Keeps P m.2) hpath ?_
  simp only [List.forall_mem_cons, List.not_mem_nil, false_imp_iff, implies_true, and_true]
  exact ⟨keeps_health, keeps_systemHealth now,
    ⟨keeps_getCommands, keeps_postCommands h now, keeps_deleteCommand h⟩,
    ⟨keeps_getDevices, keeps_postDevices h now⟩, keeps_postRegister h now, keeps_getClients⟩

/-! ### Answers -/

/-- A request that is let in comes to the route for its path and method. -/
theorem answer_of_route {r : Request} {s : Surface} {now : Time.Instant}
    {methods : List (String × Route)} {route : Route} (hlet : s.letsIn r = true)
    (hpath : routes now r.path = some methods) (hmethod : methods.lookup r.method = some route)
    (hhead : r.method ≠ "HEAD") : s.answer now r = route r s := by
  simp only [answer, hlet, if_true, serve, hpath, if_neg hhead, hmethod]

/-- A request is refused, or a route decides what becomes of the root. -/
theorem answer_snd_cases (now : Time.Instant) (r : Request) (s : Surface) :
    (s.answer now r).2 = s ∨ ∃ methods route, routes now r.path = some methods ∧
      methods.lookup (if r.method = "HEAD" then "GET" else r.method) = some route ∧
      (s.answer now r).2 = (route r s).2 := by
  rw [answer]
  split
  next =>
    rw [serve]
    split
    next => exact .inl rfl
    next methods hpath =>
      simp only
      split
      next => exact .inl rfl
      next route hroute => exact .inr ⟨methods, route, hpath, hroute, rfl⟩
  next => exact .inl rfl

theorem keeps_answer (h : Upheld P) (now : Time.Instant) : Keeps P (answer now) := by
  intro r s hs
  rcases answer_snd_cases now r s with hrefused | ⟨methods, route, hpath, hroute, hanswer⟩
  · rwa [hrefused]
  · rw [hanswer]
    exact of_lookup hroute (keeps_of_mem_routes h hpath) r s hs

/-! ### Requests one after the other -/

/-- The root after some requests, each at its moment. -/
def after : List (Time.Instant × Request) → Surface → Surface
  | [], s => s
  | (now, r) :: rs, s => after rs (s.answer now r).2

end Surface

/-- What the four operations keep holds after any requests. -/
theorem Upheld.after {P : Root → Prop} (h : Upheld P) {s : Surface} (hs : P s.root)
    (rs : List (Time.Instant × Request)) : P (s.after rs).root := by
  induction rs generalizing s with
  | nil => exact hs
  | cons r rs ih => exact ih (Surface.keeps_answer h r.1 r.2 s hs)

end Switchyard.Http
