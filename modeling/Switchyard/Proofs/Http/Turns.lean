import Switchyard.Proofs.Http.Requests
import Switchyard.Proofs.Root.Turns

/-!
# Requests are turns

Whatever is asked of a root over HTTP, it goes through turns of the root: most requests are none or
one, and a request deletes a command only if it is the one that names it for deletion.

## Main definitions

* `Http.Request.deletes?` : the key that a request names for deletion.

## Main results

* `Http.exists_after_eq_after` : requests come to turns of the root.
* `Http.Surface.root_answer_of_deletes?` : what a request that names a key for deletion does.
-/

namespace Switchyard

/-- A root comes from another by turns that delete only some keys. -/
def Root.Reached (D : Key → Prop) (r r' : Root) : Prop :=
  ∃ ts : List Turn, r' = r.after ts ∧ ∀ k, .delete k ∈ ts → D k

namespace Root

variable {D : Key → Prop} {r r' : Root}

theorem Reached.refl (r : Root) : Reached D r r := ⟨[], rfl, fun _ hk ↦ by cases hk⟩

theorem Reached.turn (h : Reached D r r') {t : Turn} (ht : ∀ k, t = .delete k → D k) :
    Reached D r (r'.turn t) := by
  obtain ⟨ts, rfl, hts⟩ := h
  refine ⟨ts ++ [t], by rw [after_append]; rfl, fun k hk ↦ ?_⟩
  rcases List.mem_append.1 hk with hmem | hmem
  · exact hts k hmem
  · exact ht k (List.mem_singleton.1 hmem).symm

end Root

namespace Http

/-- The key of the command that a request names for deletion. -/
def Request.deletes? (q : Request) : Option Key :=
  let fields := Query.fields q.query
  if q.method = "DELETE" ∧ q.path = "/api/v1/commands" ∧
      Query.unambiguous Surface.commandFields fields = true then
    (Query.value? "cmd" fields).map Key.parse
  else none

namespace Surface

variable {D : Key → Prop} {r : Root}

theorem reached_postCommands (now : Time.Instant) :
    Keeps (Root.Reached D r) (postCommands now) :=
  keeps_withBody fun table _ _ hs ↦
    hs.turn (t := .accept now (CommandTable.decode table)) fun _ hk ↦ by cases hk

theorem reached_postDevices (now : Time.Instant) : Keeps (Root.Reached D r) (postDevices now) :=
  keeps_withBody fun table _ _ hs ↦
    hs.turn (t := .acceptDevices now table.values) fun _ hk ↦ by cases hk

theorem reached_postRegister (now : Time.Instant) : Keeps (Root.Reached D r) (postRegister now) := by
  refine keeps_withBody fun a _ s hs ↦ ?_
  split
  next => exact hs
  next => exact hs.turn (t := .register now a) fun _ hk ↦ by cases hk

/-- The route that deletes takes out the command that the query names, if it is there. -/
theorem reached_deleteCommand {q : Request} {s : Surface}
    (hD : Query.unambiguous commandFields (Query.fields q.query) = true →
      ∀ wire, Query.value? "cmd" (Query.fields q.query) = some wire → D (.parse wire))
    (hs : Root.Reached D r s.root) : Root.Reached D r (deleteCommand q s).2.root := by
  simp only [deleteCommand, withQuery]
  split
  swap
  · exact hs
  next hfields =>
    split
    next => exact hs
    next wire hwire =>
      have hdelete : Root.Reached D r (s.root.turn (.delete (.parse wire))) := by
        refine hs.turn fun k hk ↦ ?_
        obtain rfl := Root.Turn.delete.inj hk
        exact hD hfields wire hwire
      rw [Root.turn, Root.delete] at hdelete
      split
      next => exact hs
      next hd => rwa [hd] at hdelete

/-- Every route goes through turns that delete nothing, but the one that deletes. -/
theorem reached_of_mem_routes {now : Time.Instant} {path : String}
    {methods : List (String × Route)} (hpath : routes now path = some methods) :
    ∀ m ∈ methods, path = "/api/v1/commands" ∧ m = ("DELETE", deleteCommand) ∨
      Keeps (Root.Reached D r) m.2 := by
  obtain ⟨before, rest, htable, -⟩ := List.lookup_eq_some_iff.1 hpath
  suffices h : ∀ e ∈ before ++ (path, methods) :: rest, ∀ m ∈ e.2,
      e.1 = "/api/v1/commands" ∧ m = ("DELETE", deleteCommand) ∨ Keeps (Root.Reached D r) m.2 from
    h (path, methods) (List.mem_append_right _ List.mem_cons_self)
  rw [← htable]
  simp only [List.forall_mem_cons, List.not_mem_nil, false_imp_iff, implies_true, and_true]
  exact ⟨.inr keeps_health, .inr (keeps_systemHealth now),
    ⟨.inr keeps_getCommands, .inr (reached_postCommands now), .inl trivial⟩,
    ⟨.inr keeps_getDevices, .inr (reached_postDevices now)⟩, .inr (reached_postRegister now),
    .inr keeps_getClients⟩

/-- A request leaves a root that comes from the one before by turns, and deletes no key but the one
that it names for deletion. -/
theorem reached_answer {q : Request} {s : Surface} (now : Time.Instant)
    (hD : ∀ k, q.deletes? = some k → D k) (hs : Root.Reached D r s.root) :
    Root.Reached D r (s.answer now q).2.root := by
  rcases answer_snd_cases now q s with hrefused | ⟨methods, route, hpath, hroute, hanswer⟩
  · rwa [hrefused]
  rw [hanswer]
  obtain ⟨before, rest, rfl, -⟩ := List.lookup_eq_some_iff.1 hroute
  rcases reached_of_mem_routes hpath _ (List.mem_append_right _ List.mem_cons_self) with
    ⟨hcommands, hdelete⟩ | hkeeps
  · obtain ⟨hmethod, rfl⟩ := Prod.mk.inj hdelete
    refine reached_deleteCommand (fun hfields wire hwire ↦ hD _ ?_) hs
    have hq : q.method = "DELETE" := by
      split at hmethod
      · exact absurd hmethod (by decide)
      · exact hmethod
    simp only [Request.deletes?, hwire, Option.map_some]
    exact if_pos ⟨hq, hcommands, hfields⟩
  · exact hkeeps q s hs

/-- A request that is let in and names a key for deletion deletes it. -/
theorem root_answer_of_deletes? {q : Request} {s : Surface} {k : Key} (hlet : s.letsIn q = true)
    (hk : q.deletes? = some k) (now : Time.Instant) :
    (s.answer now q).2.root = s.root.delete k := by
  simp only [Request.deletes?] at hk
  split at hk
  swap
  · cases hk
  next hq =>
    obtain ⟨hmethod, hpath, hfields⟩ := hq
    obtain ⟨wire, hwire, rfl⟩ := Option.map_eq_some_iff.1 hk
    have hserve : s.answer now q = deleteCommand q s :=
      answer_of_route hlet (by rw [hpath]; rfl) (by rw [hmethod]; rfl) (by rw [hmethod]; decide)
    simp only [hserve, deleteCommand, withQuery, if_pos hfields, hwire, Root.delete]
    cases s.root.ledger.delete (.parse wire) with
    | ok d => rfl
    | error fault => rfl

end Surface

/-- Requests come to turns of the root, which delete only keys that one of the requests names for
deletion. -/
theorem exists_after_eq_after (s : Surface) (qs : List (Time.Instant × Request)) :
    ∃ ts : List Root.Turn, (s.after qs).root = s.root.after ts ∧
      ∀ k, .delete k ∈ ts → ∃ q ∈ qs, q.2.deletes? = some k := by
  have hall (ps : List (Time.Instant × Request)) (hps : ∀ p ∈ ps, p ∈ qs) (s' : Surface)
      (hs : Root.Reached (fun k ↦ ∃ q ∈ qs, q.2.deletes? = some k) s.root s'.root) :
      Root.Reached (fun k ↦ ∃ q ∈ qs, q.2.deletes? = some k) s.root (s'.after ps).root := by
    induction ps generalizing s' with
    | nil => exact hs
    | cons p ps ih =>
      refine ih (fun p' hp' ↦ hps p' (List.mem_cons_of_mem _ hp')) _ ?_
      exact Surface.reached_answer p.1 (fun k hk ↦ ⟨p, hps p List.mem_cons_self, hk⟩) hs
  exact hall qs (fun _ hp ↦ hp) s (.refl s.root)

end Http

end Switchyard
