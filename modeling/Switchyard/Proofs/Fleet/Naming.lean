import Switchyard.Proofs.Fleet.Deletion
import Switchyard.Proofs.Handler.Outcomes
import Switchyard.Proofs.Http.Query

/-!
# Commands named by their wire forms

A command is deleted by its wire form, at the root by a request over HTTP and at a client by another
command. Both read a key from the text they are given, but not the same one. The request reads the
text as it stands. The command splits it into words first and reads the words with single spaces
between them, so it takes one key for another if there is more than one blank between two words: the
command that was named stays, and another one may be deleted in its place. Neither way leads to a
command whose key is not read back from its wire form. The request refuses the empty text.

## Main definitions

* `Key.spelled?` : the key that the words of a text spell.
* `Ledger.Reply` : how a command to delete a key is answered.
* `Http.Request.AsksToDelete` : a request that gives a text for deletion.
* `Fleet.InUse` : the fleets that requests over HTTP and the cycles of clients lead to.

## Main results

* `Http.Request.AsksToDelete.answer_eq` : what a request deletes.
* `Client.attempt_of_text` : what an attempt to delete a text leaves.
* `Fleet.wire_names_record` : when what is deleted is what was named.
-/

namespace Switchyard

open Text

/-! ### Keys and texts -/

namespace Key

theorem length_text_le (k : Key) : k.text.length ≤ k.wire.length := by
  rw [wire]
  split
  next => simp only [String.length_append]; omega
  next => exact le_rfl

/-- The key that the words of a text spell, if it has words. Blanks between them count as one
space. -/
def spelled? (text : String) : Option Key :=
  if words text = [] then none else some (parse (join " " (words text)))

end Key

namespace Command

variable {c : Command} {text : String}

theorem words_of_text (htext : c.text = "command delete " ++ text) :
    c.words = "command" :: "delete" :: Text.words text := by
  have hsplit : c.text.toList =
      "command".toList ++ ' ' :: ("delete".toList ++ ' ' :: text.toList) := by
    rw [htext, String.toList_append]
    rfl
  rw [Command.words, Text.words, hsplit, wordChars_append (by decide) (by decide) (by decide),
    wordChars_append (by decide) (by decide) (by decide), List.map_cons, List.map_cons]
  rfl

/-- A command to delete a text deletes the key that its words spell. -/
theorem deletes?_of_text (htext : c.text = "command delete " ++ text) :
    c.deletes? = Key.spelled? text := by
  rw [deletes?, words_of_text htext, Key.spelled?]
  cases Text.words text with
  | nil => rfl
  | cons word words => rfl

end Command

/-! ### Deleting at a client -/

/-- How a command is answered that is to delete a key, or does not say which. -/
inductive Ledger.Reply (l : Ledger) : Option Key → Command → Prop
  | unnamed {o : Command} (hstatus : o.status = .error "invalid command") : Reply l none o
  | missing {k : Key} {o : Command} (hk : l.get? k = none)
      (hstatus : o.status = .error (Fault.notFound .command k.wire).message) : Reply l (some k) o
  | deleted {k : Key} {o : Command} (hk : l.get? k ≠ none) (hstatus : o.status = .ok)
      (hresult : o.result = "deleted " ++ k.wire) : Reply l (some k) o

namespace Client

open Command Handler

variable {ω : Type} {n : Client ω} {p : Protocol ω} {own : Key} {c given : Command} {text : String}

/-- What the handler for the node itself answers at once is the outcome of the attempt. -/
theorem outcome?_of_adminVerbs (hc : n.ledger.get? own = some c) (hrun : c.status.isRunnable = true)
    (hgiven : c.attempted n.ledger.owner = some given) (hverb : given.verb ∈ adminVerbs)
    (now : Time.Instant) (p : Protocol ω) :
    n.outcome? (dispatch now p) own = some (admin given n).1 := by
  have hpending : (admin given n).1.status.isPending = false := by
    rcases (isAnswer_admin given n).status with hdone | ⟨-, hdevice⟩
    · exact Status.isPending_of_isTerminal hdone
    · have hdisjoint : ∀ verb ∈ adminVerbs, verb ∉ deviceVerbs := by decide
      exact absurd hdevice (hdisjoint _ hverb)
  rw [Node.outcome?_of_handOver (Node.beginning_eq_handOver_iff.2 ⟨c, hc, hrun, hgiven⟩),
    Node.fst_carryOut, run_of_adminVerbs hverb, settled_of_not_isPending hpending]

/-- The handler for the node itself answers for the key that the words spell. -/
theorem reply_admin (htext : c.text = "command delete " ++ text) (n : Client ω) :
    n.ledger.Reply (Key.spelled? text) (admin c n).1 := by
  have hwords := words_of_text htext
  have hdel := deletes?_of_text htext
  cases hw : Text.words text with
  | nil =>
    rw [hw] at hwords
    rw [Key.spelled?, if_pos hw, admin, hwords]
    exact .unnamed rfl
  | cons word rest =>
    rw [hw] at hwords
    rw [Key.spelled?, if_neg (by simp [hw]), hw, admin, hwords]
    simp only [deleteCommand, Ledger.delete]
    cases hd : n.ledger.get? (.parse (join " " (word :: rest))) with
    | none => exact .missing hd rfl
    | some d => exact .deleted (by simp [hd]) rfl rfl

/-- A command to delete a text is answered for the key that its words spell, and an attempt takes
this key out of the ledger and changes nothing else. -/
theorem attempt_of_text (hn : n.ledger.Keyed) (hc : n.ledger.get? own = some c)
    (hrun : c.status.isRunnable = true) (hcounts : c.tries < 2 ^ 32)
    (htext : c.text = "command delete " ++ text) (now : Time.Instant) (p : Protocol ω) :
    ∃ o, n.ledger.Reply (Key.spelled? text) o ∧ ∀ k',
      (n.attempt (dispatch now p) own).2.ledger.get? k' =
        if Key.spelled? text = some k' then none
        else if k' = own then some o else n.ledger.get? k' := by
  obtain ⟨given, hgiven⟩ := exists_attempted hcounts n.ledger.owner
  have hsame : given.text = "command delete " ++ text :=
    (congrArg Key.text (key_attempted hgiven)).trans htext
  have hverb : given.verb ∈ adminVerbs := by
    rw [verb_of_words (words_of_text hsame)]
    decide
  have ho := outcome?_of_adminVerbs hc hrun hgiven hverb now p
  obtain ⟨d, hd, -, hcomes⟩ := comes_of_outcome? hn ho
  obtain rfl := Option.some.inj (hc.symm.trans hd)
  refine ⟨_, reply_admin hsame n, fun k' ↦ ?_⟩
  rw [get?_attempt hn ho, deletes?_congr hcomes.text, deletes?_of_text htext]

/-- If the attempt cannot be counted, nothing is deleted. -/
theorem attempt_of_tries_eq (hc : n.ledger.get? own = some c) (hrun : c.status.isRunnable = true)
    (hfull : c.tries = 2 ^ 32) (d : Dispatch (Bench ω)) : n.attempt d own = (none, n) :=
  Node.attempt_of_overflow
    (Node.beginning_eq_overflow_iff.2 ⟨c, hc, hrun, attempted_eq_none_iff.2 hfull⟩)

/-- A command to delete what is named by a wire form is not that command itself. -/
theorem ne_of_text {k : Key} (hn : n.ledger.Keyed) (hc : n.ledger.get? own = some c)
    (htext : c.text = "command delete " ++ k.wire) : k ≠ own := by
  rintro rfl
  have hle : c.text.length ≤ k.wire.length := by
    rw [← hn k c hc]
    exact c.key.length_text_le
  have hpos : 0 < "command delete ".length := by decide
  rw [htext, String.length_append] at hle
  omega

/-- Such an attempt deletes the command named and no other exactly if the words of the wire form
spell its key and the attempt can be counted. -/
theorem attempt_names_iff {k : Key} (hn : n.ledger.Keyed) (hk : n.ledger.get? k ≠ none)
    (hc : n.ledger.get? own = some c) (hrun : c.status.isRunnable = true)
    (htext : c.text = "command delete " ++ k.wire) (now : Time.Instant) (p : Protocol ω) :
    (∀ k' ≠ own, (n.attempt (dispatch now p) own).2.ledger.get? k' =
      if k' = k then none else n.ledger.get? k') ↔
        c.tries < 2 ^ 32 ∧ Key.spelled? k.wire = some k := by
  have hne : k ≠ own := ne_of_text hn hc htext
  constructor
  · intro hnamed
    have hgone := hnamed k hne
    rw [if_pos rfl] at hgone
    rcases (show c.tries ≤ 2 ^ 32 by have := c.tries_le; have := c.retries.toNat_lt; omega).lt_or_eq
      with hcounts | hfull
    · obtain ⟨o, -, hafter⟩ := attempt_of_text hn hc hrun hcounts htext now p
      refine ⟨hcounts, ?_⟩
      by_contra hother
      rw [hafter, if_neg hother, if_neg hne] at hgone
      exact hk hgone
    · rw [attempt_of_tries_eq hc hrun hfull] at hgone
      exact absurd hgone hk
  · rintro ⟨hcounts, hspelled⟩ k' hk'
    obtain ⟨o, -, hafter⟩ := attempt_of_text hn hc hrun hcounts htext now p
    rw [hafter, hspelled, if_neg hk']
    simp only [Option.some.injEq, eq_comm (a := k)]

end Client

/-! ### Deleting at the root -/

namespace Http

/-- A request gives a text for deletion, and nothing else in its query. -/
structure Request.AsksToDelete (text : String) (q : Request) : Prop where
  method : q.method = "DELETE"
  path : q.path = "/api/v1/commands"
  fields : Query.fields q.query = [("cmd", text)]

variable {q : Request} {text : String} {s : Surface}

/-- Every text can be given for deletion. -/
theorem Request.asksToDelete_of_target (hmethod : q.method = "DELETE")
    (htarget : q.target.toList = "/api/v1/commands".toList ++ '?' :: Query.fieldText "cmd" text) :
    q.AsksToDelete text where
  method := hmethod
  path := path_of_field (by decide) (by decide) htarget
  fields := by rw [query_of_field (by decide) (by decide) htarget, Query.fields_fieldText]

theorem unambiguous_cmd (text : String) :
    Query.unambiguous Surface.commandFields [("cmd", text)] = true := rfl

/-- A request that gives a text for deletion deletes the key that is read from it, if it is there.
The empty text is refused. -/
theorem Request.AsksToDelete.answer_eq (h : q.AsksToDelete text) (hlet : s.letsIn q = true)
    (now : Time.Instant) : s.answer now q =
      if text = "" then (⟨400, .empty⟩, s)
      else if (s.root.ledger.get? (.parse text)).isSome then
        (.json (.object [("deleted", .text text)]), { s with root := s.root.delete (.parse text) })
      else (⟨404, .empty⟩, s) := by
  have hroute : s.answer now q = Surface.deleteCommand q s :=
    Surface.answer_of_route hlet (by rw [h.path]; rfl) (by rw [h.method]; rfl)
      (by rw [h.method]; decide)
  rw [hroute, Surface.deleteCommand, Surface.withQuery]
  simp only [h.fields, unambiguous_cmd, if_true]
  by_cases hne : text = ""
  · subst hne
    rfl
  · have hvalue : Query.value? "cmd" [("cmd", text)] = some text := by
      simp [Query.value?, Query.values, hne]
    rw [if_neg hne, hvalue]
    simp only [Root.delete, Ledger.delete]
    cases s.root.ledger.get? (.parse text) <;> rfl

/-- It deletes what the text names and nothing else exactly if the text is not empty and what it
names is read from it. -/
theorem Request.AsksToDelete.names_iff {k : Key} (h : q.AsksToDelete k.wire)
    (hlet : s.letsIn q = true) (hk : s.root.ledger.get? k ≠ none) (now : Time.Instant) :
    (∀ k', (s.answer now q).2.root.ledger.get? k' =
      if k' = k then none else s.root.ledger.get? k') ↔ k.wire ≠ "" ∧ Key.parse k.wire = k := by
  rw [h.answer_eq hlet now]
  constructor
  · intro hnamed
    have hgone := hnamed k
    rw [if_pos rfl] at hgone
    split_ifs at hgone with hempty hread
    · exact absurd hgone hk
    · rw [Root.get?_delete] at hgone
      refine ⟨hempty, ?_⟩
      by_contra hother
      rw [if_neg (Ne.symm hother)] at hgone
      exact hk hgone
    · exact absurd hgone hk
  · rintro ⟨hne, hread⟩ k'
    rw [if_neg hne, hread, if_pos (Option.isSome_iff_ne_none.2 hk), Root.get?_delete]

end Http

/-! ### Fleets -/

namespace Fleet

variable {ι ω : Type} [DecidableEq ι] {p : ι → Protocol ω} {v : Fleet ι ω}

/-- The fleets that requests over HTTP and the cycles of clients lead to. -/
inductive InUse (p : ι → Protocol ω) : Fleet ι ω → Prop
  | fresh {v : Fleet ι ω} (h : v.Fresh) : InUse p v
  | step {v : Fleet ι ω} (h : InUse p v) (e : Event ι ω) : InUse p (v.step p e)
  | request {v : Fleet ι ω} (h : InUse p v) (s : Http.Surface) (hs : s.root = v.root)
      (now : Time.Instant) (q : Http.Request) : InUse p { v with root := (s.answer now q).2.root }

theorem InUse.run (h : InUse p v) (es : List (Event ι ω)) : InUse p (run p es v) := by
  induction es generalizing v with
  | nil => exact h
  | cons e es ih => exact ih (h.step e)

theorem InUse.steady (h : InUse p v) : v.Steady := by
  induction h with
  | fresh h => exact h.orderly.steady
  | step _ e ih => exact ih.step e
  | request _ s hs now q ih =>
    obtain ⟨ts, hafter, -⟩ := Http.exists_after_eq_after s [(now, q)]
    rw [Http.Surface.after, Http.Surface.after, hs] at hafter
    exact ⟨hafter ▸ Root.keyed_after ih.root ts, ih.client⟩

/-- What is deleted by a text, in every fleet in use. A request to the root deletes the key that is
read from the text, and is refused if the text is empty. So it deletes the command named by its wire
form, and no other, exactly if the wire form is not empty and is read as the key. A command at a
client deletes the key that the words of the text spell, joined by single spaces. So it deletes the
command named by its wire form, and no other but for the record of its own, exactly if these words
spell the key. It does nothing at all if its attempt cannot be counted. -/
theorem wire_names_record (h : InUse p v) :
    (∀ (s : Http.Surface) text now (q : Http.Request), s.root = v.root → s.letsIn q = true →
      q.AsksToDelete text →
      s.answer now q =
        (if text = "" then (⟨400, .empty⟩, s)
        else if (v.root.ledger.get? (.parse text)).isSome then
          (.json (.object [("deleted", .text text)]), { s with root := s.root.delete (.parse text) })
        else (⟨404, .empty⟩, s)) ∧
      ∀ k, v.root.ledger.get? k ≠ none → text = k.wire →
        ((∀ k', (s.answer now q).2.root.ledger.get? k' =
          if k' = k then none else v.root.ledger.get? k') ↔ text ≠ "" ∧ Key.parse text = k)) ∧
    ∀ i own d text now, (v.client i).ledger.get? own = some d → d.status.isRunnable = true →
      d.text = "command delete " ++ text →
      let left := ((v.client i).attempt (Client.dispatch now (p i)) own).2.ledger
      (d.tries = 2 ^ 32 → left = (v.client i).ledger) ∧
      (d.tries < 2 ^ 32 → ∃ o, (v.client i).ledger.Reply (Key.spelled? text) o ∧
        ∀ k', left.get? k' = if Key.spelled? text = some k' then none
          else if k' = own then some o else (v.client i).ledger.get? k') ∧
      ∀ k, (v.client i).ledger.get? k ≠ none → text = k.wire → k ≠ own ∧
        ((∀ k' ≠ own, left.get? k' = if k' = k then none else (v.client i).ledger.get? k') ↔
          d.tries < 2 ^ 32 ∧ Key.spelled? text = some k) := by
  refine ⟨fun s text now q hs hlet hq ↦ ⟨hs ▸ hq.answer_eq hlet now, ?_⟩,
    fun i own d text now hd hrun htext ↦ ⟨fun hfull ↦ ?_, fun hcounts ↦ ?_, ?_⟩⟩
  · rintro k hk rfl
    rw [← hs] at hk ⊢
    exact hq.names_iff hlet hk now
  · rw [Client.attempt_of_tries_eq hd hrun hfull]
  · exact Client.attempt_of_text (h.steady.client i).keyed hd hrun hcounts htext now (p i)
  · rintro k hk rfl
    have hkeyed := (h.steady.client i).keyed
    exact ⟨Client.ne_of_text hkeyed hd htext,
      Client.attempt_names_iff hkeyed hk hd hrun htext now (p i)⟩

/-! ### A sweep and its deletion -/

/-- A request that gives a text for deletion, with a key. -/
def asking (text : String) : Http.Request where
  method := "DELETE"
  target := String.ofList ("/api/v1/commands".toList ++ '?' :: Http.Query.fieldText "cmd" text)
  key := some "k"

theorem asksToDelete_asking (text : String) : (asking text).AsksToDelete text :=
  Http.Request.asksToDelete_of_target rfl String.toList_ofList

/-- The root of a fleet as it is reached with the key. -/
def surface (v : Fleet Unit Unit) : Http.Surface := ⟨v.root, "k", default⟩

theorem root_surface (v : Fleet Unit Unit) : (surface v).root = v.root := rfl

/-- The one client has taken some commands that an operator gave, and is about to attempt them. -/
def taken (texts : List String) : Fleet Unit Unit :=
  run quiet (texts.map given ++ [.pull () true, .take ()]) single

theorem inUse_taken (texts : List String) : InUse quiet (taken texts) :=
  (InUse.fresh (fresh_start ..)).run _

/-- What stands at the one client under a plain key has its text. -/
theorem text_of_taken {texts : List String} {text : String} {c : Command}
    (hc : ((taken texts).client ()).ledger.get? ⟨none, text⟩ = some c) : c.text = text :=
  congrArg Key.text (((inUse_taken texts).steady.client ()).keyed _ c hc)

/-- Of two sweeps that differ in a blank, a request deletes the one that it names. A command deletes
the other one and leaves the one that it names. -/
theorem wire_names_record_of_sweeps :
    let v := taken ["scan gwd", "scan  gwd", "command delete scan  gwd"]
    let deletion : Key := ⟨none, "command delete scan  gwd"⟩
    let answer := (surface v).answer default (asking "scan  gwd")
    let left := ((v.client ()).attempt (Client.dispatch default (quiet ())) deletion).2.ledger
    (answer.2.root.ledger.get? ⟨none, "scan  gwd"⟩ = none ∧
      answer.2.root.ledger.get? ⟨none, "scan gwd"⟩ ≠ none) ∧
    left.get? ⟨none, "scan gwd"⟩ = none ∧ left.get? ⟨none, "scan  gwd"⟩ ≠ none := by
  intro v deletion answer left
  let named : Key := ⟨none, "scan  gwd"⟩
  let other : Key := ⟨none, "scan gwd"⟩
  obtain ⟨hrequest, hcommand⟩ :=
    wire_names_record (inUse_taken ["scan gwd", "scan  gwd", "command delete scan  gwd"])
  constructor
  · obtain ⟨-, hexact⟩ := hrequest (surface v) "scan  gwd" default (asking "scan  gwd")
      (root_surface v) (by decide +kernel) (asksToDelete_asking "scan  gwd")
    have hafter := (hexact named (by decide +kernel) rfl).2 (by decide)
    exact ⟨(hafter named).trans (if_pos rfl),
      fun hgone ↦ absurd ((hafter other).symm.trans hgone) (by decide +kernel)⟩
  · have hruns : ((v.client ()).ledger.get? deletion).any
        (fun d ↦ d.status.isRunnable && d.tries == 0) = true := by decide +kernel
    obtain ⟨d, hd, hrun⟩ := (Option.any_eq_true ..).1 hruns
    obtain ⟨hrun, htries⟩ := Bool.and_eq_true_iff.1 hrun
    have hcounts : d.tries < 2 ^ 32 := by rw [beq_iff_eq.1 htries]; decide
    obtain ⟨-, hafter, -⟩ := hcommand () deletion d "scan  gwd" default hd hrun (text_of_taken hd)
    obtain ⟨o, -, hleft⟩ := hafter hcounts
    have hspelled : Key.spelled? "scan  gwd" = some other := by decide
    have hkept : (v.client ()).ledger.get? named ≠ none := by decide +kernel
    rw [hspelled] at hleft
    constructor
    · rw [hleft, if_pos rfl]
    · rw [hleft, if_neg (by decide), if_neg (by decide)]
      exact hkept

end Fleet

end Switchyard
