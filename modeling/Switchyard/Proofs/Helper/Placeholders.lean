import Switchyard.Helper
import Switchyard.Proofs.Text.Replacing

/-!
# Placeholders of a template

A word of a template consists of plain characters and placeholders, and to fill it is to put for
each placeholder what the request has for it. A helper replaces one kind of placeholder after the
other, in all of the text that it has by then. So it fills the word as long as no placeholder
*arises*, that is, occurs in what was filled in without being one of the word. What arises is
replaced as well: a user by the name of a placeholder goes for what stands for this placeholder.

## Main definitions

* `Helper.Field` : what a template may ask for.
* `Helper.parts` : the plain characters and the placeholders of a word.
* `Helper.filled` : the text of a word in which some placeholders are filled.
* `Helper.Arises`, `Helper.Undisturbed` : whether placeholders arise, and whether it matters.

## Main results

* `Helper.replace_filled_eq_iff` : when one step fills the placeholders of one kind.
* `Helper.substitute_of_later` : what becomes of a value that is a placeholder itself.
* `Helper.filled_at_once` : when a helper is called with the filled words of its template.
-/

namespace Switchyard.Helper

/-- What a template may ask for. -/
inductive Field where
  | action
  | mac
  | ip
  | user
  | password
  | args
  deriving Repr, DecidableEq

namespace Field

/-- The fields in the order in which their placeholders are replaced. -/
def all : List Field := [.action, .mac, .ip, .user, .password, .args]

/-- The name of a field in a template. -/
def name : Field → String
  | .action => "action"
  | .mac => "mac"
  | .ip => "ip"
  | .user => "user"
  | .password => "pass"
  | .args => "args"

/-- What a request has in a field. -/
def value (r : Device.Request) : Field → String
  | .action => r.action
  | .mac => r.mac
  | .ip => r.ip
  | .user => r.user
  | .password => r.password
  | .args => r.args

/-- The characters of the placeholder. -/
def mark (f : Field) : List Char := (placeholder f.name).toList

variable {f g : Field}

theorem mem_all (f : Field) : f ∈ all := by cases f <;> decide

theorem nodup_all : all.Nodup := by decide

theorem mark_eq (f : Field) : f.mark = '\x7b' :: (f.name.toList ++ ['\x7d']) := by
  cases f <;> rfl

/-- A placeholder opens once. -/
theorem brace_not_mem (f : Field) : '\x7b' ∉ f.name.toList ++ ['\x7d'] := by cases f <;> decide

theorem brace_mem_mark (f : Field) : '\x7b' ∈ f.mark := by
  rw [mark_eq]
  exact List.mem_cons_self

/-- No placeholder contains another one. -/
theorem eq_of_mark_within (h : f.mark <:+: g.mark) : f = g := by
  revert h
  cases f <;> cases g <;> decide

/-- Nor do two of them overlap. -/
theorem eq_of_overlap {l : List Char} (hne : l ≠ []) (hfront : l <+: f.mark)
    (hsuffix : l <:+ g.mark) : f = g := by
  obtain ⟨c, l, rfl⟩ := List.exists_cons_of_ne_nil hne
  rw [mark_eq g] at hsuffix
  have hc : c = '\x7b' := by
    rw [mark_eq f] at hfront
    exact (List.cons_prefix_cons.1 hfront).1
  rcases List.suffix_cons_iff.1 hsuffix with hwhole | hinner
  · rw [hwhole, ← mark_eq g] at hfront
    exact (eq_of_mark_within hfront.isInfix).symm
  · subst hc
    exact absurd (hinner.subset List.mem_cons_self) (brace_not_mem g)

end Field

/-- A part of a word: a plain character or a placeholder. -/
inductive Part where
  | plain (c : Char)
  | field (f : Field)
  deriving Repr, DecidableEq

/-- The characters of a part when the placeholders of some fields are filled. -/
def Part.chars (r : Device.Request) (done : List Field) : Part → List Char
  | .plain c => [c]
  | .field f => if f ∈ done then (f.value r).toList else f.mark

/-- The text of some parts when the placeholders of some fields are filled. -/
def filled (r : Device.Request) (done : List Field) (ps : List Part) : List Char :=
  ps.flatMap (Part.chars r done)

/-- The parts of a text. The number counts the characters that still belong to the last
placeholder. -/
def partsFrom : Nat → List Char → List Part
  | _, [] => []
  | n + 1, _ :: cs => partsFrom n cs
  | 0, c :: cs =>
    match Field.all.find? fun f ↦ f.mark.isPrefixOf (c :: cs) with
    | some f => .field f :: partsFrom (f.mark.length - 1) cs
    | none => .plain c :: partsFrom 0 cs

/-- The parts of a word. -/
def parts (word : String) : List Part := partsFrom 0 word.toList

/-- A word with all its placeholders filled at once. -/
def simultaneous (r : Device.Request) (word : String) : String :=
  String.ofList (filled r Field.all (parts word))

/-- A text after the placeholders of some fields were replaced, one after the other. -/
def after (r : Device.Request) (done : List Field) (cs : List Char) : List Char :=
  done.foldl (fun cs f ↦ Text.replace f.mark (f.value r).toList cs) cs

/-- When the placeholders of some fields are filled, that of another one occurs in a stretch of a
word where the word does not have it. -/
def Arises (r : Device.Request) (done : List Field) (f : Field) (word : String) : Prop :=
  ∃ run, run <:+: parts word ∧ .field f ∉ run ∧ f.mark <:+: filled r done run

/-- No placeholder arises before it is replaced, unless it is replaced by itself. -/
def Undisturbed (r : Device.Request) (word : String) : Prop :=
  ∀ done f rest, Field.all = done ++ f :: rest → Arises r done f word →
    (f.value r).toList = f.mark

variable {r : Device.Request} {done rest mid : List Field} {f g : Field} {word : String}
  {ps run : List Part} {cs : List Char} {n : Nat}

/-! ### The parts of a word -/

theorem filled_append (r : Device.Request) (done : List Field) (ps qs : List Part) :
    filled r done (ps ++ qs) = filled r done ps ++ filled r done qs :=
  List.flatMap_append

/-- The parts of a text make up the text. -/
theorem filled_partsFrom (r : Device.Request) (n : Nat) (cs : List Char) :
    filled r [] (partsFrom n cs) = cs.drop n := by
  induction cs generalizing n with
  | nil => cases n <;> rfl
  | cons c cs ih =>
    cases n with
    | succ n => exact ih n
    | zero =>
      rw [partsFrom]
      split
      next f hf =>
        obtain ⟨tail, htail⟩ := List.isPrefixOf_iff_prefix.1 (List.find?_some hf :)
        rw [Field.mark_eq, List.cons_append] at htail
        obtain ⟨rfl, rfl⟩ := List.cons.inj htail
        calc filled r [] (.field f :: partsFrom (f.mark.length - 1) _)
            = f.mark ++ filled r [] (partsFrom (f.mark.length - 1) _) := rfl
          _ = f.mark ++ tail := by
            rw [ih, Field.mark_eq, List.length_cons, Nat.add_sub_cancel, List.drop_left]
          _ = _ := by rw [Field.mark_eq]; rfl
      next => exact congrArg (c :: ·) (ih 0)

/-- Where a plain character stands no placeholder begins. -/
theorem not_prefix_of_plain (r : Device.Request) {c : Char} {before behind : List Part}
    (h : partsFrom n cs = before ++ .plain c :: behind) (f : Field) :
    ¬f.mark <+: c :: filled r [] behind := by
  induction cs generalizing n before with
  | nil => cases n <;> simp [partsFrom] at h
  | cons d cs ih =>
    cases n with
    | succ n => exact ih h
    | zero =>
      rw [partsFrom] at h
      split at h
      next g hg =>
        cases before with
        | nil => cases h
        | cons p before => exact ih (List.cons.inj h).2
      next hnone =>
        cases before with
        | nil =>
          obtain ⟨hd, rfl⟩ := List.cons.inj h
          obtain rfl := Part.plain.inj hd
          rw [filled_partsFrom]
          exact fun hmark ↦ List.find?_eq_none.1 hnone f f.mem_all
            (List.isPrefixOf_iff_prefix.2 hmark)
        | cons p before => exact ih (List.cons.inj h).2

/-- A placeholder begins in some parts with a plain character or in a value that was filled in. -/
inductive Begins (r : Device.Request) (done : List Field) (f : Field) : List Part → Prop
  | plain {c : Char} {ps : List Part} (h : f.mark <+: c :: filled r done ps) :
      Begins r done f (.plain c :: ps)
  | value {g : Field} {ps : List Part} (hg : g ∈ done) (h : '\x7b' ∈ (g.value r).toList) :
      Begins r done f (.field g :: ps)
  | later {p : Part} {ps : List Part} (h : Begins r done f ps) : Begins r done f (p :: ps)

/-- A placeholder that occurs where the parts do not have it begins in one of these ways. -/
theorem begins_of_mark_within (hrun : .field f ∉ run) (h : f.mark <:+: filled r done run) :
    Begins r done f run := by
  induction run with
  | nil =>
    have hbrace := h.subset f.brace_mem_mark
    cases hbrace
  | cons p run ih =>
    rw [List.mem_cons, not_or] at hrun
    cases p with
    | plain c =>
      have hcons : filled r done (.plain c :: run) = c :: filled r done run := rfl
      rw [hcons, List.infix_cons_iff] at h
      rcases h with hhere | hlate
      · exact .plain hhere
      · exact .later (ih hrun.2 hlate)
    | field g =>
      have hsplit : filled r done (.field g :: run) =
          (Part.field g).chars r done ++ filled r done run := rfl
      rw [hsplit, List.infix_append_iff, Part.chars] at h
      rcases h with hin | hlate | ⟨l, l', hl, hsuffix, hfront⟩
      case inr.inl => exact .later (ih hrun.2 hlate)
      case inl =>
        split at hin
        next hg => exact .value hg (hin.subset f.brace_mem_mark)
        next => exact absurd (congrArg Part.field (Field.eq_of_mark_within hin)) hrun.1
      case inr.inr =>
        cases l with
        | nil =>
          rw [List.nil_append] at hl
          rw [← hl] at hfront
          exact .later (ih hrun.2 hfront.isInfix)
        | cons c l =>
          split at hsuffix
          next hg =>
            refine .value hg (hsuffix.subset ?_)
            rw [Field.mark_eq, List.cons_append] at hl
            rw [(List.cons.inj hl).1]
            exact List.mem_cons_self
          next =>
            have hfg := Field.eq_of_overlap (List.cons_ne_nil c l) ⟨l', hl.symm⟩ hsuffix
            exact absurd (congrArg Part.field hfg) hrun.1

theorem Begins.exists_plain (h : Begins r [] f ps) : ∃ before c behind,
    ps = before ++ .plain c :: behind ∧ f.mark <+: c :: filled r [] behind := by
  induction h with
  | @plain c ps h => exact ⟨[], c, ps, rfl, h⟩
  | value hg => cases hg
  | later _ ih =>
    obtain ⟨before, c, behind, rfl, h⟩ := ih
    exact ⟨_ :: before, c, behind, rfl, h⟩

theorem Begins.brace (h : Begins r done f ps) :
    .plain '\x7b' ∈ ps ∨ ∃ g ∈ done, '\x7b' ∈ (g.value r).toList := by
  induction h with
  | plain h =>
    rw [Field.mark_eq] at h
    rw [← (List.cons_prefix_cons.1 h).1]
    exact .inl List.mem_cons_self
  | value hg h => exact .inr ⟨_, hg, h⟩
  | later _ ih => exact ih.imp_left (List.mem_cons_of_mem _)

/-- Nothing arises in a word as it is: all placeholders in it are parts of it. -/
theorem not_arises_nil (r : Device.Request) (f : Field) (word : String) : ¬Arises r [] f word := by
  rintro ⟨run, ⟨pre, post, hparts⟩, hrun, h⟩
  obtain ⟨before, c, behind, rfl, hmark⟩ := (begins_of_mark_within hrun h).exists_plain
  have hword : partsFrom 0 word.toList = (pre ++ before) ++ .plain c :: (behind ++ post) := by
    rw [← parts, ← hparts]
    simp
  refine not_prefix_of_plain r hword f ?_
  rw [filled_append]
  exact hmark.trans (List.prefix_append (c :: filled r [] behind) _)

/-- Nothing arises where neither the word has a stray brace nor a value has any. -/
theorem undisturbed_of_forall (hword : .plain '\x7b' ∉ parts word)
    (hvalues : ∀ f, '\x7b' ∉ (Field.value r f).toList) : Undisturbed r word := by
  rintro done f rest - ⟨run, hparts, hrun, h⟩
  rcases (begins_of_mark_within hrun h).brace with hplain | ⟨g, -, hg⟩
  · exact absurd (hparts.subset hplain) hword
  · exact absurd hg (hvalues g)

/-! ### One placeholder after the other -/

/-- Parts without placeholders of a field are the same text when this field is filled. -/
theorem filled_of_not_mem (hps : .field f ∉ ps) :
    filled r (done ++ [f]) ps = filled r done ps := by
  refine List.flatMap_congr fun p hp ↦ ?_
  cases p with
  | plain c => rfl
  | field g =>
    have hne : g ≠ f := fun hg ↦ hps (hg ▸ hp)
    simp [Part.chars, hne]

theorem filled_within (h : run <:+: ps) : filled r done run <:+: filled r done ps := by
  obtain ⟨pre, post, rfl⟩ := h
  rw [filled_append, filled_append]
  exact ⟨_, _, rfl⟩

/-- Replacing the placeholders of one field fills them, and does no more, exactly if no other one
arises or the value is the placeholder. -/
theorem replace_filled_eq_iff (hf : f ∉ done) (ps : List Part) :
    Text.replace f.mark (f.value r).toList (filled r done ps) = filled r (done ++ [f]) ps ↔
      ∀ run, run <:+: ps → .field f ∉ run → f.mark <:+: filled r done run →
        (f.value r).toList = f.mark := by
  obtain ⟨runs, -, hruns, rfl⟩ := Text.exists_runs (.field f) ps
  have hbefore : filled r done ([.field f].intercalate runs) =
      f.mark.intercalate (runs.map (filled r done)) := by
    have hmark : [Part.field f].flatMap (Part.chars r done) = f.mark := by
      simp [Part.chars, hf]
    rw [filled, Text.flatMap_intercalate, hmark]
    rfl
  have hafter : filled r (done ++ [f]) ([.field f].intercalate runs) =
      (f.value r).toList.intercalate (runs.map (filled r done)) := by
    have hvalue : [Part.field f].flatMap (Part.chars r (done ++ [f])) = (f.value r).toList := by
      simp [Part.chars]
    rw [filled, Text.flatMap_intercalate, hvalue]
    exact congrArg _ (List.map_congr_left fun run hrun ↦ filled_of_not_mem (hruns run hrun))
  rw [hbefore, hafter, Field.mark_eq, Text.replace_intercalate_eq_iff f.brace_not_mem,
    ← Field.mark_eq, List.forall_mem_map]
  have hne {run : List Part} (h : f.mark <:+: filled r done run) : run ≠ [] := by
    rintro rfl
    have hbrace := h.subset f.brace_mem_mark
    cases hbrace
  constructor
  · intro h run hrun hf' hmark
    obtain ⟨whole, hwhole, hin⟩ := (Text.infix_intercalate_iff hf' (hne hmark)).1 hrun
    exact h whole hwhole (hmark.trans (filled_within hin))
  · intro h run hrun hmark
    refine h run ?_ (hruns run hrun) hmark
    exact (Text.infix_intercalate_iff (hruns run hrun) (hne hmark)).2
      ⟨run, hrun, List.infix_rfl⟩

theorem after_append (r : Device.Request) (done rest : List Field) (cs : List Char) :
    after r (done ++ rest) cs = after r rest (after r done cs) :=
  List.foldl_append

theorem toList_substitute (r : Device.Request) (word : String) :
    (substitute r word).toList = after r Field.all word.toList :=
  String.toList_ofList

/-- A text in which no placeholder of some fields occurs stays as it is when they are replaced. -/
theorem after_of_forall (h : ∀ f ∈ rest, ¬f.mark <:+: cs) : after r rest cs = cs := by
  induction rest with
  | nil => rfl
  | cons f rest ih =>
    obtain ⟨hf, hrest⟩ := List.forall_mem_cons.1 h
    rw [after, List.foldl_cons, Text.replace_of_not_within hf]
    exact ih hrest

theorem not_mem_of_all_eq (h : Field.all = done ++ f :: rest) : f ∉ done := by
  have hnodup := Field.nodup_all
  rw [h, List.nodup_append] at hnodup
  exact fun hf ↦ hnodup.2.2 f hf f List.mem_cons_self rfl

/-- The text is filled after every step exactly if nothing that arises is replaced by something
else. -/
theorem forall_after_eq_iff (r : Device.Request) (word : String) :
    (∀ done rest, Field.all = done ++ rest →
      after r done word.toList = filled r done (parts word)) ↔ Undisturbed r word := by
  constructor
  · rintro h done f rest hall ⟨run, hrun, hf, hmark⟩
    have hbefore := h done (f :: rest) hall
    have hafter := h (done ++ [f]) rest (by rw [hall, List.append_assoc, List.singleton_append])
    rw [after_append, hbefore] at hafter
    exact (replace_filled_eq_iff (not_mem_of_all_eq hall) _).1 hafter run hrun hf hmark
  · intro h done
    induction done using List.reverseRecOn with
    | nil => exact fun _ _ ↦ (filled_partsFrom r 0 word.toList).symm
    | append_singleton done f ih =>
      intro rest hall
      rw [List.append_assoc, List.singleton_append] at hall
      rw [after_append, ih (f :: rest) hall]
      exact (replace_filled_eq_iff (not_mem_of_all_eq hall) _).2 fun run hrun hf hmark ↦
        h done f rest hall ⟨run, hrun, hf, hmark⟩

theorem substitute_of_undisturbed (h : Undisturbed r word) :
    substitute r word = simultaneous r word := by
  have hafter := (forall_after_eq_iff r word).2 h Field.all [] (List.append_nil _).symm
  rw [simultaneous, ← hafter, ← toList_substitute, String.ofList_toList]

/-- The placeholder of a field is left by what is done for other fields. -/
theorem after_mark (h : f ∉ done) : after r done f.mark = f.mark :=
  after_of_forall fun _ hg hmark ↦ h (Field.eq_of_mark_within hmark ▸ hg)

theorem replace_mark (f : Field) (value : List Char) : Text.replace f.mark value f.mark = value := by
  have h := Text.replace_append f.brace_not_mem value [] []
  rw [← Field.mark_eq] at h
  simpa [Text.replace, Text.replaceFrom] using h

/-- A value that is the placeholder of a later field goes for the value of this field. -/
theorem substitute_of_later (hall : Field.all = done ++ f :: (mid ++ g :: rest))
    (hf : f.value r = placeholder g.name) (hg : ∀ h ∈ rest, ¬h.mark <:+: (g.value r).toList) :
    substitute r (placeholder f.name) = g.value r := by
  have hfdone : f ∉ done := not_mem_of_all_eq hall
  have hgmid : g ∉ mid := fun hmem ↦ by
    have hall' : Field.all = (done ++ f :: mid) ++ g :: rest := by rw [hall]; simp
    exact not_mem_of_all_eq hall' (List.mem_append_right _ (List.mem_cons_of_mem f hmem))
  have hvalue : (f.value r).toList = g.mark := by rw [hf, Field.mark]
  refine String.toList_inj.1 ?_
  calc (substitute r (placeholder f.name)).toList
      = after r (f :: (mid ++ g :: rest)) (after r done f.mark) := by
        rw [toList_substitute, hall, after_append, Field.mark]
    _ = after r (mid ++ g :: rest) (Text.replace f.mark g.mark f.mark) := by
        rw [after_mark hfdone, ← hvalue]
        rfl
    _ = after r (g :: rest) (after r mid g.mark) := by rw [replace_mark, after_append]
    _ = after r rest (Text.replace g.mark (g.value r).toList g.mark) := by
        rw [after_mark hgmid]
        rfl
    _ = (g.value r).toList := by rw [replace_mark, after_of_forall hg]

theorem simultaneous_placeholder (r : Device.Request) (f : Field) :
    simultaneous r (placeholder f.name) = f.value r := by
  have hparts : parts (placeholder f.name) = [.field f] := by cases f <;> decide
  rw [simultaneous, hparts]
  simp [filled, Part.chars, f.mem_all]

/-- When a helper is called, a bare placeholder of the arguments becomes as many arguments as there
are words in them, and every other word becomes one. After every step this one is the word with the
placeholders filled so far, exactly if none arises before it is replaced, but for one that is its
own value; and then in the end all placeholders of the word have become their values, and nothing
else has changed. Nothing arises in a word as it is, and nothing at all if neither the word has a
stray brace nor a value has any. But where the value of a placeholder is a later one, it has become
the value of the later one. -/
theorem filled_at_once (r : Device.Request) :
    (∀ word, filled r [] (parts word) = word.toList ∧ ∀ f, ¬Arises r [] f word) ∧
    (∀ word, (∀ done rest, Field.all = done ++ rest →
      after r done word.toList = filled r done (parts word)) ↔ Undisturbed r word) ∧
    (∀ word, Undisturbed r word → substitute r word = simultaneous r word) ∧
    (∀ word, .plain '\x7b' ∉ parts word → (∀ f, '\x7b' ∉ (Field.value r f).toList) →
      Undisturbed r word) ∧
    (∀ done f mid g rest, Field.all = done ++ f :: (mid ++ g :: rest) →
      Field.value r f = placeholder g.name →
      (∀ h ∈ rest, ¬h.mark <:+: (Field.value r g).toList) →
      simultaneous r (placeholder f.name) = Field.value r f ∧
        substitute r (placeholder f.name) = Field.value r g) ∧
    ∀ h : Helper,
      (h.commandLine r = h.template.flatMap fun word ↦
        if word = placeholder "args" then Text.words r.args else [substitute r word]) ∧
      ((∀ word ∈ h.template, word ≠ placeholder "args" → Undisturbed r word) →
        h.commandLine r = h.template.flatMap fun word ↦
          if word = placeholder "args" then Text.words r.args else [simultaneous r word]) := by
  refine ⟨fun word ↦ ⟨filled_partsFrom r 0 _, fun f ↦ not_arises_nil r f word⟩,
    forall_after_eq_iff r, fun _ ↦ substitute_of_undisturbed, fun _ ↦ undisturbed_of_forall,
    fun _ f _ _ _ hall hf hg ↦ ⟨simultaneous_placeholder r f, substitute_of_later hall hf hg⟩,
    fun h ↦ ⟨rfl, fun hwords ↦ ?_⟩⟩
  refine List.flatMap_congr fun word hword ↦ ?_
  rw [expand]
  split
  next => rfl
  next hne => rw [substitute_of_undisturbed (hwords word hword hne)]

/-- A request to switch something. -/
def switching : Device.Request :=
  { action := "switch", mac := "00-60-E9-00-00-01", ip := "192.168.1.5", user := "admin",
    password := "two words", args := "show ip" }

/-- A request by a user who is called like the placeholder of the password. -/
def curious : Device.Request := { switching with user := placeholder "pass" }

/-- The template of a helper that asks for most of a request. -/
def fleetctl : Helper :=
  ⟨["fleetctl", placeholder "action", "--target=" ++ placeholder "ip", "-p", placeholder "pass",
    placeholder "args"], 1000⟩

/-- A password of two words is one argument, and each word of the arguments is one. -/
theorem filled_at_once_of_switching : fleetctl.commandLine switching =
      ["fleetctl", "switch", "--target=192.168.1.5", "-p", "two words", "show", "ip"] ∧
    substitute curious (placeholder "user") = "two words" := by
  constructor
  · obtain ⟨-, -, -, hplain, -, hline⟩ := filled_at_once switching
    have hvalues : ∀ f, '\x7b' ∉ (Field.value switching f).toList := by
      intro f
      cases f <;> decide
    have hwords : ∀ word ∈ fleetctl.template, .plain '\x7b' ∉ parts word := by decide +kernel
    rw [(hline fleetctl).2 fun word hword _ ↦ hplain word (hwords word hword) hvalues]
    decide +kernel
  · obtain ⟨-, -, -, -, hlater, -⟩ := filled_at_once curious
    refine (hlater [.action, .mac, .ip] .user [] .password [.args] rfl rfl ?_).2
    decide +kernel

end Switchyard.Helper
