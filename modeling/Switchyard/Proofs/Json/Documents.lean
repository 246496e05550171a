import Switchyard.Json.Reader
import Switchyard.Proofs.Json.Tokens

/-!
# The document of what is written

The text of a value is read as the document that has the members of the value in their order and is
closed throughout. Nothing is left over, so what a reader makes of the text is what it makes of that
document.

## Main definitions

* `Json.Value.document` : the document of a value.

## Main results

* `Json.Document.ofText_render` : the text of a value is read as its document.
* `Json.Reader.run_render` : what a reader makes of the text of a value.
-/

namespace Switchyard.Json

namespace Value

mutual

/-- The document of a value. -/
def document : Value → Document
  | .null => .constant .null
  | .bool b => .constant (if b then .true else .false)
  | .int n => .number (.ofInt n)
  | .text s => .string (.text s)
  | .array vs => .array (itemDocuments vs) true
  | .object fs => .object (fieldDocuments fs) true

/-- The documents of some values. -/
def itemDocuments : List Value → List Document
  | [] => []
  | v :: vs => v.document :: itemDocuments vs

/-- The documents of some members under their names. -/
def fieldDocuments : List (String × Value) → List (Spelling × Document)
  | [] => []
  | (k, v) :: fs => (.text k, v.document) :: fieldDocuments fs

end

@[simp] theorem itemDocuments_eq_map (vs : List Value) : itemDocuments vs = vs.map document := by
  induction vs with
  | nil => rfl
  | cons v vs ih => rw [itemDocuments, ih, List.map_cons]

@[simp] theorem fieldDocuments_eq_map (fs : List (String × Value)) :
    fieldDocuments fs = fs.map fun f ↦ (.text f.1, f.2.document) := by
  induction fs with
  | nil => rfl
  | cons f fs ih => rw [fieldDocuments, ih, List.map_cons]

end Value

namespace Document

/-- How reading goes on after a value that is complete: the value is the document, or it joins the
innermost array or object. -/
def settle (d : Document) : List Frame → List Token → Document × List Token
  | [], ts => (d, ts)
  | f :: fs, ts => build (f.add d :: fs) .commaOrEnd ts

/-- An item is read in the first place of an array as it is in any other. -/
theorem build_valueOrEnd (v : Value) (vs : List Value) (frames : List Frame) (ts : List Token) :
    build frames .valueOrEnd (Value.itemTokens (v :: vs) ++ ts) =
      build frames .value (Value.itemTokens (v :: vs) ++ ts) := by
  cases vs <;> cases v <;> simp [Value.itemTokens, Value.tokens, build]

/-- A member is read in the first place of an object as it is in any other. -/
theorem build_keyOrEnd (f : String × Value) (fs : List (String × Value)) (frames : List Frame)
    (ts : List Token) :
    build (.object [] none :: frames) .keyOrEnd (Value.fieldTokens (f :: fs) ++ ts) =
      build (.object [] none :: frames) .key (Value.fieldTokens (f :: fs) ++ ts) := by
  cases fs <;> simp [Value.fieldTokens, build]

mutual

/-- A value is read where one is due. -/
theorem build_tokens (v : Value) (frames : List Frame) (ts : List Token) :
    build frames .value (v.tokens ++ ts) = settle v.document frames ts := by
  match v with
  | .null | .bool _ | .int _ | .text _ => cases frames <;> rfl
  | .array [] => cases frames <;> rfl
  | .array (v :: vs) =>
    simp only [Value.tokens, build, List.append_assoc, List.cons_append]
    exact (build_valueOrEnd v vs _ _).trans (build_itemTokens (v :: vs) (by simp) [] frames ts)
  | .object [] => cases frames <;> rfl
  | .object (f :: fs) =>
    simp only [Value.tokens, build, List.append_assoc, List.cons_append]
    exact (build_keyOrEnd f fs _ _).trans (build_fieldTokens (f :: fs) (by simp) [] frames ts)

/-- Items are read up to the end of their array. -/
theorem build_itemTokens (vs : List Value) (hvs : vs ≠ []) (done : List Document)
    (frames : List Frame) (ts : List Token) :
    build (.array done :: frames) .value (Value.itemTokens vs ++ .closeArray :: ts) =
      settle (.array (done.reverse ++ Value.itemDocuments vs) true) frames ts := by
  match vs with
  | [v] =>
    have hvalue := build_tokens v (.array done :: frames) (.closeArray :: ts)
    refine hvalue.trans ?_
    cases frames <;> simp [settle, Frame.add, build, Frame.finish]
  | v :: w :: vs =>
    have hvalue := build_tokens v (.array done :: frames)
      (.comma :: Value.itemTokens (w :: vs) ++ .closeArray :: ts)
    have hrest := build_itemTokens (w :: vs) (by simp) (v.document :: done) frames ts
    simp only [Value.itemTokens, List.append_assoc]
    refine hvalue.trans ?_
    simpa [settle, Frame.add, build] using hrest

/-- Members are read up to the end of their object. -/
theorem build_fieldTokens (fs : List (String × Value)) (hfs : fs ≠ [])
    (done : List (Spelling × Document)) (frames : List Frame) (ts : List Token) :
    build (.object done none :: frames) .key (Value.fieldTokens fs ++ .closeObject :: ts) =
      settle (.object (done.reverse ++ Value.fieldDocuments fs) true) frames ts := by
  match fs with
  | [(k, v)] =>
    have hvalue := build_tokens v (.object done (some (.text k)) :: frames) (.closeObject :: ts)
    refine Eq.trans (by simp [Value.fieldTokens, build]) (hvalue.trans ?_)
    cases frames <;> simp [settle, Frame.add, build, Frame.finish]
  | (k, v) :: g :: fs =>
    have hvalue := build_tokens v (.object done (some (.text k)) :: frames)
      (.comma :: Value.fieldTokens (g :: fs) ++ .closeObject :: ts)
    have hrest := build_fieldTokens (g :: fs) (by simp) ((.text k, v.document) :: done) frames ts
    refine Eq.trans (by simp [Value.fieldTokens, build]) (hvalue.trans ?_)
    simpa [settle, Frame.add, build] using hrest

end

/-- The text of a value is read as its document, and nothing is left. -/
theorem ofText_render (v : Value) : ofText v.render = (v.document, []) := by
  have h := build_tokens v [] []
  rwa [List.append_nil, ← Token.ofText_render] at h

end Document

/-- What a reader makes of the text of a value. -/
theorem Reader.run_render {α : Type} (r : Reader α) (v : Value) :
    r.run v.render = r v.document := by
  simp only [Reader.run, Document.ofText_render, List.isEmpty_nil, if_true]
  cases r v.document <;> rfl

end Switchyard.Json
