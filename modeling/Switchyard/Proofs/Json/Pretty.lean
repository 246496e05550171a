import Switchyard.Proofs.Json.Documents

/-!
# Values written on several lines

Line ends and the blanks after them stand between tokens and are passed over. So the text of a value
on several lines has the same tokens as the text without any blanks, and whatever reads the one
reads the other.

## Main results

* `Json.Token.ofText_pretty` : the tokens of the text on several lines.
* `Json.Reader.run_pretty` : what a reader makes of it.
-/

namespace Switchyard.Json

namespace Token

/-- The end of a line is passed over. -/
theorem scan_newLine (depth : Nat) (rest : List Char) :
    scan .between ((Value.newLine depth).toList ++ rest) = scan .between rest := by
  have hblanks (n : Nat) : scan .between (List.replicate n ' ' ++ rest) = scan .between rest := by
    induction n with
    | zero => rfl
    | succ n ih => simpa [List.replicate_succ, scan, start] using ih
  simpa [Value.newLine, scan, start] using hblanks (2 * depth)

theorem ends_newLine (depth : Nat) (rest : List Char) :
    Ends ((Value.newLine depth).toList ++ rest) := by
  rw [Value.newLine, String.toList_append, List.append_assoc]
  exact ends_lineFeed _

mutual

/-- A value is read back, whatever follows it. -/
theorem scan_pretty (depth : Nat) (v : Value) {rest : List Char} (h : Ends rest) :
    scan .between ((v.pretty depth).toList ++ rest) = v.tokens ++ scan .between rest := by
  match v with
  | .null | .bool _ | .int _ | .text _ | .array [] | .object [] => exact scan_render _ h
  | .array (v :: vs) =>
    have hitems := scan_prettyItems (depth + 1) (v :: vs) (ends_newLine depth (']' :: rest))
    rw [scan_newLine] at hitems
    simpa [Value.pretty, Value.tokens, scan, start, String.toList_append] using hitems
  | .object (f :: fs) =>
    have hfields := scan_prettyFields (depth + 1) (f :: fs) (ends_newLine depth ('\x7d' :: rest))
    rw [scan_newLine] at hfields
    simpa [Value.pretty, Value.tokens, scan, start, String.toList_append] using hfields

/-- The items of an array are read back. -/
theorem scan_prettyItems (depth : Nat) (vs : List Value) {rest : List Char} (h : Ends rest) :
    scan .between ((Value.prettyItems depth vs).toList ++ rest) =
      Value.itemTokens vs ++ scan .between rest := by
  match vs with
  | [] => simp [Value.prettyItems, Value.itemTokens]
  | [v] =>
    have hvalue := scan_pretty depth v h
    simp only [Value.prettyItems, Value.itemTokens, String.toList_append, List.append_assoc]
    rw [scan_newLine, hvalue]
  | v :: w :: vs =>
    have hhead := scan_pretty depth v
      (ends_comma ((Value.prettyItems depth (w :: vs)).toList ++ rest))
    have htail := scan_prettyItems depth (w :: vs) h
    simp only [Value.prettyItems, Value.itemTokens, String.toList_append, List.append_assoc]
    rw [scan_newLine]
    refine hhead.trans ?_
    simp [scan, start, htail]

/-- The members of an object are read back. -/
theorem scan_prettyFields (depth : Nat) (fs : List (String × Value)) {rest : List Char}
    (h : Ends rest) :
    scan .between ((Value.prettyFields depth fs).toList ++ rest) =
      Value.fieldTokens fs ++ scan .between rest := by
  match fs with
  | [] => simp [Value.prettyFields, Value.fieldTokens]
  | [(k, v)] =>
    have hvalue := scan_pretty depth v h
    simp only [Value.prettyFields, Value.fieldTokens, String.toList_append, List.append_assoc]
    rw [scan_newLine]
    refine (scan_quote k _).trans ?_
    simp [scan, start, hvalue]
  | (k, v) :: (l, w) :: fs =>
    have hvalue := scan_pretty depth v
      (ends_comma ((Value.prettyFields depth ((l, w) :: fs)).toList ++ rest))
    have htail := scan_prettyFields depth ((l, w) :: fs) h
    simp only [Value.prettyFields, Value.fieldTokens, String.toList_append, List.append_assoc]
    rw [scan_newLine]
    refine (scan_quote k _).trans ?_
    simp [scan, start, hvalue, htail]

end

/-- The tokens of the text on several lines. -/
theorem ofText_pretty (v : Value) : ofText (v.pretty 0) = v.tokens := by
  have h := scan_pretty 0 v ends_nil
  rwa [List.append_nil, scan, List.append_nil] at h

end Token

/-- What a reader makes of the text on several lines is what it makes of the value. -/
theorem Reader.run_pretty {α : Type} (r : Reader α) (v : Value) :
    r.run (v.pretty 0) = r.run v.render := by
  simp only [Reader.run, Document.ofText, Token.ofText_pretty, Token.ofText_render]

end Switchyard.Json
