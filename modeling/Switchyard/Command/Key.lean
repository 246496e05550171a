import Switchyard.Text.Blank
import Switchyard.Text.Cut

/-!
# The key of a command

A command is known by its text and by the one client it is meant for, if it is meant for one. The
wire form puts an addressed client in front, as in `@client text`. Keys without a client come
before all others; then the client decides, then the text.
-/

namespace Switchyard

/-- What a command is known by. -/
structure Key where
  client : Option String
  text : String
  deriving Repr, DecidableEq, Inhabited

namespace Key

/-- The wire form. -/
def wire (k : Key) : String :=
  match k.client with
  | some client => "@" ++ client ++ " " ++ k.text
  | none => k.text

/-- The key of a text that names no client. -/
def plain (s : String) : Key := ⟨none, Text.trim s⟩

/-- Reads a wire form. A text that starts with `@`, a name and a space is addressed; blanks around
the command text do not belong to it. -/
def parse (s : String) : Key :=
  match s.toList with
  | '@' :: cs =>
    match Text.cutAt ' ' cs with
    | some (client, text) =>
      if client.isEmpty then plain s
      else ⟨some (String.ofList client), String.ofList (Text.trimChars text)⟩
    | none => plain s
  | _ => plain s

/-- Whether the wire form reads back as the key. -/
def isStable (k : Key) : Bool := parse k.wire == k

/-- Whether a client of the given name may run the command. -/
def isFor (k : Key) (name : String) : Bool :=
  match k.client with
  | some client => client == name
  | none => true

/-- The texts that decide the order of keys. -/
def rank (k : Key) : List (List String) := [k.client.toList, [k.text]]

theorem rank_inj {a b : Key} (h : a.rank = b.rank) : a = b := by
  obtain ⟨ca, ta⟩ := a
  obtain ⟨cb, tb⟩ := b
  simp only [rank, List.cons.injEq, and_true] at h
  obtain ⟨hc, ht⟩ := h
  cases ca <;> cases cb <;> simp_all

instance : LT Key := ⟨fun a b ↦ a.rank < b.rank⟩

instance : LE Key := ⟨fun a b ↦ ¬b < a⟩

instance : DecidableLT Key := fun a b ↦ inferInstanceAs (Decidable (a.rank < b.rank))

instance : Std.IsLinearOrder Key where
  le_refl a := List.le_refl a.rank
  le_trans _ _ _ h h' := List.le_trans h h'
  le_antisymm _ _ h h' := rank_inj (List.le_antisymm h h')
  le_total a b := List.le_total a.rank b.rank

instance : Std.LawfulOrderLT Key where
  lt_iff a b := ⟨fun h ↦ ⟨List.lt_asymm (show a.rank < b.rank from h), fun h' ↦ h' h⟩,
    fun h ↦ Decidable.not_not.1 h.2⟩

end Key

end Switchyard
