/-!
# Bytes as text

The encoding is UTF-8. `decode?` refuses bytes that are no text; `decodeLossy` puts one replacement
character in the place of every maximal part that could not begin or continue a character.
-/

namespace Switchyard.Text.Utf8

/-- The bytes of a list of characters. -/
def encode (cs : List Char) : List UInt8 :=
  (String.ofList cs).toUTF8.toList

/-- A byte that continues a character and lies between the two bounds. -/
def continues (lo hi : Nat) (b : UInt8) : Bool :=
  lo ≤ b.toNat && b.toNat ≤ hi

/-- What stands at the front of a list of bytes: a character or an ill-formed part, with the
number of bytes beyond the first that belong to it. -/
inductive Front where
  | character (c : Char) (more : Nat)
  | illFormed (more : Nat)
  deriving Repr, DecidableEq

/-- The payload of a continuation byte. -/
def low6 (b : UInt8) : Nat := b.toNat % 64

/-- Reads the front of a list of bytes that begins with `b`. The second byte of a longer sequence
has a narrower range where the plain one would admit overlong forms, surrogates or numbers beyond
the last character. -/
def front (b : UInt8) (rest : List UInt8) : Front :=
  let n := b.toNat
  if n < 0x80 then .character (Char.ofNat n) 0
  else if 0xC2 ≤ n ∧ n ≤ 0xDF then
    match rest with
    | b₁ :: _ =>
      if continues 0x80 0xBF b₁ then .character (Char.ofNat ((n - 0xC0) * 64 + low6 b₁)) 1
      else .illFormed 0
    | [] => .illFormed 0
  else if 0xE0 ≤ n ∧ n ≤ 0xEF then
    let lo := if n = 0xE0 then 0xA0 else 0x80
    let hi := if n = 0xED then 0x9F else 0xBF
    match rest with
    | b₁ :: rest =>
      if continues lo hi b₁ then
        match rest with
        | b₂ :: _ =>
          if continues 0x80 0xBF b₂ then
            .character (Char.ofNat (((n - 0xE0) * 64 + low6 b₁) * 64 + low6 b₂)) 2
          else .illFormed 1
        | [] => .illFormed 1
      else .illFormed 0
    | [] => .illFormed 0
  else if 0xF0 ≤ n ∧ n ≤ 0xF4 then
    let lo := if n = 0xF0 then 0x90 else 0x80
    let hi := if n = 0xF4 then 0x8F else 0xBF
    match rest with
    | b₁ :: rest =>
      if continues lo hi b₁ then
        match rest with
        | b₂ :: rest =>
          if continues 0x80 0xBF b₂ then
            match rest with
            | b₃ :: _ =>
              if continues 0x80 0xBF b₃ then
                .character
                  (Char.ofNat ((((n - 0xF0) * 64 + low6 b₁) * 64 + low6 b₂) * 64 + low6 b₃)) 3
              else .illFormed 2
            | [] => .illFormed 2
          else .illFormed 1
        | [] => .illFormed 1
      else .illFormed 0
    | [] => .illFormed 0
  else .illFormed 0

/-- Decodes bytes, an ill-formed part becoming `none`. The number counts the bytes that still
belong to what was decoded last. -/
def decodeFrom : Nat → List UInt8 → List (Option Char)
  | _, [] => []
  | n + 1, _ :: rest => decodeFrom n rest
  | 0, b :: rest =>
    match front b rest with
    | .character c more => some c :: decodeFrom more rest
    | .illFormed more => none :: decodeFrom more rest

/-- The text that the bytes spell, if they are well-formed. -/
def decode? (bytes : List UInt8) : Option (List Char) :=
  (decodeFrom 0 bytes).mapM id

/-- The text that the bytes spell, with U+FFFD for every ill-formed part. -/
def decodeLossy (bytes : List UInt8) : List Char :=
  (decodeFrom 0 bytes).map fun c ↦ c.getD '\uFFFD'

end Switchyard.Text.Utf8
