import BitEquiv.Text.Numeral

/-!
# Bytes and characters

Text is stored as UTF-8. Reading goes byte by byte through the state of the
character that is under way; a byte that cannot continue it ends a malformed
piece and is looked at again as a first byte.
-/

namespace BitEquiv
namespace Text

abbrev Bytes := List UInt8

def encode (s : List Char) : Bytes := s.flatMap String.utf8EncodeChar

/-- A character whose first bytes have been read: how many bytes it still
needs, the bounds of the next one, and the bits read so far. -/
structure Pending where
  need : Nat
  low : Nat
  high : Nat
  bits : Nat

inductive FirstByte where
  | character (c : Char)
  | pending (p : Pending)
  | malformed

/-- Classify a byte at the start of a character. Overlong forms, surrogates and
code points above the last one are ruled out by the bounds of the second byte. -/
def firstByte (b : Nat) : FirstByte :=
  if b < 0x80 then .character (Char.ofNat b)
  else if 0xC2 ≤ b ∧ b ≤ 0xDF then .pending ⟨1, 0x80, 0xBF, b % 0x20⟩
  else if b = 0xE0 then .pending ⟨2, 0xA0, 0xBF, b % 0x10⟩
  else if b = 0xED then .pending ⟨2, 0x80, 0x9F, b % 0x10⟩
  else if 0xE1 ≤ b ∧ b ≤ 0xEF then .pending ⟨2, 0x80, 0xBF, b % 0x10⟩
  else if b = 0xF0 then .pending ⟨3, 0x90, 0xBF, b % 0x08⟩
  else if 0xF1 ≤ b ∧ b ≤ 0xF3 then .pending ⟨3, 0x80, 0xBF, b % 0x08⟩
  else if b = 0xF4 then .pending ⟨3, 0x80, 0x8F, b % 0x08⟩
  else .malformed

/-- The characters of a byte string in order; `none` stands for one malformed
piece, as long as it could have begun a character. -/
def pieces : Option Pending → Bytes → List (Option Char)
  | none, [] => []
  | some _, [] => [none]
  | none, b :: rest =>
      match firstByte b.toNat with
      | .character c => some c :: pieces none rest
      | .pending p => pieces (some p) rest
      | .malformed => none :: pieces none rest
  | some p, b :: rest =>
      if p.low ≤ b.toNat ∧ b.toNat ≤ p.high then
        let bits := p.bits * 0x40 + b.toNat % 0x40
        if p.need ≤ 1 then some (Char.ofNat bits) :: pieces none rest
        else pieces (some ⟨p.need - 1, 0x80, 0xBF, bits⟩) rest
      else
        match firstByte b.toNat with
        | .character c => none :: some c :: pieces none rest
        | .pending q => none :: pieces (some q) rest
        | .malformed => none :: none :: pieces none rest

def decode? (bytes : Bytes) : Option (List Char) := (pieces none bytes).mapM id

def decodeLossy (bytes : Bytes) : List Char :=
  (pieces none bytes).map fun piece => piece.getD '\uFFFD'

def hex (bytes : Bytes) : List Char :=
  bytes.flatMap fun b => [Nat.digitChar (b.toNat / 16), Nat.digitChar (b.toNat % 16)]

def unhex? : List Char → Option Bytes
  | [] => some []
  | [_] => none
  | high :: low :: rest => do
      let m ← digitValue high
      let n ← digitValue low
      let bytes ← unhex? rest
      return UInt8.ofNat (16 * m + n) :: bytes

end Text
end BitEquiv
