import BitEquiv.Logic.Sort
import BitEquiv.Text.Assoc

/-!
# Values

A value carries its sort. A word is canonical when its bits are below the
modulus of its width; the constructors of this module give canonical words, and
an answer of a solver may hold others until it is cut to size.
-/

namespace BitEquiv
namespace Logic

inductive Value where
  | bool (b : Bool)
  | word (bits width : Nat)
deriving DecidableEq

namespace Value

def ofBits (bits width : Nat) : Value := word (Word.truncate width bits) width

def zero : BvSort → Value
  | .bool => bool false
  | .bitVec w => word 0 w

def ofRaw : BvSort → Nat → Value
  | .bool, raw => bool (raw % 2 == 1)
  | .bitVec w, raw => ofBits raw w

def sort : Value → BvSort
  | bool _ => .bool
  | word _ w => .bitVec w

def raw : Value → Nat
  | bool b => b.toNat
  | word bits _ => bits

def asBool : Value → Option Bool
  | bool b => some b
  | word .. => none

def canonical : Value → Value
  | bool b => bool b
  | word bits w => ofBits bits w

theorem lt_of_canonical {bits w : Nat} (h : (word bits w).canonical = word bits w) :
    bits < Word.modulus w := by
  have hbits : Word.truncate w bits = bits := (word.inj h).1
  rw [← hbits]
  exact Word.truncate_lt w bits

theorem canonical_ofRaw (s : BvSort) (n : Nat) : (ofRaw s n).canonical = ofRaw s n := by
  cases s with
  | bool => rfl
  | bitVec w => simp only [ofRaw, ofBits, canonical, Word.truncate, Nat.mod_mod]

def text : Value → String
  | bool b => if b then "true" else "false"
  | word bits w => Text.decimal bits ++ ":bv" ++ Text.decimal w

/-- A word as it is written, bits above its width included. -/
def wordOfText? (s : String) : Option Value :=
  match s.splitOn ":bv" with
  | [bits, width] => do
      let n ← Text.natural? bits.toList
      let w ← Text.natural? width.toList
      return word n w
  | _ => none

def ofText? (s : String) : Option Value :=
  if s = "true" then some (bool true)
  else if s = "false" then some (bool false)
  else (wordOfText? s).map canonical

end Value

abbrev Env := Assoc Value

/-- Values read from a solver's answer; a word may exceed its width. -/
abbrev Model := Assoc Value

/-- The assignment of a model, with every word cut to its width. -/
def Model.toEnv (m : Model) : Env := Assoc.mapValues Value.canonical m

end Logic
end BitEquiv
