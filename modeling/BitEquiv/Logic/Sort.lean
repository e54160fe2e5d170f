import BitEquiv.Logic.Word
import BitEquiv.Text.Numeral

/-!
# Sorts

A value is a truth value or a word of a fixed width.
-/

namespace BitEquiv
namespace Logic

inductive BvSort where
  | bool
  | bitVec (width : Nat)
deriving DecidableEq

namespace BvSort

def width : BvSort → Nat
  | bool => 1
  | bitVec w => w

def isValid : BvSort → Bool
  | bool => true
  | bitVec w => 1 ≤ w && w ≤ maxWidth

def text : BvSort → String
  | bool => "bool"
  | bitVec w => "bv" ++ Text.decimal w

def ofText? (s : String) : Option BvSort :=
  match s.toList with
  | ['b', 'o', 'o', 'l'] => some bool
  | 'b' :: 'v' :: digits => (Text.natural? digits).map bitVec
  | _ => none

end BvSort
end Logic
end BitEquiv
