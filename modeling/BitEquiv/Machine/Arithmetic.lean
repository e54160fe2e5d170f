import Mathlib.Algebra.Group.Nat.Defs
import BitEquiv.Logic.Eval
import BitEquiv.Text.Utf8

/-!
# Arithmetic of machine numbers

On a machine a number has a fixed count of bits. A sum or difference beyond the range of its
type, a shift by all bits or more, a division by zero and a slice beyond its bytes are faults.
Products, complements and the like wrap around by intent and have none.

The operations on words are written here as a machine runs them, with their guards and in
their order.
-/

namespace BitEquiv
namespace Machine

open Logic

inductive Fault where
  | sum
  | difference
  | shift
  | division
  | slice
deriving DecidableEq

/-!
## Operations of a machine
-/

/-- The sum of two numbers, as a number of `bits` bits. -/
def add (bits a b : Nat) : Except Fault Nat :=
  if a + b < 2 ^ bits then .ok (a + b) else .error .sum

def sub (a b : Nat) : Except Fault Nat :=
  if b ≤ a then .ok (a - b) else .error .difference

def shiftLeft (bits a k : Nat) : Except Fault Nat :=
  if k < bits then .ok ((a <<< k) % 2 ^ bits) else .error .shift

def shiftRight (bits a k : Nat) : Except Fault Nat :=
  if k < bits then .ok (a >>> k) else .error .shift

def shiftSigned (bits : Nat) (z : Int) (k : Nat) : Except Fault Int :=
  if k < bits then .ok (z >>> k) else .error .shift

def div (a b : Nat) : Except Fault Nat := if b = 0 then .error .division else .ok (a / b)

def rem (a b : Nat) : Except Fault Nat := if b = 0 then .error .division else .ok (a % b)

def slice (count : Nat) (buffer : Text.Bytes) : Except Fault Text.Bytes :=
  if count ≤ buffer.length then .ok (buffer.take count) else .error .slice

/-!
## Words

Numbers have 128 bits here.
-/

def mask (w : Nat) : Except Fault Nat :=
  if maxWidth ≤ w then .ok (2 ^ maxWidth - 1)
  else do
    let bit ← shiftLeft maxWidth 1 w
    sub bit 1

def msb (w s : Nat) : Except Fault Bool :=
  if 0 < w then do
    let top ← shiftRight maxWidth s (← sub w 1)
    return top &&& 1 == 1
  else .ok false

def toSigned (w s : Nat) : Except Fault Int :=
  if maxWidth ≤ w then .ok (Word.signed s)
  else do
    if ← msb w s then return Word.signed (s ||| Word.not maxWidth (← mask w))
    else return Word.signed s

def neg (w s : Nat) : Except Fault Nat := do return Word.neg maxWidth s &&& (← mask w)

def udiv (w s t : Nat) : Except Fault Nat := if t = 0 then mask w else div s t

def urem (s t : Nat) : Except Fault Nat := if t = 0 then .ok s else rem s t

/-- The operation on two words before the result is cut, with the mask of their width and
their highest bits. -/
def wide (w s t m : Nat) (ms mt : Bool) : BinaryOp → Except Fault Nat
  | .add => .ok (Word.add maxWidth s t)
  | .sub => .ok (Word.sub maxWidth s t)
  | .mul => .ok (Word.mul maxWidth s t)
  | .udiv => udiv w s t
  | .urem => urem s t
  | .sdiv =>
      match ms, mt with
      | false, false => udiv w s t
      | true, false => do neg w (← udiv w (← neg w s) t)
      | false, true => do neg w (← udiv w s (← neg w t))
      | true, true => do udiv w (← neg w s) (← neg w t)
  | .srem =>
      match ms, mt with
      | false, false => urem s t
      | true, false => do neg w (← urem (← neg w s) t)
      | false, true => do urem s (← neg w t)
      | true, true => do neg w (← urem (← neg w s) (← neg w t))
  | .and => .ok (s &&& t)
  | .or => .ok (s ||| t)
  | .xor => .ok (s ^^^ t)
  | .shl => if t < w then shiftLeft maxWidth s t else .ok 0
  | .lshr => if t < w then shiftRight maxWidth s t else .ok 0
  | .ashr =>
      if t < w then do
        return Word.ofInt maxWidth (← shiftSigned maxWidth (← toSigned w s) t)
      else .ok (if ms then m else 0)

def binary (w s t : Nat) (op : BinaryOp) : Except Fault Nat := do
  let m ← mask w
  let ms ← msb w s
  let mt ← msb w t
  return (← wide w s t m ms mt op) &&& m

def compare (w s t : Nat) (op : CompareOp) : Except Fault Bool := do
  let i ← toSigned w s
  let j ← toSigned w t
  return match op with
    | .ult => s < t
    | .ule => s ≤ t
    | .ugt => t < s
    | .uge => t ≤ s
    | .slt => i < j
    | .sle => i ≤ j
    | .sgt => j < i
    | .sge => j ≤ i

def ofBits (bits w : Nat) : Except Fault Value := do return .word (bits &&& (← mask w)) w

end Machine
end BitEquiv
