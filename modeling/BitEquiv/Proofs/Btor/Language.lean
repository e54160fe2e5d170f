import Mathlib.Logic.Function.Basic
import BitEquiv.Btor.Model
import BitEquiv.Proofs.Logic.Denotation
import BitEquiv.Text.Blank

/-!
# The language of models

The part of the BTOR2 format that describes one step of a circuit without state. Each line
of a text is a row: an identifier and what it defines. The rows are run from the first to the
last at given input values, and a row that does not fit what the rows before it defined has
no result. Operators mean what the operations of the same kind on bit-vectors mean.
-/

namespace BitEquiv
namespace Btor

open Logic

/-!
## Nodes
-/

structure Bits where
  width : Nat
  vector : BitVec width
deriving DecidableEq

namespace Bits

def ofBool (b : Bool) : Bits := ⟨1, BitVec.ofBool b⟩

def bool? : Bits → Option Bool
  | ⟨1, x⟩ => some (x == 1#1)
  | _ => none

def onPair (f : (w : Nat) → BitVec w → BitVec w → Bits) : Bits → Bits → Option Bits
  | ⟨v, x⟩, ⟨w, y⟩ => if h : v = w then some (f w (x.cast h) y) else none

end Bits

def unaryOp? : String → Option UnaryOp
  | "not" => some .not
  | "neg" => some .neg
  | _ => none

def binaryOp? : String → Option BinaryOp
  | "add" => some .add
  | "sub" => some .sub
  | "mul" => some .mul
  | "udiv" => some .udiv
  | "urem" => some .urem
  | "sdiv" => some .sdiv
  | "srem" => some .srem
  | "and" => some .and
  | "or" => some .or
  | "xor" => some .xor
  | "sll" => some .shl
  | "srl" => some .lshr
  | "sra" => some .ashr
  | _ => none

def compareOp? : String → Option CompareOp
  | "ult" => some .ult
  | "ulte" => some .ule
  | "ugt" => some .ugt
  | "ugte" => some .uge
  | "slt" => some .slt
  | "slte" => some .sle
  | "sgt" => some .sgt
  | "sgte" => some .sge
  | _ => none

inductive Operation where
  | unary (op : UnaryOp)
  | binary (op : BinaryOp)
  | compare (op : CompareOp)
  | implies
  | eq
  | neq
  | ite
  | concat
  | slice
  | uext
  | sext

def operation? (op : String) : Option Operation :=
  match op with
  | "implies" => some .implies
  | "eq" => some .eq
  | "neq" => some .neq
  | "ite" => some .ite
  | "concat" => some .concat
  | "slice" => some .slice
  | "uext" => some .uext
  | "sext" => some .sext
  | _ =>
      ((unaryOp? op).map .unary).or (((binaryOp? op).map .binary).or ((compareOp? op).map .compare))

namespace Operation

/-- The result of an operation. Its arguments are nodes, and plain numbers after the node of a
slice or an extension. -/
def result? (nodes : Nat → Option Bits) : Operation → List Nat → Option Bits
  | unary o, [a] => do
      let x ← nodes a
      return ⟨x.width, o.denote x.vector⟩
  | binary o, [a, b] => do
      (← nodes a).onPair (fun w x y => ⟨w, o.denote x y⟩) (← nodes b)
  | compare o, [a, b] => do
      (← nodes a).onPair (fun _ x y => .ofBool (o.denote x y)) (← nodes b)
  | implies, [a, b] => do
      let p ← (← nodes a).bool?
      let q ← (← nodes b).bool?
      return .ofBool (!p || q)
  | eq, [a, b] => do
      (← nodes a).onPair (fun _ x y => .ofBool (x == y)) (← nodes b)
  | neq, [a, b] => do
      (← nodes a).onPair (fun _ x y => .ofBool (x != y)) (← nodes b)
  | ite, [c, a, b] => do
      let p ← (← nodes c).bool?
      let x ← nodes a
      let y ← nodes b
      if x.width = y.width then return (if p then x else y) else none
  | concat, [a, b] => do
      let x ← nodes a
      let y ← nodes b
      return ⟨x.width + y.width, x.vector ++ y.vector⟩
  | slice, [a, hi, lo] => do
      let x ← nodes a
      if lo ≤ hi ∧ hi < x.width then return ⟨hi - lo + 1, x.vector.extractLsb hi lo⟩ else none
  | uext, [a, k] => do
      let x ← nodes a
      return ⟨x.width + k, x.vector.zeroExtend (x.width + k)⟩
  | sext, [a, k] => do
      let x ← nodes a
      return ⟨x.width + k, x.vector.signExtend (x.width + k)⟩
  | _, _ => none

def operands : Operation → List Nat → List Nat
  | slice, args => args.take 1
  | uext, args => args.take 1
  | sext, args => args.take 1
  | _, args => args

end Operation

def result? (nodes : Nat → Option Bits) (op : String) (args : List Nat) : Option Bits := do
  (← operation? op).result? nodes args

/-!
## Running rows
-/

/-- What the rows so far have defined, the inputs they have declared, the values that are left
for further inputs, and the operands of bad states. -/
structure Run where
  sorts : Nat → Option Nat
  nodes : Nat → Option Bits
  inputs : List (String × Nat)
  pending : List Bits
  bad : List Bits

namespace Run

def start (values : List Bits) : Run := ⟨fun _ => none, fun _ => none, [], values, []⟩

def defineSort (r : Run) (id width : Nat) : Run :=
  { r with sorts := Function.update r.sorts id (some width) }

def defineNode (r : Run) (id : Nat) (x : Bits) : Run :=
  { r with nodes := Function.update r.nodes id (some x) }

end Run

/-- A row, if all it mentions has been defined and widths are as they must be. -/
def Line.step? (id : Nat) (r : Run) : Line → Option Run
  | sort w => if 0 < w then some (r.defineSort id w) else none
  | input s name => do
      let w ← r.sorts s
      let x ← r.pending.head?
      if x.width = w then
        return { r.defineNode id x with
          inputs := r.inputs ++ [(name, w)], pending := r.pending.tail }
      else none
  | const s bits width => do
      let w ← r.sorts s
      if width = w then return r.defineNode id ⟨w, BitVec.ofNat w bits⟩ else none
  | node op s args => do
      let w ← r.sorts s
      let x ← result? r.nodes op args
      if x.width = w then return r.defineNode id x else none
  | bad n => do
      let x ← r.nodes n
      if x.width = 1 then return { r with bad := r.bad ++ [x] } else none

abbrev Row := Nat × Line

def run? : List Row → Run → Option Run
  | [], r => some r
  | (id, line) :: rows, r => do run? rows (← line.step? id r)

def Line.mentions : Line → List Nat
  | sort _ => []
  | input s _ => [s]
  | const s _ _ => [s]
  | node op s args => s :: (operation? op).elim args (·.operands args)
  | bad n => [n]

/-!
## Reading text
-/

def code (line : List Char) : List String :=
  ((Text.words line).takeWhile (·.head? != some ';')).map String.ofList

def numeral? (word : String) : Option Nat := Text.natural? word.toList

/-- The line that words make up after the identifier. An input may go without a symbol, and
the count of digits of a constant is its width. -/
def Line.ofWords? : List String → Option Line
  | ["sort", "bitvec", width] => (numeral? width).map sort
  | ["input", s] => (numeral? s).map (input · "")
  | ["input", s, symbol] => (numeral? s).map (input · symbol)
  | ["const", s, digits] => do
      let id ← numeral? s
      let bits ← Text.ofDigits 2 0 digits.toList
      return const id bits digits.length
  | ["bad", n] => (numeral? n).map bad
  | op :: s :: arg :: args => do
      let id ← numeral? s
      let ns ← (arg :: args).mapM numeral?
      return node op id ns
  | _ => none

def row? (line : List Char) : Option Row :=
  match code line with
  | [] => none
  | id :: words => do
      let n ← numeral? id
      let l ← Line.ofWords? words
      return (n, l)

def read? (s : List Char) : Option (List Row) := (Text.lines s).mapM row?

end Btor
end BitEquiv
