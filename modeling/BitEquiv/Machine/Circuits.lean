import BitEquiv.Btor.Model
import BitEquiv.Machine.Terms

/-!
# Circuits on a machine

The lines of a model, with widths of 32 bits.
-/

namespace BitEquiv
namespace Machine

open Logic Run
open Btor (Circuit Line unaryName binaryName compareName)
open Btor.Circuit (expectWidth)

mutual

def addTerm (c : Circuit) : Term → Run SortError (Circuit × Nat × Nat)
  | .var x =>
      match c.names.get? x with
      | some (node, width) => .ok (c, node, width)
      | none => .error (.error (.unbound x))
  | .boolLit b =>
      let (c, n) := c.addConst b.toNat 1
      .ok (c, n, 1)
  | .bvLit bits w _ =>
      let (c, n) := c.addConst bits w
      .ok (c, n, w)
  | .not a => do
      let (c, n, w) ← addTerm c a
      let (c, n) := c.addNode "not" w [n]
      return (c, n, w)
  | .unary o a => do
      let (c, n, w) ← addTerm c a
      let (c, n) := c.addNode (unaryName o) w [n]
      return (c, n, w)
  | .and as => do
      let (c, n) ← addAll c "and" true none as
      return (c, n, 1)
  | .or as => do
      let (c, n) ← addAll c "or" false none as
      return (c, n, 1)
  | .xor a b => do
      let (c, m, v) ← addTerm c a
      let (c, n, w) ← addTerm c b
      of (expectWidth "xor" v 1)
      of (expectWidth "xor" w 1)
      let (c, n) := c.addNode "xor" 1 [m, n]
      return (c, n, 1)
  | .implies a b => do
      let (c, m, v) ← addTerm c a
      let (c, n, w) ← addTerm c b
      of (expectWidth "implies" v 1)
      of (expectWidth "implies" w 1)
      let (c, n) := c.addNode "implies" 1 [m, n]
      return (c, n, 1)
  | .eq a b => do
      let (c, m, v) ← addTerm c a
      let (c, n, w) ← addTerm c b
      of (expectWidth "eq" w v)
      let (c, n) := c.addNode "eq" 1 [m, n]
      return (c, n, 1)
  | .distinct a b => do
      let (c, m, v) ← addTerm c a
      let (c, n, w) ← addTerm c b
      of (expectWidth "neq" w v)
      let (c, n) := c.addNode "neq" 1 [m, n]
      return (c, n, 1)
  | .ite k a b => do
      let (c, l, u) ← addTerm c k
      of (expectWidth "ite" u 1)
      let (c, m, v) ← addTerm c a
      let (c, n, w) ← addTerm c b
      of (expectWidth "ite" w v)
      let (c, n) := c.addNode "ite" v [l, m, n]
      return (c, n, v)
  | .binary o a b => do
      let (c, m, v) ← addTerm c a
      let (c, n, w) ← addTerm c b
      of (expectWidth (binaryName o) w v)
      let (c, n) := c.addNode (binaryName o) v [m, n]
      return (c, n, v)
  | .compare o a b => do
      let (c, m, v) ← addTerm c a
      let (c, n, w) ← addTerm c b
      of (expectWidth (compareName o) w v)
      let (c, n) := c.addNode (compareName o) 1 [m, n]
      return (c, n, 1)
  | .extract hi lo a => do
      let (c, n, w) ← addTerm c a
      if lo ≤ hi ∧ hi < w then
        let width ← op (do add 32 (← sub hi lo) 1)
        let (c, n) := c.addNode "slice" width [n, hi, lo]
        return (c, n, width)
      else throw (.error (.sliceRange hi lo w))
  | .concat a b => do
      let (c, m, v) ← addTerm c a
      let (c, n, w) ← addTerm c b
      let width ← op (add 32 v w)
      let (c, n) := c.addNode "concat" width [m, n]
      return (c, n, width)
  | .zeroExtend k a => do
      let (c, n, w) ← addTerm c a
      let width ← op (add 32 w k)
      let (c, n) := c.addNode "uext" width [n, k]
      return (c, n, width)
  | .signExtend k a => do
      let (c, n, w) ← addTerm c a
      let width ← op (add 32 w k)
      let (c, n) := c.addNode "sext" width [n, k]
      return (c, n, width)

def addAll (c : Circuit) (op : String) (unit : Bool) (done : Option Nat) :
    List Term → Run SortError (Circuit × Nat)
  | [] =>
      match done with
      | some n => .ok (c, n)
      | none => .ok (c.addConst unit.toNat 1)
  | t :: ts => do
      let (c, n, w) ← addTerm c t
      of (expectWidth op w 1)
      match done with
      | none => addAll c op unit (some n) ts
      | some m =>
          let (c, n) := c.addNode op 1 [m, n]
          addAll c op unit (some n) ts

end

def addDefinitions (c : Circuit) : List Definition → Run SortError Circuit
  | [] => .ok c
  | d :: rest => do
      let (c, n, w) ← addTerm c d.term
      of (expectWidth d.name w d.sort.width)
      addDefinitions (c.bindName d.name n w) rest

def linesOf (q : Query) : Run SortError (List Line) := do
  let c := Circuit.empty.addInputs q.inputs
  let c ← addDefinitions c q.definitions
  let (c, n) ← addAll c "and" true none q.assertions
  return (c.push (.bad n)).lines.reverse

end Machine
end BitEquiv
