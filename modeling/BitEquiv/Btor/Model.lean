import BitEquiv.Logic.Query

/-!
# BTOR2 models

A query as a word-level circuit in the BTOR2 format. Truth values are words of
one bit. The inputs come first and in order, and the single bad state holds
exactly when all assertions do.

Every line defines the next identifier, counted from one. A sort has one line,
before the first node of its width.
-/

namespace BitEquiv
namespace Btor

open Logic

/-- The lines of a model without their identifiers, which are their positions
counted from one. -/
inductive Line where
  | sort (width : Nat)
  | input (sort : Nat) (name : String)
  | const (sort : Nat) (bits width : Nat)
  | node (op : String) (sort : Nat) (args : List Nat)
  | bad (node : Nat)
deriving DecidableEq

def Line.text (id : Nat) : Line → String
  | sort w => Text.decimal id ++ " sort bitvec " ++ Text.decimal w
  | input s name => Text.decimal id ++ " input " ++ Text.decimal s ++ " " ++ name
  | const s bits w =>
      Text.decimal id ++ " const " ++ Text.decimal s ++ " " ++ String.ofList (Text.padded 2 w bits)
  | node op s args =>
      Text.decimal id ++ " " ++ op ++ " " ++ Text.decimal s ++
        String.join (args.map fun a => " " ++ Text.decimal a)
  | bad n => Text.decimal id ++ " bad " ++ Text.decimal n

def unaryName : UnaryOp → String
  | .not => "not"
  | .neg => "neg"

def binaryName : BinaryOp → String
  | .add => "add"
  | .sub => "sub"
  | .mul => "mul"
  | .udiv => "udiv"
  | .urem => "urem"
  | .sdiv => "sdiv"
  | .srem => "srem"
  | .and => "and"
  | .or => "or"
  | .xor => "xor"
  | .shl => "sll"
  | .lshr => "srl"
  | .ashr => "sra"

def compareName : CompareOp → String
  | .ult => "ult"
  | .ule => "ulte"
  | .ugt => "ugt"
  | .uge => "ugte"
  | .slt => "slt"
  | .sle => "slte"
  | .sgt => "sgt"
  | .sge => "sgte"

/-- A circuit under construction: its lines, last first, the line of each sort,
and the node and width of each name. -/
structure Circuit where
  lines : List Line
  sorts : List (Nat × Nat)
  names : Assoc (Nat × Nat)

namespace Circuit

def empty : Circuit := ⟨[], [], []⟩

def size (c : Circuit) : Nat := c.lines.length

/-- Add a line; its identifier is the size afterwards. -/
def push (c : Circuit) (line : Line) : Circuit := { c with lines := line :: c.lines }

def withSort (c : Circuit) (width : Nat) : Circuit × Nat :=
  match c.sorts.lookup width with
  | some id => (c, id)
  | none =>
      let c := c.push (.sort width)
      ({ c with sorts := (width, c.size) :: c.sorts }, c.size)

def bindName (c : Circuit) (name : String) (node width : Nat) : Circuit :=
  { c with names := c.names.set name (node, width) }

def addInput (c : Circuit) (name : String) (width : Nat) : Circuit :=
  let (c, sort) := c.withSort width
  let c := c.push (.input sort name)
  c.bindName name c.size width

def addConst (c : Circuit) (bits width : Nat) : Circuit × Nat :=
  let (c, sort) := c.withSort width
  let c := c.push (.const sort bits width)
  (c, c.size)

/-- Add a node whose result has `width` bits; `args` are nodes or plain
numbers. -/
def addNode (c : Circuit) (op : String) (width : Nat) (args : List Nat) : Circuit × Nat :=
  let (c, sort) := c.withSort width
  let c := c.push (.node op sort args)
  (c, c.size)

def expectWidth (node : String) (found expected : Nat) : Except SortError Unit :=
  if found = expected then .ok () else .error (.nodeWidth node expected found)

mutual

def addTerm (c : Circuit) : Term → Except SortError (Circuit × Nat × Nat)
  | .var x =>
      match c.names.get? x with
      | some (node, width) => .ok (c, node, width)
      | none => .error (.unbound x)
  | .boolLit b =>
      let (c, n) := c.addConst b.toNat 1
      .ok (c, n, 1)
  | .bvLit bits w _ =>
      let (c, n) := c.addConst bits w
      .ok (c, n, w)
  | .not a => do
      let (c, n, w) ← addTerm c a
      let (c, n) := c.addNode "not" w [n]
      return (c, n, w)
  | .unary op a => do
      let (c, n, w) ← addTerm c a
      let (c, n) := c.addNode (unaryName op) w [n]
      return (c, n, w)
  | .and as => do
      let (c, n) ← addAll c "and" true none as
      return (c, n, 1)
  | .or as => do
      let (c, n) ← addAll c "or" false none as
      return (c, n, 1)
  | .xor a b => do
      let (c, m, v) ← addTerm c a
      let (c, n, w) ← addTerm c b
      expectWidth "xor" v 1
      expectWidth "xor" w 1
      let (c, n) := c.addNode "xor" 1 [m, n]
      return (c, n, 1)
  | .implies a b => do
      let (c, m, v) ← addTerm c a
      let (c, n, w) ← addTerm c b
      expectWidth "implies" v 1
      expectWidth "implies" w 1
      let (c, n) := c.addNode "implies" 1 [m, n]
      return (c, n, 1)
  | .eq a b => do
      let (c, m, v) ← addTerm c a
      let (c, n, w) ← addTerm c b
      expectWidth "eq" w v
      let (c, n) := c.addNode "eq" 1 [m, n]
      return (c, n, 1)
  | .distinct a b => do
      let (c, m, v) ← addTerm c a
      let (c, n, w) ← addTerm c b
      expectWidth "neq" w v
      let (c, n) := c.addNode "neq" 1 [m, n]
      return (c, n, 1)
  | .ite k a b => do
      let (c, l, u) ← addTerm c k
      expectWidth "ite" u 1
      let (c, m, v) ← addTerm c a
      let (c, n, w) ← addTerm c b
      expectWidth "ite" w v
      let (c, n) := c.addNode "ite" v [l, m, n]
      return (c, n, v)
  | .binary op a b => do
      let (c, m, v) ← addTerm c a
      let (c, n, w) ← addTerm c b
      expectWidth (binaryName op) w v
      let (c, n) := c.addNode (binaryName op) v [m, n]
      return (c, n, v)
  | .compare op a b => do
      let (c, m, v) ← addTerm c a
      let (c, n, w) ← addTerm c b
      expectWidth (compareName op) w v
      let (c, n) := c.addNode (compareName op) 1 [m, n]
      return (c, n, 1)
  | .extract hi lo a => do
      let (c, n, w) ← addTerm c a
      if lo ≤ hi ∧ hi < w then
        let (c, n) := c.addNode "slice" (hi - lo + 1) [n, hi, lo]
        return (c, n, hi - lo + 1)
      else throw (.sliceRange hi lo w)
  | .concat a b => do
      let (c, m, v) ← addTerm c a
      let (c, n, w) ← addTerm c b
      let (c, n) := c.addNode "concat" (v + w) [m, n]
      return (c, n, v + w)
  | .zeroExtend k a => do
      let (c, n, w) ← addTerm c a
      let (c, n) := c.addNode "uext" (w + k) [n, k]
      return (c, n, w + k)
  | .signExtend k a => do
      let (c, n, w) ← addTerm c a
      let (c, n) := c.addNode "sext" (w + k) [n, k]
      return (c, n, w + k)

/-- Add the nodes of a connective from left to right; `done` is the node of the
operands so far. Without operands the result is the constant `unit`. -/
def addAll (c : Circuit) (op : String) (unit : Bool) (done : Option Nat) :
    List Term → Except SortError (Circuit × Nat)
  | [] =>
      match done with
      | some n => .ok (c, n)
      | none => .ok (c.addConst unit.toNat 1)
  | t :: ts => do
      let (c, n, w) ← addTerm c t
      expectWidth op w 1
      match done with
      | none => addAll c op unit (some n) ts
      | some m =>
          let (c, n) := c.addNode op 1 [m, n]
          addAll c op unit (some n) ts

end

def addInputs (c : Circuit) : List (String × BvSort) → Circuit
  | [] => c
  | (name, sort) :: rest => addInputs (c.addInput name sort.width) rest

def addDefinitions (c : Circuit) : List Definition → Except SortError Circuit
  | [] => .ok c
  | d :: rest => do
      let (c, n, w) ← c.addTerm d.term
      expectWidth d.name w d.sort.width
      addDefinitions (c.bindName d.name n w) rest

end Circuit

def linesOf (q : Query) : Except SortError (List Line) := do
  let c := Circuit.empty.addInputs q.inputs
  let c ← c.addDefinitions q.definitions
  let (c, n) ← c.addAll "and" true none q.assertions
  return (c.push (.bad n)).lines.reverse

def writeLines : Nat → List Line → String
  | _, [] => ""
  | id, line :: rest => line.text id ++ "\n" ++ writeLines (id + 1) rest

def modelText (q : Query) : Except SortError String := do
  return writeLines 1 (← linesOf q)

end Btor
end BitEquiv
