import BitEquiv.Logic.Term

/-!
# Values of terms

Evaluation follows the standard semantics of the logic of words. Every operand
of a conjunction or disjunction is evaluated; an implication with a false left
side does not look at its right side, and a choice evaluates only the branch it
takes.
-/

namespace BitEquiv
namespace Logic

inductive EvalError where
  | unbound (name : String)
  | illSorted (op : String)
  | badExtract (hi lo width : Nat)
  | tooWide (width : Nat)
deriving DecidableEq

def EvalError.name : EvalError → String
  | unbound _ => "Unbound"
  | illSorted _ => "IllSorted"
  | badExtract .. => "BadExtract"
  | tooWide _ => "TooWide"

def EvalError.message : EvalError → String
  | unbound x => "unbound variable `" ++ x ++ "`"
  | illSorted op => "ill-sorted operands for `" ++ op ++ "`"
  | badExtract hi lo w =>
      "extract [" ++ Text.decimal hi ++ ":" ++ Text.decimal lo ++ "] out of range for bv"
        ++ Text.decimal w
  | tooWide w => "result width " ++ Text.decimal w ++ " exceeds 128 bits"

def UnaryOp.apply (width s : Nat) : UnaryOp → Nat
  | .not => Word.not width s
  | .neg => Word.neg width s

def BinaryOp.apply (width s t : Nat) : BinaryOp → Nat
  | .add => Word.add width s t
  | .sub => Word.sub width s t
  | .mul => Word.mul width s t
  | .udiv => Word.udiv width s t
  | .urem => Word.urem s t
  | .sdiv => Word.sdiv width s t
  | .srem => Word.srem width s t
  | .and => s &&& t
  | .or => s ||| t
  | .xor => s ^^^ t
  | .shl => Word.shl width s t
  | .lshr => Word.lshr width s t
  | .ashr => Word.ashr width s t

def CompareOp.apply (width s t : Nat) : CompareOp → Bool
  | .ult => s < t
  | .ule => s ≤ t
  | .ugt => t < s
  | .uge => t ≤ s
  | .slt => Word.toInt width s < Word.toInt width t
  | .sle => Word.toInt width s ≤ Word.toInt width t
  | .sgt => Word.toInt width t < Word.toInt width s
  | .sge => Word.toInt width t ≤ Word.toInt width s

namespace Value

def expectBool (op : String) : Value → Except EvalError Bool
  | bool b => .ok b
  | word .. => .error (.illSorted op)

def expectWord (op : String) : Value → Except EvalError (Nat × Nat)
  | bool _ => .error (.illSorted op)
  | word bits w => .ok (bits, w)

def expectWords (op : String) (l r : Value) : Except EvalError (Nat × Nat × Nat) := do
  let (s, v) ← l.expectWord op
  let (t, w) ← r.expectWord op
  if v = w then return (s, t, v) else throw (.illSorted op)

def equal (l r : Value) : Except EvalError Bool :=
  if l.sort = r.sort then .ok (l == r) else .error (.illSorted "=")

def widened (bits width : Nat) : Except EvalError Value :=
  if maxWidth < width then .error (.tooWide width) else .ok (ofBits bits width)

end Value

namespace Term

mutual

def eval (env : Env) : Term → Except EvalError Value
  | var x =>
      match env.get? x with
      | some v => .ok v
      | none => .error (.unbound x)
  | boolLit b => .ok (.bool b)
  | bvLit bits w _ => .ok (.ofBits bits w)
  | not a => do
      let b ← (← eval env a).expectBool "not"
      return .bool (!b)
  | and as => do
      let bs ← evalAll env "and" as
      return .bool (bs.all id)
  | or as => do
      let bs ← evalAll env "or" as
      return .bool (bs.any id)
  | xor a b => do
      let l ← (← eval env a).expectBool "xor"
      let r ← (← eval env b).expectBool "xor"
      return .bool (l != r)
  | implies a b => do
      let l ← (← eval env a).expectBool "=>"
      if l then
        let r ← (← eval env b).expectBool "=>"
        return .bool r
      else return .bool true
  | eq a b => do
      let l ← eval env a
      let r ← eval env b
      return .bool (← l.equal r)
  | distinct a b => do
      let l ← eval env a
      let r ← eval env b
      return .bool (!(← l.equal r))
  | ite c a b => do
      let t ← (← eval env c).expectBool "ite"
      if t then eval env a else eval env b
  | unary op a => do
      let (s, w) ← (← eval env a).expectWord op.name
      return .ofBits (op.apply w s) w
  | binary op a b => do
      let l ← eval env a
      let r ← eval env b
      let (s, t, w) ← l.expectWords op.name r
      return .ofBits (op.apply w s t) w
  | compare op a b => do
      let l ← eval env a
      let r ← eval env b
      let (s, t, w) ← l.expectWords op.name r
      return .bool (op.apply w s t)
  | extract hi lo a => do
      let (s, w) ← (← eval env a).expectWord "extract"
      if lo ≤ hi ∧ hi < w then return .ofBits (s >>> lo) (hi - lo + 1)
      else throw (.badExtract hi lo w)
  | concat a b => do
      let (h, v) ← (← eval env a).expectWord "concat"
      let (l, w) ← (← eval env b).expectWord "concat"
      Value.widened ((h <<< w) ||| l) (v + w)
  | zeroExtend k a => do
      let (s, w) ← (← eval env a).expectWord "zero_extend"
      Value.widened s (Word.extended w k)
  | signExtend k a => do
      let (s, w) ← (← eval env a).expectWord "sign_extend"
      let v := Word.extended w k
      Value.widened (Word.ofInt v (Word.toInt w s)) v

def evalAll (env : Env) (op : String) : List Term → Except EvalError (List Bool)
  | [] => .ok []
  | t :: ts => do
      let b ← (← eval env t).expectBool op
      let bs ← evalAll env op ts
      return b :: bs

end

end Term
end Logic
end BitEquiv
