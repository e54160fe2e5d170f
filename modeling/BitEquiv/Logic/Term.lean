import BitEquiv.Logic.Value

/-!
# Terms

Terms of the quantifier-free logic of words. A conjunction or disjunction takes
any number of operands. A literal has no bit beyond its width. Nothing in the type
keeps a term well sorted; the sort checker of the next module does.
-/

namespace BitEquiv
namespace Logic

inductive UnaryOp where
  | not
  | neg
deriving DecidableEq

/-- Operators on two words of one width, with a result of that width. -/
inductive BinaryOp where
  | add | sub | mul | udiv | urem | sdiv | srem | and | or | xor | shl | lshr | ashr
deriving DecidableEq

/-- Order of two words of one width, unsigned and signed. -/
inductive CompareOp where
  | ult | ule | ugt | uge | slt | sle | sgt | sge
deriving DecidableEq

def UnaryOp.name : UnaryOp → String
  | .not => "bvnot"
  | .neg => "bvneg"

def BinaryOp.name : BinaryOp → String
  | .add => "bvadd"
  | .sub => "bvsub"
  | .mul => "bvmul"
  | .udiv => "bvudiv"
  | .urem => "bvurem"
  | .sdiv => "bvsdiv"
  | .srem => "bvsrem"
  | .and => "bvand"
  | .or => "bvor"
  | .xor => "bvxor"
  | .shl => "bvshl"
  | .lshr => "bvlshr"
  | .ashr => "bvashr"

def CompareOp.name : CompareOp → String
  | .ult => "bvult"
  | .ule => "bvule"
  | .ugt => "bvugt"
  | .uge => "bvuge"
  | .slt => "bvslt"
  | .sle => "bvsle"
  | .sgt => "bvsgt"
  | .sge => "bvsge"

def UnaryOp.all : List UnaryOp := [.not, .neg]

def BinaryOp.all : List BinaryOp :=
  [.add, .sub, .mul, .udiv, .urem, .sdiv, .srem, .and, .or, .xor, .shl, .lshr, .ashr]

def CompareOp.all : List CompareOp := [.ult, .ule, .ugt, .uge, .slt, .sle, .sgt, .sge]

inductive Term where
  | var (name : String)
  | boolLit (b : Bool)
  | bvLit (bits width : Nat) (fits : bits < Word.modulus width := by decide)
  | not (arg : Term)
  | and (args : List Term)
  | or (args : List Term)
  | xor (lhs rhs : Term)
  | implies (lhs rhs : Term)
  | eq (lhs rhs : Term)
  | distinct (lhs rhs : Term)
  | ite (cond yes no : Term)
  | unary (op : UnaryOp) (arg : Term)
  | binary (op : BinaryOp) (lhs rhs : Term)
  | compare (op : CompareOp) (lhs rhs : Term)
  | extract (hi lo : Nat) (arg : Term)
  | concat (high low : Term)
  | zeroExtend (count : Nat) (arg : Term)
  | signExtend (count : Nat) (arg : Term)

namespace Term

def ofBits (bits width : Nat) : Term :=
  bvLit (Word.truncate width bits) width (Word.truncate_lt width bits)

theorem ofBits_of_lt {bits width : Nat} (h : bits < Word.modulus width) :
    ofBits bits width = bvLit bits width h := by
  simp only [ofBits, Word.truncate, Nat.mod_eq_of_lt h]

def ofValue (v : Value) (h : v.canonical = v) : Term :=
  match v with
  | .bool b => boolLit b
  | .word bits w => bvLit bits w (Value.lt_of_canonical h)

mutual

def same : Term → Term → Bool
  | var x, var y => x == y
  | boolLit a, boolLit b => a == b
  | bvLit a v _, bvLit b w _ => a == b && v == w
  | not a, not b => same a b
  | and as, and bs => sameAll as bs
  | or as, or bs => sameAll as bs
  | xor a b, xor c d => same a c && same b d
  | implies a b, implies c d => same a c && same b d
  | eq a b, eq c d => same a c && same b d
  | distinct a b, distinct c d => same a c && same b d
  | ite a b c, ite d e f => same a d && same b e && same c f
  | unary o a, unary p b => o == p && same a b
  | binary o a b, binary p c d => o == p && same a c && same b d
  | compare o a b, compare p c d => o == p && same a c && same b d
  | extract h l a, extract i m b => h == i && l == m && same a b
  | concat a b, concat c d => same a c && same b d
  | zeroExtend k a, zeroExtend l b => k == l && same a b
  | signExtend k a, signExtend l b => k == l && same a b
  | _, _ => false

def sameAll : List Term → List Term → Bool
  | [], [] => true
  | a :: as, b :: bs => same a b && sameAll as bs
  | _, _ => false

end

mutual

@[simp] theorem same_iff : ∀ a b : Term, same a b = true ↔ a = b
  | var x, b => by cases b <;> simp [same]
  | boolLit x, b => by cases b <;> simp [same]
  | bvLit x w _, b => by cases b <;> simp [same]
  | not a, b => by cases b <;> simp [same, same_iff a]
  | and as, b => by cases b <;> simp [same, sameAll_iff as]
  | or as, b => by cases b <;> simp [same, sameAll_iff as]
  | xor a c, b => by cases b <;> simp [same, same_iff a, same_iff c]
  | implies a c, b => by cases b <;> simp [same, same_iff a, same_iff c]
  | eq a c, b => by cases b <;> simp [same, same_iff a, same_iff c]
  | distinct a c, b => by cases b <;> simp [same, same_iff a, same_iff c]
  | ite a c d, b => by cases b <;> simp [same, same_iff a, same_iff c, same_iff d, and_assoc]
  | unary o a, b => by cases b <;> simp [same, same_iff a]
  | binary o a c, b => by cases b <;> simp [same, same_iff a, same_iff c, and_assoc]
  | compare o a c, b => by cases b <;> simp [same, same_iff a, same_iff c, and_assoc]
  | extract h l a, b => by cases b <;> simp [same, same_iff a, and_assoc]
  | concat a c, b => by cases b <;> simp [same, same_iff a, same_iff c]
  | zeroExtend k a, b => by cases b <;> simp [same, same_iff a]
  | signExtend k a, b => by cases b <;> simp [same, same_iff a]

@[simp] theorem sameAll_iff : ∀ as bs : List Term, sameAll as bs = true ↔ as = bs
  | [], bs => by cases bs <;> simp [sameAll]
  | a :: as, bs => by cases bs <;> simp [sameAll, same_iff a, sameAll_iff as]

end

instance : DecidableEq Term := fun a b => decidable_of_iff _ (same_iff a b)

mutual

/-- Replace every variable by the name that `f` gives it. -/
def rename (f : String → String) : Term → Term
  | var x => var (f x)
  | boolLit b => boolLit b
  | bvLit bits w fits => bvLit bits w fits
  | not a => not (rename f a)
  | and as => and (renameAll f as)
  | or as => or (renameAll f as)
  | xor a b => xor (rename f a) (rename f b)
  | implies a b => implies (rename f a) (rename f b)
  | eq a b => eq (rename f a) (rename f b)
  | distinct a b => distinct (rename f a) (rename f b)
  | ite c a b => ite (rename f c) (rename f a) (rename f b)
  | unary o a => unary o (rename f a)
  | binary o a b => binary o (rename f a) (rename f b)
  | compare o a b => compare o (rename f a) (rename f b)
  | extract h l a => extract h l (rename f a)
  | concat a b => concat (rename f a) (rename f b)
  | zeroExtend k a => zeroExtend k (rename f a)
  | signExtend k a => signExtend k (rename f a)

def renameAll (f : String → String) : List Term → List Term
  | [] => []
  | t :: ts => rename f t :: renameAll f ts

end

theorem renameAll_eq_map (f : String → String) (ts : List Term) :
    renameAll f ts = ts.map (rename f) := by
  induction ts with
  | nil => rfl
  | cons t ts ih => simp [renameAll, ih]

end Term
end Logic
end BitEquiv
