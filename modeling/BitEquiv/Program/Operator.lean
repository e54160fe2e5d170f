import BitEquiv.Logic.Term

/-!
# Operators of programs

The names that an application can start with, how many indices each takes, and
how many operands.
-/

namespace BitEquiv
namespace Program

open Logic

inductive Operator where
  | not
  | and
  | or
  | xor
  | implies
  | eq
  | distinct
  | ite
  | unary (op : UnaryOp)
  | binary (op : BinaryOp)
  | compare (op : CompareOp)
  | concat
  | extract
  | zeroExtend
  | signExtend
  | const
deriving DecidableEq

inductive Arity where
  | exactly (n : Nat)
  | atLeast (n : Nat)
deriving DecidableEq

namespace Arity

def accepts (n : Nat) : Arity → Bool
  | exactly k => n == k
  | atLeast k => k ≤ n

def counted (n : Nat) : String :=
  Text.decimal n ++ (if n = 1 then " operand" else " operands")

def text : Arity → String
  | exactly k => counted k
  | atLeast k => "at least " ++ counted k

end Arity

namespace Operator

def name : Operator → String
  | not => "not"
  | and => "and"
  | or => "or"
  | xor => "xor"
  | implies => "=>"
  | eq => "="
  | distinct => "distinct"
  | ite => "ite"
  | unary op => op.name
  | binary op => op.name
  | compare op => op.name
  | concat => "concat"
  | extract => "extract"
  | zeroExtend => "zext"
  | signExtend => "sext"
  | const => "bv"

def capitalized (name : String) : String :=
  match name.toList with
  | [] => ""
  | c :: rest => String.ofList (c.toUpper :: rest)

def inGroup (group name : String) : String :=
  group ++ "(" ++ capitalized (name.drop 2).toString ++ ")"

def kindText : Operator → String
  | not => "Not"
  | and => "And"
  | or => "Or"
  | xor => "Xor"
  | implies => "Implies"
  | eq => "Eq"
  | distinct => "Distinct"
  | ite => "Ite"
  | unary op => inGroup "BvUnary" op.name
  | binary op => inGroup "BvBinary" op.name
  | compare op => inGroup "BvCompare" op.name
  | concat => "Concat"
  | extract => "Extract"
  | zeroExtend => "ZeroExtend"
  | signExtend => "SignExtend"
  | const => "Const"

def all : List Operator :=
  [not, and, or, xor, implies, eq, distinct, ite, concat, extract, zeroExtend, signExtend, const] ++
    UnaryOp.all.map unary ++ BinaryOp.all.map binary ++ CompareOp.all.map compare

def ofName? (s : String) : Option Operator := all.find? (·.name = s)

def indexCount : Operator → Nat
  | extract => 2
  | const => 2
  | zeroExtend => 1
  | signExtend => 1
  | _ => 0

def arity : Operator → Arity
  | const => .exactly 0
  | not => .exactly 1
  | unary _ => .exactly 1
  | extract => .exactly 1
  | zeroExtend => .exactly 1
  | signExtend => .exactly 1
  | and => .atLeast 2
  | or => .atLeast 2
  | ite => .exactly 3
  | _ => .exactly 2

end Operator
end Program
end BitEquiv
