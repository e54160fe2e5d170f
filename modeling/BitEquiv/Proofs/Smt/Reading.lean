import BitEquiv.Logic.Term
import BitEquiv.Smt.SExpr
import BitEquiv.Text.Numeral

/-!
# The language of scripts

Sorts, terms and commands of the SMT-LIB language as expressions stand for them. The names
of operations and the forms of literals are those of the theories of truth values and of
fixed-size bit-vectors; a connective has at least two operands here.
-/

namespace BitEquiv
namespace Smt

open Logic

def numeral? (a : String) : Option Nat := Text.natural? a.toList

/-- Whether an atom is a symbol: no numeral, no literal, no keyword and no string. -/
def isSymbol (a : String) : Bool :=
  match a.toList with
  | [] => false
  | c :: _ => !(c.isDigit || c == '#' || c == ':' || c == '"')

def symbol? : SExpr → Option String
  | .atom a => if isSymbol a then some a else none
  | .list _ => none

def sort? : SExpr → Option BvSort
  | .atom "Bool" => some .bool
  | .list [.atom "_", .atom "BitVec", .atom width] => (numeral? width).map .bitVec
  | _ => none

def word? (n width : Nat) : Option Term :=
  if h : n < Word.modulus width then some (.bvLit n width h) else none

/-- The word that a literal writes; the count of its digits gives the width. -/
def literal? (a : String) : Option Term :=
  match a.toList with
  | '#' :: 'b' :: digits =>
      if digits.isEmpty then none
      else (Text.ofDigits 2 0 digits).bind fun n => word? n digits.length
  | '#' :: 'x' :: digits =>
      if digits.isEmpty then none
      else (Text.ofDigits 16 0 digits).bind fun n => word? n (4 * digits.length)
  | _ => none

def atomTerm? (a : String) : Option Term :=
  if a = "true" then some (.boolLit true)
  else if a = "false" then some (.boolLit false)
  else if isSymbol a then some (.var a)
  else literal? a

def unaryOp? : String → Option UnaryOp
  | "bvnot" => some .not
  | "bvneg" => some .neg
  | _ => none

def binaryOp? : String → Option BinaryOp
  | "bvadd" => some .add
  | "bvsub" => some .sub
  | "bvmul" => some .mul
  | "bvudiv" => some .udiv
  | "bvurem" => some .urem
  | "bvsdiv" => some .sdiv
  | "bvsrem" => some .srem
  | "bvand" => some .and
  | "bvor" => some .or
  | "bvxor" => some .xor
  | "bvshl" => some .shl
  | "bvlshr" => some .lshr
  | "bvashr" => some .ashr
  | _ => none

def compareOp? : String → Option CompareOp
  | "bvult" => some .ult
  | "bvule" => some .ule
  | "bvugt" => some .ugt
  | "bvuge" => some .uge
  | "bvslt" => some .slt
  | "bvsle" => some .sle
  | "bvsgt" => some .sgt
  | "bvsge" => some .sge
  | _ => none

def wordTerm? (name : String) : List Term → Option Term
  | [a] => (unaryOp? name).map (Term.unary · a)
  | [a, b] =>
      match binaryOp? name with
      | some op => some (.binary op a b)
      | none => (compareOp? name).map (Term.compare · a b)
  | _ => none

def application? (name : String) (indices : List Nat) (args : List Term) : Option Term :=
  match name, indices, args with
  | "not", [], [a] => some (.not a)
  | "and", [], a :: b :: more => some (.and (a :: b :: more))
  | "or", [], a :: b :: more => some (.or (a :: b :: more))
  | "xor", [], [a, b] => some (.xor a b)
  | "=>", [], [a, b] => some (.implies a b)
  | "=", [], [a, b] => some (.eq a b)
  | "distinct", [], [a, b] => some (.distinct a b)
  | "ite", [], [c, a, b] => some (.ite c a b)
  | "concat", [], [a, b] => some (.concat a b)
  | "extract", [hi, lo], [a] => some (.extract hi lo a)
  | "zero_extend", [k], [a] => some (.zeroExtend k a)
  | "sign_extend", [k], [a] => some (.signExtend k a)
  | _, [], _ => wordTerm? name args
  | _, _, _ => none

def indices? : List SExpr → Option (List Nat)
  | [] => some []
  | .atom a :: rest => do
      let n ← numeral? a
      let ns ← indices? rest
      return n :: ns
  | .list _ :: _ => none

def operation? : SExpr → Option (String × List Nat)
  | .atom a => if isSymbol a then some (a, []) else none
  | .list (.atom "_" :: .atom a :: i :: more) => (indices? (i :: more)).map (a, ·)
  | .list _ => none

mutual

def term? : SExpr → Option Term
  | .atom a => atomTerm? a
  | .list [] => none
  | .list (head :: args) => do
      let (name, indices) ← operation? head
      let operands ← terms? args
      application? name indices operands

def terms? : List SExpr → Option (List Term)
  | [] => some []
  | e :: es => do
      let t ← term? e
      let ts ← terms? es
      return t :: ts

end

inductive Command where
  | setOption (name value : String)
  | setLogic (name : String)
  | declareConst (name : String) (sort : BvSort)
  | defineFun (name : String) (sort : BvSort) (term : Term)
  | assert (term : Term)
  | checkSat
  | getValue (terms : List Term)
  | exit
deriving DecidableEq

namespace Command

/-- The command that an expression stands for; functions are defined without parameters. -/
def ofExpr? : SExpr → Option Command
  | .list [.atom "set-option", .atom name, .atom value] => some (setOption name value)
  | .list [.atom "set-logic", logic] => (symbol? logic).map setLogic
  | .list [.atom "declare-const", name, sort] => do
      return declareConst (← symbol? name) (← sort? sort)
  | .list [.atom "define-fun", name, .list [], sort, term] => do
      return defineFun (← symbol? name) (← sort? sort) (← term? term)
  | .list [.atom "assert", term] => (term? term).map assert
  | .list [.atom "check-sat"] => some checkSat
  | .list [.atom "get-value", .list terms] => (terms? terms).map getValue
  | .list [.atom "exit"] => some exit
  | _ => none

end Command

end Smt
end BitEquiv
