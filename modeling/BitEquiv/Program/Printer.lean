import BitEquiv.Program.Basic
import BitEquiv.Program.Operator
import BitEquiv.Smt.Script

/-!
# Program text

A program as a text that loads back to it: one declaration on a line.
-/

namespace BitEquiv
namespace Program

open Logic

def application (op : Operator) (indices : List Nat) (args : List String) : String :=
  Smt.form (op.name :: (indices.map Text.decimal ++ args))

mutual

def exprText : Term → String
  | .var x => x
  | .boolLit b => if b then "true" else "false"
  | .bvLit bits w _ => Smt.wordLiteral bits w
  | .not a => application .not [] [exprText a]
  | .and as => application .and [] (exprTexts as)
  | .or as => application .or [] (exprTexts as)
  | .xor a b => application .xor [] [exprText a, exprText b]
  | .implies a b => application .implies [] [exprText a, exprText b]
  | .eq a b => application .eq [] [exprText a, exprText b]
  | .distinct a b => application .distinct [] [exprText a, exprText b]
  | .ite c a b => application .ite [] [exprText c, exprText a, exprText b]
  | .unary op a => application (.unary op) [] [exprText a]
  | .binary op a b => application (.binary op) [] [exprText a, exprText b]
  | .compare op a b => application (.compare op) [] [exprText a, exprText b]
  | .extract hi lo a => application .extract [hi, lo] [exprText a]
  | .concat a b => application .concat [] [exprText a, exprText b]
  | .zeroExtend k a => application .zeroExtend [k] [exprText a]
  | .signExtend k a => application .signExtend [k] [exprText a]

def exprTexts : List Term → List String
  | [] => []
  | t :: ts => exprText t :: exprTexts ts

end

def inputLine (name : String) (sort : BvSort) : String :=
  "input " ++ name ++ " : " ++ sort.text ++ "\n"

def bindingLine (b : Binding) : String :=
  (if b.isOutput then "output " else "let ") ++ b.name ++ " : " ++ b.sort.text ++ " = "
    ++ exprText b.term ++ "\n"

def text (p : Program) : String :=
  "program " ++ p.name ++ "\n"
    ++ String.join (p.inputs.map fun (name, sort) => inputLine name sort)
    ++ String.join (p.bindings.map bindingLine)

end Program
end BitEquiv
