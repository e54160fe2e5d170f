import BitEquiv.Logic.Query
import BitEquiv.Text.Blank

/-!
# SMT-LIB text

Terms, sorts and whole queries in the SMT-LIB 2 language. A word is written in
hexadecimal when four divides its width and in binary when not.
-/

namespace BitEquiv
namespace Smt

open Logic

def isSymbolChar (c : Char) : Bool :=
  c.isAlphanum || "~!@$%^&*_-+=<>.?/".toList.contains c

def isSimple (name : List Char) : Bool :=
  match name with
  | [] => false
  | c :: _ => !c.isDigit && name.all isSymbolChar

def symbol (name : String) : String :=
  if isSimple name.toList then name else "|" ++ name ++ "|"

def sortText : BvSort → String
  | .bool => "Bool"
  | .bitVec w => "(_ BitVec " ++ Text.decimal w ++ ")"

def wordLiteral (bits width : Nat) : String :=
  if width % 4 = 0 then "#x" ++ String.ofList (Text.padded 16 (width / 4) bits)
  else "#b" ++ String.ofList (Text.padded 2 width bits)

/-- An application in parentheses, its parts separated by blanks. -/
def form (parts : List String) : String := "(" ++ String.intercalate " " parts ++ ")"

mutual

/-- A term in SMT-LIB. A connective of one operand is that operand, and one of
none is its unit. -/
def termText : Term → String
  | .var x => symbol x
  | .boolLit b => if b then "true" else "false"
  | .bvLit bits w _ => wordLiteral bits w
  | .not a => form ["not", termText a]
  | .and as => connective "and" "true" (termTexts as)
  | .or as => connective "or" "false" (termTexts as)
  | .xor a b => form ["xor", termText a, termText b]
  | .implies a b => form ["=>", termText a, termText b]
  | .eq a b => form ["=", termText a, termText b]
  | .distinct a b => form ["distinct", termText a, termText b]
  | .ite c a b => form ["ite", termText c, termText a, termText b]
  | .unary op a => form [op.name, termText a]
  | .binary op a b => form [op.name, termText a, termText b]
  | .compare op a b => form [op.name, termText a, termText b]
  | .extract hi lo a =>
      form [form ["_", "extract", Text.decimal hi, Text.decimal lo], termText a]
  | .concat a b => form ["concat", termText a, termText b]
  | .zeroExtend k a => form [form ["_", "zero_extend", Text.decimal k], termText a]
  | .signExtend k a => form [form ["_", "sign_extend", Text.decimal k], termText a]

def termTexts : List Term → List String
  | [] => []
  | t :: ts => termText t :: termTexts ts

def connective (op unit : String) : List String → String
  | [] => unit
  | [single] => single
  | parts => form (op :: parts)

end

def command (parts : List String) : String := form parts ++ "\n"

/-- The script that decides a query and asks for the values of `wanted`. -/
def script (q : Query) (wanted : List String) : String :=
  String.join
    ([command ["set-option", ":produce-models", "true"], command ["set-logic", "QF_BV"]] ++
     q.inputs.map (fun (name, sort) => command ["declare-const", symbol name, sortText sort]) ++
     q.definitions.map (fun d =>
       command ["define-fun", symbol d.name, "()", sortText d.sort, termText d.term]) ++
     q.assertions.map (fun t => command ["assert", termText t]) ++
     [command ["check-sat"]] ++
     (if wanted.isEmpty then [] else [command ["get-value", form (wanted.map symbol)]]) ++
     [command ["exit"]])

end Smt
end BitEquiv
