import BitEquiv.Program.Grammar
import BitEquiv.Program.Operator

/-!
# Faults of program texts

Every way in which a text fails to be a program, with its place and its words.
-/

namespace BitEquiv
namespace Program

open Logic

inductive Fault where
  | expected (attempts : Grammar.Attempts)
  | numeralRange
  | widthRange
  | literalWidth (width : Nat)
  | invalidWidth
  | unknownName (name : String)
  | duplicate (name : String)
  | unknownOperator (name : String)
  | indexCount (op : String) (expected found : Nat)
  | operandCount (op : String) (arity : Arity) (found : Nat)
  | missingOperand (op : Operator)
  | declaredSort (name : String) (declared found : BvSort)
  | zeroWidth
  | resultWidth (width : Nat)
  | valueRange (bits width : Nat)
  | expectedBool (op : String) (found : BvSort)
  | expectedWord (op : String)
  | sortsDiffer (op : String) (lhs rhs : BvSort)
  | extractRange (hi lo width : Nat)

inductive FaultKind where
  | form
  | unknownName
  | duplicate
  | unknownOperator
  | arity
  | sortMismatch
deriving DecidableEq

namespace FaultKind

def name : FaultKind → String
  | form => "Syntax"
  | unknownName => "UnknownName"
  | duplicate => "Duplicate"
  | unknownOperator => "UnknownOperator"
  | arity => "Arity"
  | sortMismatch => "SortMismatch"

def code : FaultKind → String
  | form => "rotor::bvp::syntax"
  | unknownName => "rotor::bvp::unknown_name"
  | duplicate => "rotor::bvp::duplicate"
  | unknownOperator => "rotor::bvp::unknown_operator"
  | arity => "rotor::bvp::arity"
  | sortMismatch => "rotor::bvp::sort"

end FaultKind

namespace Fault

def kind : Fault → FaultKind
  | expected _ => .form
  | numeralRange => .form
  | unknownName _ => .unknownName
  | duplicate _ => .duplicate
  | unknownOperator _ => .unknownOperator
  | indexCount .. => .arity
  | operandCount .. => .arity
  | missingOperand _ => .arity
  | _ => .sortMismatch

/-- What was expected and found, for a wrong number of indices or operands. -/
def arityText (op expected found : String) : String :=
  "'" ++ op ++ "' expects " ++ expected ++ ", found " ++ found

def message : Fault → String
  | expected a => "Syntax error: expected " ++ a.text
  | numeralRange => "Syntax error: numeral does not fit in 128 bits"
  | widthRange => "Sort mismatch: bit-vector width out of range"
  | literalWidth w =>
      "Sort mismatch: literal is " ++ Text.decimal w ++ " bits wide, limit is 128"
  | invalidWidth =>
      "Sort mismatch: bit-vector width must be between 1 and " ++ Text.decimal maxWidth
  | unknownName n => "Unknown name: " ++ n
  | duplicate n => "Duplicate definition: " ++ n
  | unknownOperator n => "Unknown operator '" ++ n ++ "'"
  | indexCount op e f => arityText op (Text.decimal e ++ " numeral indices") (Text.decimal f)
  | operandCount op a f => arityText op a.text (Text.decimal f)
  | missingOperand op => arityText op.name op.arity.text "fewer"
  | declaredSort n d f =>
      "Sort mismatch: `" ++ n ++ "` is declared " ++ d.text ++ " but its expression has sort "
        ++ f.text
  | zeroWidth => "Sort mismatch: bit-vector width must be at least 1"
  | resultWidth w =>
      "Sort mismatch: result width " ++ Text.decimal w ++ " exceeds " ++ Text.decimal maxWidth
        ++ " bits"
  | valueRange v w =>
      "Sort mismatch: value " ++ Text.decimal v ++ " does not fit in bv" ++ Text.decimal w
  | expectedBool op f => "Sort mismatch: `" ++ op ++ "` expects a bool operand, found " ++ f.text
  | expectedWord op => "Sort mismatch: `" ++ op ++ "` expects a bit-vector operand, found bool"
  | sortsDiffer op a b =>
      "Sort mismatch: `" ++ op ++ "` operands must have the same sort, found " ++ a.text
        ++ " and " ++ b.text
  | extractRange hi lo w =>
      "Sort mismatch: extract " ++ Text.decimal hi ++ " " ++ Text.decimal lo
        ++ " is out of range for bv" ++ Text.decimal w

end Fault

abbrev LocatedFault := Located Fault

inductive LoadError where
  | single (fault : LocatedFault)
  | several (faults : List LocatedFault)
  | noOutputs (name : String)

namespace LoadError

def numbered (n : Nat) : List LocatedFault → String
  | [] => ""
  | f :: rest => "  " ++ Text.decimal n ++ ". " ++ f.value.message ++ "\n" ++ numbered (n + 1) rest

def message : LoadError → String
  | single f => f.value.message
  | several fs => Text.decimal fs.length ++ " errors:\n" ++ numbered 1 fs
  | noOutputs name => "Program '" ++ name ++ "' declares no outputs"

def code : LoadError → String
  | single f => f.value.kind.code
  | several _ => "rotor::bvp::multiple"
  | noOutputs _ => "rotor::bvp::no_outputs"

def name : LoadError → String
  | single f => f.value.kind.name
  | several _ => "MultipleErrors"
  | noOutputs _ => "NoOutputs"

def ofFaults : List LocatedFault → LoadError
  | [f] => single f
  | fs => several fs

end LoadError
end Program
end BitEquiv
