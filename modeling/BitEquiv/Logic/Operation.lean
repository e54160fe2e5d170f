import BitEquiv.Logic.Term

/-!
# Operations by name

The term that an operation of SMT-LIB makes of its indices and operands.
-/

namespace BitEquiv
namespace Logic
namespace Term

def ofWords? (name : String) : List Term → Option Term
  | [a] => (UnaryOp.all.find? (·.name = name)).map fun op => unary op a
  | [a, b] =>
      ((BinaryOp.all.find? (·.name = name)).map fun op => binary op a b).or
        ((CompareOp.all.find? (·.name = name)).map fun op => compare op a b)
  | _ => none

/-- The term of an operation; none when the name or a number of arguments is
unknown. -/
def ofOperation? (name : String) (indices : List Nat) (args : List Term) : Option Term :=
  match name, indices, args with
  | "not", [], [a] => some (.not a)
  | "and", [], _ => some (.and args)
  | "or", [], _ => some (.or args)
  | "xor", [], [a, b] => some (.xor a b)
  | "=>", [], [a, b] => some (.implies a b)
  | "=", [], [a, b] => some (.eq a b)
  | "distinct", [], [a, b] => some (.distinct a b)
  | "ite", [], [a, b, c] => some (.ite a b c)
  | "extract", [hi, lo], [a] => some (.extract hi lo a)
  | "concat", [], [a, b] => some (.concat a b)
  | "zero_extend", [count], [a] => some (.zeroExtend count a)
  | "sign_extend", [count], [a] => some (.signExtend count a)
  | _, [], _ => ofWords? name args
  | _, _, _ => none

end Term
end Logic
end BitEquiv
