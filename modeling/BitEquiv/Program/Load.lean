import BitEquiv.Program.Check

/-!
# Loading programs

From text to tree to program. Numbers in a text have limits: an index has at most
128 bits, a literal is at most 128 bits wide, and a width is below `2 ^ 64`.
-/

namespace BitEquiv
namespace Program

open Logic

mutual

/-- The first number of an expression that is beyond its limit. -/
def Expr.beyond? : Expr → Option LocatedFault
  | .var .. => none
  | .boolLit .. => none
  | .bvLit _ w span => if maxWidth < w then some ⟨.literalWidth w, span⟩ else none
  | .app _ indices args _ =>
      match indices.find? fun n => maxIndex < n.value with
      | some n => some ⟨.numeralRange, n.span⟩
      | none => beyondAny? args

def Expr.beyondAny? : List Expr → Option LocatedFault
  | [] => none
  | e :: rest => (e.beyond?).or (beyondAny? rest)

end

def Decl.beyond? (d : Decl) : Option LocatedFault :=
  let sort :=
    match d.sort.value with
    | .bitVec w => if Nat.pow 2 64 ≤ w then some ⟨Fault.widthRange, d.sort.span⟩ else none
    | .bool => none
  match d with
  | .input .. => sort
  | .binding _ _ _ e _ => sort.or e.beyond?

def parse (s : List Char) : Except LocatedFault Tree :=
  match Tree.ofTokens? (Token.ofText s) with
  | none =>
      let a := Grammar.explain s
      let size := Text.total (s.map Char.utf8Size)
      .error ⟨.expected a, ⟨a.pos, min (a.pos + 1) size⟩⟩
  | some t =>
      match t.decls.findSome? Decl.beyond? with
      | some f => .error f
      | none => .ok t

def load (s : List Char) : Except LoadError Program :=
  match parse s with
  | .error f => .error (.single f)
  | .ok t => ofTree t

end Program
end BitEquiv
