import BitEquiv.Program.Token
import BitEquiv.Logic.Sort

/-!
# Program trees

What a program text says, before names and sorts are looked at. Every part knows
its place in the text. Reading works on tokens; an application is collected in a
frame until its parenthesis closes.
-/

namespace BitEquiv
namespace Program

open Logic (BvSort)

inductive Expr where
  | var (name : String) (span : Span)
  | boolLit (b : Bool) (span : Span)
  | bvLit (bits width : Nat) (span : Span)
  | app (op : Located String) (indices : List (Located Nat)) (args : List Expr) (span : Span)

def Expr.span : Expr → Span
  | var _ s => s
  | boolLit _ s => s
  | bvLit _ _ s => s
  | app _ _ _ s => s

inductive Decl where
  | input (name : Located String) (sort : Located BvSort) (span : Span)
  | binding (isOutput : Bool) (name : Located String) (sort : Located BvSort) (expr : Expr)
      (span : Span)

def Decl.name : Decl → Located String
  | input n _ _ => n
  | binding _ n _ _ _ => n

def Decl.sort : Decl → Located BvSort
  | input _ s _ => s
  | binding _ _ s _ _ => s

structure Tree where
  name : Located String
  decls : List Decl

namespace Tree

structure Frame where
  start : Nat
  op : Located String
  indices : List (Located Nat)
  args : List Expr

def Frame.addArg (f : Frame) (e : Expr) : Frame := { f with args := f.args ++ [e] }

def Frame.addIndex (f : Frame) (n : Located Nat) : Frame :=
  { f with indices := f.indices ++ [n] }

def Frame.close (f : Frame) (stop : Nat) : Expr := .app f.op f.indices f.args ⟨f.start, stop⟩

def digits (base : Nat) (ds : List Char) : Nat := (Text.ofDigits base 0 ds).getD 0

def operator? (t : Token) : Option (Located String) :=
  match t.value with
  | .word w => some ⟨w, t.span⟩
  | .equals => some ⟨"=", t.span⟩
  | .arrow => some ⟨"=>", t.span⟩
  | _ => none

def leaf? (t : Token) : Option Expr :=
  match t.value with
  | .word w =>
      if w = "true" then some (.boolLit true t.span)
      else if w = "false" then some (.boolLit false t.span)
      else some (.var w t.span)
  | .hex ds => some (.bvLit (digits 16 ds) (4 * ds.length) t.span)
  | .binary ds => some (.bvLit (digits 2 ds) ds.length t.span)
  | _ => none

/-- Read one expression inside the open applications `frames`, innermost
first. Indices come before operands. -/
def readExpr : List Frame → List Token → Option (Expr × List Token)
  | _, [] => none
  | frames, t :: rest =>
      match t.value with
      | .opening =>
          match rest with
          | [] => none
          | o :: rest =>
              match operator? o with
              | some op => readExpr (⟨t.span.start, op, [], []⟩ :: frames) rest
              | none => none
      | .closing =>
          match frames with
          | [] => none
          | [f] => some (f.close t.span.stop, rest)
          | f :: g :: outer => readExpr (g.addArg (f.close t.span.stop) :: outer) rest
      | .numeral ds =>
          match frames with
          | [] => none
          | f :: outer =>
              if f.args.isEmpty then readExpr (f.addIndex ⟨digits 10 ds, t.span⟩ :: outer) rest
              else none
      | _ =>
          match leaf? t with
          | none => none
          | some e =>
              match frames with
              | [] => some (e, rest)
              | f :: outer => readExpr (f.addArg e :: outer) rest

theorem readExpr_length {frames : List Frame} {tokens : List Token} {e : Expr}
    {rest : List Token} (h : readExpr frames tokens = some (e, rest)) :
    rest.length < tokens.length := by
  fun_induction readExpr frames tokens <;> simp_all <;> omega

def sort? (word : String) : Option BvSort :=
  if word = "bool" then some .bool
  else
    match word.toList with
    | 'b' :: 'v' :: ds =>
        if !ds.isEmpty && ds.all Char.isDigit then some (.bitVec (digits 10 ds)) else none
    | _ => none

def readDecls (tokens : List Token) : Option (List Decl) :=
  match tokens with
  | [] => some []
  | ⟨.word keyword, first⟩ :: ⟨.word name, nameSpan⟩ :: ⟨.colon, _⟩ :: ⟨.word sort, sortSpan⟩
      :: rest =>
      match sort? sort with
      | none => none
      | some declared =>
          if keyword = "input" then
            (readDecls rest).map fun ds =>
              .input ⟨name, nameSpan⟩ ⟨declared, sortSpan⟩ ⟨first.start, sortSpan.stop⟩ :: ds
          else if keyword = "let" ∨ keyword = "output" then
            match rest with
            | ⟨.equals, _⟩ :: body =>
                match _h : readExpr [] body with
                | none => none
                | some (e, after) =>
                    (readDecls after).map fun ds =>
                      .binding (keyword = "output") ⟨name, nameSpan⟩ ⟨declared, sortSpan⟩ e
                        ⟨first.start, e.span.stop⟩ :: ds
            | _ => none
          else none
  | _ => none
termination_by tokens.length
decreasing_by
  · simp
    omega
  · have := readExpr_length _h
    simp
    omega

def ofTokens? (tokens : List Token) : Option Tree :=
  match tokens with
  | ⟨.word keyword, _⟩ :: ⟨.word name, span⟩ :: rest =>
      if keyword = "program" then (readDecls rest).map fun ds => ⟨⟨name, span⟩, ds⟩ else none
  | _ => none

end Tree
end Program
end BitEquiv
