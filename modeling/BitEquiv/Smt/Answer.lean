import BitEquiv.Solver.Basic

/-!
# Answers of SMT-LIB solvers

The first line of output that says something decides. After `sat` come lists of
names with values, in any order and grouping.
-/

namespace BitEquiv
namespace Smt

open Logic Solver

/-- The decision word of an answer, without a model. -/
inductive Status where
  | sat
  | unsat
  | unknown (reason : String)
deriving DecidableEq

/-- The text of an error form: the atom of a list of two items, without quotes,
and the whole line when it has another shape. -/
def errorMessage (line : List Char) : String :=
  match SExpr.parseAll line with
  | .ok [.list [_, .atom message]] =>
      String.ofList (Text.trimBy (· == '"') message.toList)
  | _ => String.ofList line

def statusOf (line : List Char) : Option Status :=
  if line = "sat".toList then some .sat
  else if line = "unsat".toList then some .unsat
  else if line = "unknown".toList then some (.unknown "solver returned unknown")
  else none

/-- The decision word of an output, and the text after its line. Blank lines and
comments in front are skipped; an error form instead of a word is an error. -/
def readStatus (s : List Char) : Except SolverError (Status × List Char) :=
  if _ : s = [] then .error (.malformedAnswer .noVerdict)
  else
    let line := Text.trim (Text.takeLine s).1
    let after := (Text.takeLine s).2
    if line.isEmpty || line.head? == some ';' then readStatus after
    else if (Text.stripStart "(error".toList line).isSome then
      .error (.reported (errorMessage line))
    else
      match statusOf line with
      | some status => .ok (status, after)
      | none => .error (.malformedAnswer (.expectedVerdict s))
termination_by s.length
decreasing_by exact Text.takeLine_length s (by assumption)

/-- The value an expression gives for a sort: `true` or `false`, a binary or
hexadecimal literal with the digits of the width, or `(_ bvN w)`. -/
def readValue (sort : BvSort) (e : SExpr) : Option Value :=
  match sort, e with
  | .bool, .atom a =>
      if a = "true" then some (.bool true)
      else if a = "false" then some (.bool false)
      else none
  | .bitVec w, .atom a =>
      match a.toList with
      | '#' :: 'b' :: digits =>
          if digits.length = w then
            (Text.unsigned 2 Text.wideLimit digits).map (Value.word · w)
          else none
      | '#' :: 'x' :: digits =>
          if digits.length * 4 = w then
            (Text.unsigned 16 Text.wideLimit digits).map (Value.word · w)
          else none
      | _ => none
  | .bitVec w, .list [.atom u, .atom lit, .atom width] =>
      if u = "_" then
        match lit.toList with
        | 'b' :: 'v' :: digits => do
            let bits ← Text.unsigned 10 Text.wideLimit digits
            let width ← Text.unsigned 10 (Nat.pow 2 32) width.toList
            if width = w then some (.word bits w) else none
        | _ => none
      else none
  | _, _ => none

/-- The value that a pair of a wanted name gives; other items are passed over. -/
def readPair (wanted : List (String × BvSort)) (model : Model) (e : SExpr) :
    Except SolverError Model :=
  match e with
  | .list [.atom name, value] =>
      match (Assoc.ofList wanted).get? name with
      | none => .ok model
      | some sort =>
          match readValue sort value with
          | some v => .ok (model.set name v)
          | none => .error (.malformedAnswer (.unreadableValue name sort value.text))
  | _ => .ok model

def readValues (wanted : List (String × BvSort)) (model : Model) (e : SExpr) :
    Except SolverError Model :=
  match e with
  | .atom _ => .ok model
  | .list items =>
      if (match items with | .atom "error" :: _ => true | _ => false) then
        .error (.reported (errorMessage e.text.toList))
      else items.foldlM (readPair wanted) model

/-- The model over the wanted names in the text after `sat`. -/
def readModel (wanted : List (String × BvSort)) (s : List Char) : Except SolverError Model :=
  if wanted.isEmpty then .ok []
  else
    match SExpr.parseAll s with
    | .error fault => .error (.malformedAnswer (.expressions fault))
    | .ok exprs => do
        let model ← exprs.foldlM (readValues wanted) []
        match wanted.find? fun (name, _) => !model.has name with
        | some (name, _) => throw (.malformedAnswer (.missingValue name))
        | none => return model

end Smt
end BitEquiv
