import BitEquiv.Solver.Basic

/-!
# Exhaustive search

Decide a query by trying the assignments of its inputs in order. An assignment
is a number: the first input has its lowest bits.
-/

namespace BitEquiv
namespace Solver
namespace Exhaustive

open Logic

/-- Most input bits that are ever searched. -/
def maxBits : Nat := 32

def assignment : List (String × BvSort) → Nat → Env → Env
  | [], _, env => env
  | (name, sort) :: rest, counter, env =>
      assignment rest (counter >>> sort.width)
        (env.set name (.ofRaw sort (counter % Nat.pow 2 sort.width)))

def clockInterval : Nat := 1024

def modelOver (wanted : List (String × BvSort)) (env : Env) : Model :=
  Assoc.ofList (wanted.filterMap fun (name, _) => (env.get? name).map fun v => (name, v))

/-- Try `remaining` assignments from `counter` on. `expired` says whether the
time is up before a counter. -/
def search (q : Query) (wanted : List (String × BvSort)) (expired : Nat → Bool) (total : Nat) :
    Nat → Nat → Except SolverError Decision
  | 0, _ => .ok .unsat
  | remaining + 1, counter =>
      if counter % clockInterval = 0 && expired counter then
        .ok (.unknown ("timeout after " ++ Text.decimal counter ++ " of " ++ Text.decimal total
          ++ " assignments"))
      else
        let env := assignment q.inputs counter []
        match q.satisfiedBy env with
        | .error e => .error (.eval e)
        | .ok true => .ok (.sat (modelOver wanted env))
        | .ok false => search q wanted expired total remaining (counter + 1)

def decide (bits : Nat) (expired : Nat → Bool) (q : Query) (wanted : List (String × BvSort)) :
    Except SolverError Decision :=
  match q.validate with
  | .error e => .error (.malformedQuery e)
  | .ok _ =>
      let budget := min bits maxBits
      if budget < q.inputBits then
        .ok (.unknown ("input space of " ++ Text.decimal q.inputBits
          ++ " bits exceeds exhaustive budget of " ++ Text.decimal budget ++ " bits"))
      else search q wanted expired (Nat.pow 2 q.inputBits) (Nat.pow 2 q.inputBits) 0

end Exhaustive
end Solver
end BitEquiv
