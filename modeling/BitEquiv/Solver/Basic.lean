import BitEquiv.Logic.Query
import BitEquiv.Smt.SExpr
import BitEquiv.Btor.Witness
import BitEquiv.Execution.Outcome

/-!
# Decisions

What a solver says about a query, and how it can fail to say anything. Running
out of time, or giving up, is a decision; an answer that cannot be read is an
error.
-/

namespace BitEquiv
namespace Solver

open Logic

inductive Decision where
  | sat (model : Model)
  | unsat
  | unknown (reason : String)
deriving DecidableEq

/-- The decision with every word of its model cut to its width. -/
def Decision.canonical : Decision → Decision
  | sat model => sat model.toEnv
  | d => d

inductive AnswerFault where
  | expectedVerdict (found : List Char)
  | noVerdict
  | expressions (fault : Smt.SExpr.Fault)
  | unreadableValue (name : String) (sort : BvSort) (text : String)
  | missingValue (name : String)
  | noInitialFrame
  | wideValue (name : String)
deriving DecidableEq

def shownOutput : Nat := 160

def AnswerFault.message : AnswerFault → String
  | expectedVerdict found =>
      "expected one of sat/unsat/unknown, got `"
        ++ String.ofList (Text.excerpt shownOutput found) ++ "`"
  | noVerdict => "expected one of sat/unsat/unknown, got no output"
  | expressions fault => fault.message
  | unreadableValue name sort text =>
      "cannot read value of `" ++ name ++ "` as " ++ sort.text ++ ": `" ++ text ++ "`"
  | missingValue name => "model has no value for `" ++ name ++ "`"
  | noInitialFrame => "witness has no initial frame"
  | wideValue name => "value of `" ++ name ++ "` exceeds 128 bits"

inductive SolverError where
  | start (e : Execution.StartError)
  | queryFile (path : String) (reason : String)
  | crashed (command : String) (termination : Execution.Termination) (output : List Char)
  | reported (message : String)
  | malformedAnswer (fault : AnswerFault)
  | malformedQuery (e : SortError)
  | witness (e : Btor.WitnessError)
  | eval (e : EvalError)
deriving DecidableEq

def SolverError.message : SolverError → String
  | start e => e.message
  | queryFile path reason => "failed to write solver query to " ++ path ++ ": " ++ reason
  | crashed command termination output =>
      "solver `" ++ command ++ "` " ++ termination.text ++ " without an answer; output: `"
        ++ String.ofList (Text.excerpt shownOutput output) ++ "`"
  | reported message => "solver reported an error: " ++ message
  | malformedAnswer fault => "malformed solver output: " ++ fault.message
  | malformedQuery e => "malformed query: " ++ e.message
  | witness e => e.message
  | eval e => "evaluation failed: " ++ e.message

/-- What came of asking a solver. `none` means that the solver's reader broke off
without an answer or an error of its own. -/
abbrev Asked := Option (Except SolverError Decision)

structure Reply where
  asked : Asked
  elapsedMs : Nat

def Reply.refused (e : SolverError) : Reply := ⟨some (.error e), 0⟩

end Solver
end BitEquiv
