import BitEquiv.Bench.Decider
import BitEquiv.Bench.Verdict

/-!
# The check stage

Programs with identical definitions agree, and programs with different interfaces
do not. Everything else is for a decider to say. An input that it finds is tried on
both programs, so that no program is called wrong for the fault of a solver.
-/

namespace BitEquiv
namespace Bench

open Logic
open Execution (Files)

structure Checker where
  decider : Decider
  timeoutSecs : Nat
  dumpQueries : Bool

namespace Checker

def ofSettings (host : Execution.Host) (s : SolverSettings) : Checker :=
  ⟨.ofSettings host s, s.timeoutSecs, s.dumpQueries⟩

def judgeModel (caseId : String) (reference candidate : Program) (elapsedMs : Nat) (model : Env) :
    Verdict :=
  let inputs := reference.modelInputs model
  match Program.compareAt reference candidate inputs with
  | .error e =>
      .plain caseId .error ("cannot evaluate solver model: " ++ e.message) elapsedMs
  | .ok [] => .plain caseId .error "solver model does not separate the programs" elapsedMs
  | .ok diffs =>
      let c := Counterexample.of reference inputs diffs
      ⟨caseId, .inequivalent, elapsedMs, some c,
        "outputs differ at " ++ c.inputText ++ ": " ++ c.outputText, none⟩

def judge (deciderName caseId : String) (reference candidate : Program) (d : Decided) : Verdict :=
  match d.result with
  | .ok .unsat => .plain caseId .equivalent "no input distinguishes the outputs" d.elapsedMs
  | .ok (.unknown reason) => .plain caseId .unknown reason d.elapsedMs
  | .ok (.sat model) => judgeModel caseId reference candidate d.elapsedMs model
  | .error e => .plain caseId .error (deciderName ++ " backend failed: " ++ e.message) d.elapsedMs

/-- Check a candidate against the reference of a case, within a time limit. Queries
go to `dumpDir` when there is one. -/
def check (k : Checker) (caseId : String) (timeoutSecs : Nat) (dumpDir : Option String)
    (reference candidate : Program) : Execution.Attempt Verdict := fun files =>
  if reference.sameDefinition candidate then
    (some (.plain caseId .equivalent "identical definitions" 0), files)
  else
    match Program.equivalenceQuery reference candidate with
    | .error m => (some (.plain caseId .inequivalent m.message 0), files)
    | .ok q =>
        match k.decider.decide q timeoutSecs dumpDir files with
        | (none, files) => (none, files)
        | (some d, files) => (some (judge k.decider.name caseId reference candidate d), files)

def checkFile (k : Checker) (caseId : String) (timeoutSecs : Nat) (dumpDir : Option String)
    (reference : Program) (path : String) : Execution.Attempt Verdict := fun files =>
  match loadFile files path with
  | .error e =>
      (some (.plain caseId .error ("unparseable representation: " ++ e.message) 0), files)
  | .ok candidate => k.check caseId timeoutSecs dumpDir reference candidate files

/-- Check the representation of a case. The case may have a time limit of its own,
and queries go to the directory of the case when they are to be kept. -/
def checkCase (k : Checker) (c : Case) (workDir path : String) : Execution.Attempt Verdict :=
  k.checkFile c.id (c.timeouts.solver.getD k.timeoutSecs)
    (if k.dumpQueries then some workDir else none) c.reference path

end Checker
end Bench
end BitEquiv
