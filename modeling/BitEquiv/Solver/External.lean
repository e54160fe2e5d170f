import BitEquiv.Solver.Basic
import BitEquiv.Smt.Script
import BitEquiv.Smt.Answer
import BitEquiv.Btor.Model
import BitEquiv.Execution.Host

/-!
# External solvers

The query is written to a file, a solver is started on it, and its output is
read. A solver that a limit killed has decided nothing, whatever it printed.
-/

namespace BitEquiv
namespace Solver

open Logic Execution

namespace External

/-- How a solver is started. The query goes to `queryPath`; unless it is to be kept
it is removed after the run. -/
structure Setup where
  command : String
  args : List String
  limits : Limits
  queryPath : String
  keep : Bool

/-- Read the output of an SMT-LIB solver. Some solvers exit with a code other
than zero after a valid answer. -/
def readSmt (command : String) (wanted : List (String × BvSort)) (o : Outcome) :
    Except SolverError Decision :=
  if o.termination.wasKilled then .ok (.unknown o.termination.text)
  else
    match Smt.readStatus o.stdout.text with
    | .error (.malformedAnswer fault) =>
        if o.termination.isSuccess then .error (.malformedAnswer fault)
        else .error (.crashed command o.termination o.log)
    | .error e => .error e
    | .ok (.sat, rest) => do return .sat (← Smt.readModel wanted rest)
    | .ok (.unsat, _) => .ok .unsat
    | .ok (.unknown reason, _) => .ok (.unknown reason)

/-- The values that a frame gives to the inputs of a query, by position. -/
def frameValues (inputs : List (String × BvSort)) :
    Assoc Nat → List Btor.Assignment → Except SolverError (Assoc Nat)
  | values, [] => .ok values
  | values, a :: rest =>
      match inputs[a.id]? with
      | none => frameValues inputs values rest
      | some (name, _) =>
          match a.value with
          | none => .error (.malformedAnswer (.wideValue name))
          | some n => frameValues inputs (values.set name n) rest

def rawValue : BvSort → Nat → Value
  | .bool, n => .bool (n % 2 == 1)
  | .bitVec w, n => .word n w

def witnessModel (inputs wanted : List (String × BvSort)) (w : Btor.Witness) :
    Except SolverError Model :=
  match w.frame 0 with
  | none => .error (.malformedAnswer .noInitialFrame)
  | some frame => do
      let values ← frameValues inputs [] frame.inputs
      return Assoc.ofList (wanted.map fun (name, sort) =>
        (name, rawValue sort ((values.get? name).getD 0)))

/-- Read the output of a BTOR2 model checker. No output means that the bad state
cannot be reached. -/
def readBtor (command : String) (inputs wanted : List (String × BvSort)) (o : Outcome) : Asked :=
  if o.termination.wasKilled then some (.ok (.unknown o.termination.text))
  else
    let out := o.stdout.text
    let saysSat := "sat".toList.isPrefixOf (out.dropWhile Text.isBlank)
    if !o.termination.isSuccess && !saysSat then
      some (.error (.crashed command o.termination o.log))
    else if (Text.trim out).isEmpty then some (.ok .unsat)
    else
      match Btor.Witness.parse out with
      | none => none
      | some (.error e) => some (.error (.witness e))
      | some (.ok w) => some ((witnessModel inputs wanted w).map .sat)

def start (host : Host) (setup : Setup) (text : String) (files : Files) :
    Except SolverError Outcome × Files :=
  match files.write setup.queryPath (Text.encode text.toList) with
  | .error fault => (.error (.queryFile setup.queryPath (host.wording fault)), files)
  | .ok files =>
      let (result, files) :=
        host.run ⟨setup.command, setup.args ++ [setup.queryPath], []⟩ setup.limits files
      let files := if setup.keep then files else files.removeFile setup.queryPath
      match result with
      | .error e => (.error (.start e), files)
      | .ok o => (.ok o, files)

def decideSmt (host : Host) (setup : Setup) (q : Query) (wanted : List (String × BvSort))
    (files : Files) : Reply × Files :=
  match q.validate with
  | .error e => (.refused (.malformedQuery e), files)
  | .ok _ =>
      match start host setup (Smt.script q (wanted.map (·.1))) files with
      | (.error e, files) => (.refused e, files)
      | (.ok o, files) => (⟨some (readSmt setup.command wanted o), o.elapsedMs⟩, files)

def decideBtor (host : Host) (setup : Setup) (q : Query) (wanted : List (String × BvSort))
    (files : Files) : Reply × Files :=
  match q.validate with
  | .error e => (.refused (.malformedQuery e), files)
  | .ok _ =>
      match Btor.modelText q with
      | .error e => (.refused (.malformedQuery e), files)
      | .ok text =>
          match start host setup text files with
          | (.error e, files) => (.refused e, files)
          | (.ok o, files) => (⟨readBtor setup.command q.inputs wanted o, o.elapsedMs⟩, files)

end External
end Solver
end BitEquiv
