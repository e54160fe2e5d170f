import BitEquiv.Bench.Settings
import BitEquiv.Solver.External

/-!
# Deciders

A decider answers queries within a time limit. One is made of the solver settings:
search in memory, or an external solver. With a directory for queries, an external
solver leaves its query there.
-/

namespace BitEquiv
namespace Bench

open Logic
open Execution (Files Host Limits joinPath)
open Solver (Decision SolverError)

inductive DeciderError where
  | solver (e : SolverError)
  | other (message : String)
deriving DecidableEq

def DeciderError.message : DeciderError → String
  | solver e => e.message
  | other message => message

/-- An answer, or why there is none, and how long it took. The values of an answer
are taken as they are. -/
structure Decided where
  result : Except DeciderError Decision
  elapsedMs : Nat

/-- Answers queries. The time limit is in seconds. -/
structure Decider where
  name : String
  decide : Query → Nat → Option String → Execution.Attempt Decided

namespace Decider

def ofReply (r : Solver.Reply) : Option Decided :=
  match r.asked with
  | none => none
  | some (.ok d) => some ⟨.ok d.canonical, r.elapsedMs⟩
  | some (.error e) => some ⟨.error (.solver e), r.elapsedMs⟩

def setup (host : Host) (s : SolverSettings) (args : List String) (file : String)
    (timeoutSecs : Nat) (dumpDir : Option String) : Solver.External.Setup where
  command := s.program
  args := args
  limits := { Limits.ofWall timeoutSecs with memoryMiB := s.memoryMiB }
  queryPath := joinPath (dumpDir.getD host.temporary) file
  keep := dumpDir.isSome

/-- The arguments of the model checker: how far it looks comes first. -/
def checkerArgs (s : SolverSettings) : List String :=
  ["-kmax", Text.decimal s.kmax] ++ s.args

/-- The decider of the settings. Search in memory is bounded by its input bits, not
by its time. -/
def ofSettings (host : Host) (s : SolverSettings) : Decider where
  name := s.backend.name
  decide := fun q timeoutSecs dumpDir files =>
    match s.backend with
    | .smtlib =>
        let (reply, files) :=
          Solver.External.decideSmt host
            (setup host s s.args "query.smt2" timeoutSecs dumpDir) q q.inputs files
        (ofReply reply, files)
    | .btor2 =>
        let (reply, files) :=
          Solver.External.decideBtor host
            (setup host s (checkerArgs s) "query.btor2" timeoutSecs dumpDir) q q.inputs files
        (ofReply reply, files)
    | .exhaustive =>
        let result := Solver.Exhaustive.decide s.exhaustiveBits (fun _ => false) q q.inputs
        (ofReply ⟨some result, 0⟩, files)

end Decider
end Bench
end BitEquiv
