import BitEquiv.Bench.Checker
import BitEquiv.Bench.Record

/-!
# The pipeline

A case is built, run and checked. A stage that fails ends the case; the stages
after it are recorded as skipped.
-/

namespace BitEquiv
namespace Bench

open Execution (Files)

/-- The three stages, and the replay of counterexamples when there is one. -/
structure Pipeline where
  builder : Builder
  subject : Subject
  checker : Checker
  replayer : Option Replayer

namespace Pipeline

def ofSettings (host : Execution.Host) (s : Settings) : Pipeline where
  builder := (Compiler.mk host s.toolchain).build
  subject := (SubjectCommand.mk host s.subject).run
  checker := .ofSettings host s.solver
  replayer := if s.replay.isEnabled then some ⟨host, s.replay⟩ else none

def buildEnd (failure : Option BuildFailure) : Classification :=
  if failure = some .timeout then .buildTimeout else .buildFailed

def runEnd : EmissionStatus → Classification
  | .timeout => .runTimeout
  | .completed => .runCrashed
  | .crashed => .runCrashed

/-- Replay the counterexample of a verdict, when there are both. The time of the
replay comes with the verdict. -/
def withReplay (p : Pipeline) (c : Case) (binary : String) (v : Verdict) (files : Files) :
    (Verdict × Nat) × Files :=
  match p.replayer, v.counterexample with
  | some r, some cex =>
      let ((evidence, elapsedMs), files) := r.replay binary c.reference cex.values files
      (({ v with replay := some evidence }, elapsedMs), files)
  | _, _ => ((v, 0), files)

def checkStage (p : Pipeline) (c : Case) (workDir path binary : String) (w : Walk)
    (r : CaseRecord) : Execution.Attempt Ended := fun files =>
  let w := w.advance .checking
  match p.checker.checkCase c workDir path files with
  | (none, files) => (none, files)
  | (some v, files) =>
      let ((v, replayMs), files) := p.withReplay c binary v files
      (some ({ r with durationMs := r.durationMs + v.solverMs + replayMs }.decided w v), files)

/-- The run stage of a case whose build succeeded, and what comes after it. -/
def runStage (p : Pipeline) (c : Case) (workDir : String) (a : BuildArtifact) (w : Walk)
    (r : CaseRecord) : Execution.Attempt Ended := fun files =>
  let w := w.advance .running
  match p.subject c a workDir files with
  | (none, files) => (none, files)
  | (some t, files) =>
      let r := { r with emission := some t, durationMs := r.durationMs + t.durationMs }
      match t.status, t.representation with
      | .completed, some path => p.checkStage c workDir path a.binary w r files
      | status, _ => (some (r.stopped w .run (runEnd status) t.summary), files)

def buildStage (p : Pipeline) (c : Case) (workDir : String) (w : Walk) (r : CaseRecord) :
    Execution.Attempt Ended := fun files =>
  let w := w.advance .building
  match p.builder c workDir files with
  | (none, files) => (none, files)
  | (some a, files) =>
      let r := { r with artifact := some a, durationMs := a.durationMs }
      if a.isSuccess then p.runStage c workDir a w r files
      else (some (r.stopped w .build (buildEnd a.failure) a.reason), files)

/-- Take a case through its stages. Its directory must exist. The duration of a case
is the time of the programs that ran for it. -/
def process (p : Pipeline) (c : Case) (workDir : String) : Execution.Attempt CaseRecord :=
  fun files =>
    let (ended, files) := p.buildStage c workDir .start (.fresh c) files
    (ended.map (·.record), files)

end Pipeline
end Bench
end BitEquiv
