import BitEquiv.Bench.Corpus
import BitEquiv.Execution.Host

/-!
# The build stage

The compiler makes a binary of the source of a case. A build that fails is a
result like any other.
-/

namespace BitEquiv
namespace Bench

open Execution (Files Command Limits Host Termination joinPath)

inductive BuildFailure where
  | timeout
  | exitCode
  | signal
  | spawn
  | missingOutput
deriving DecidableEq

def BuildFailure.all : List BuildFailure := [.timeout, .exitCode, .signal, .spawn, .missingOutput]

def BuildFailure.text : BuildFailure → String
  | .timeout => "timeout"
  | .exitCode => "exit_code"
  | .signal => "signal"
  | .spawn => "spawn"
  | .missingOutput => "missing_output"

inductive BuildStatus where
  | success
  | failure
deriving DecidableEq

def BuildStatus.text : BuildStatus → String
  | .success => "success"
  | .failure => "failure"

/-- The result of a build. The log is what the compiler printed. The status alone decides
whether the case goes on; a failed build may come without a kind of failure. -/
structure BuildArtifact where
  caseId : String
  binary : String
  log : String
  status : BuildStatus
  failure : Option BuildFailure
  exitCode : Option Int
  durationMs : Nat
  binaryHash : Option String
deriving DecidableEq

namespace BuildArtifact

def succeeded (files : Files) (caseId binary log : String) (durationMs : Nat) : BuildArtifact where
  caseId := caseId
  binary := binary
  log := log
  status := .success
  failure := none
  exitCode := some 0
  durationMs := durationMs
  binaryHash := (files.read? binary).map Text.sha256

def failed (caseId binary : String) (failure : BuildFailure) (log : String) (durationMs : Nat) :
    BuildArtifact where
  caseId := caseId
  binary := binary
  log := log
  status := .failure
  failure := some failure
  exitCode := none
  durationMs := durationMs
  binaryHash := none

def isSuccess (a : BuildArtifact) : Bool := a.status = .success

def reason (a : BuildArtifact) : String :=
  match a.failure, a.exitCode with
  | none, _ => "built"
  | some .exitCode, some code => "compiler exited with code " ++ Text.signedDecimal code
  | some .exitCode, none => "compiler failed"
  | some .timeout, _ => "compiler timed out"
  | some .signal, _ => "compiler was terminated by a signal"
  | some .spawn, _ => "compiler could not be started"
  | some .missingOutput, _ => "compiler produced no binary"

end BuildArtifact

abbrev Builder := Case → String → Execution.Attempt BuildArtifact

def binaryPath (c : Case) (workDir : String) : String := joinPath workDir (c.stem ++ ".elf")

structure Compiler where
  host : Host
  settings : ToolchainSettings

namespace Compiler

/-- The flags of all cases stand before those of the case. -/
def command (k : Compiler) (c : Case) (output : String) : Command where
  program := k.settings.compiler
  args := k.settings.flags ++ c.cflags ++ ["-o", output, c.source]
  stdin := []

def limits (k : Compiler) (c : Case) : Limits :=
  .ofWall (c.timeouts.build.getD k.settings.timeoutSecs)

def artifact (c : Case) (output : String) (o : Execution.Outcome) (files : Files) : BuildArtifact :=
  let log := String.ofList o.log
  let failed := fun failure => BuildArtifact.failed c.id output failure log o.elapsedMs
  match o.termination with
  | .exited code =>
      if code ≠ 0 then { failed .exitCode with exitCode := some code }
      else if files.isFile output then .succeeded files c.id output log o.elapsedMs
      else failed .missingOutput
  | .signaled _ => failed .signal
  | .timedOut => failed .timeout
  | .cpuExceeded _ => failed .timeout
  | .memoryExceeded .. => failed .timeout

def build (k : Compiler) : Builder := fun c workDir files =>
  let output := binaryPath c workDir
  match k.host.run (k.command c output) (k.limits c) (files.removeFile output) with
  | (.error e, files) => (some (.failed c.id output .spawn e.message 0), files)
  | (.ok o, files) => (some (artifact c output o files), files)

end Compiler
end Bench
end BitEquiv
