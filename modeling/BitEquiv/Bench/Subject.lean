import BitEquiv.Bench.Build

/-!
# The run stage

The program under test reads a binary and gives a program for it, on its standard
output or in a file that it is told of.
-/

namespace BitEquiv
namespace Bench

open Execution (FileFault Files Command Limits Host joinPath)

inductive EmissionStatus where
  | completed
  | timeout
  | crashed
deriving DecidableEq

def EmissionStatus.text : EmissionStatus → String
  | .completed => "completed"
  | .timeout => "timeout"
  | .crashed => "crashed"

/-- The result of the run stage. There is a representation only when the run was
completed. -/
structure Emission where
  caseId : String
  representation : Option String
  log : String
  status : EmissionStatus
  exitCode : Option Int
  signal : Option Int
  crashReason : Option String
  durationMs : Nat
deriving DecidableEq

namespace Emission

def completed (caseId representation log : String) (durationMs : Nat) : Emission :=
  ⟨caseId, some representation, log, .completed, some 0, none, none, durationMs⟩

def timedOut (caseId log : String) (durationMs : Nat) : Emission :=
  ⟨caseId, none, log, .timeout, none, none, none, durationMs⟩

def crashed (caseId reason log : String) (durationMs : Nat) : Emission :=
  ⟨caseId, none, log, .crashed, none, none, some reason, durationMs⟩

def summary (t : Emission) : String :=
  match t.status with
  | .completed => "completed"
  | .timeout => "timed out after " ++ Text.decimal t.durationMs ++ " ms"
  | .crashed => t.crashReason.getD "crashed"

end Emission

abbrev Subject := Case → BuildArtifact → String → Execution.Attempt Emission

def representationPath (workDir : String) : String := joinPath workDir "translated.bvp"

/-! ## Templates -/

/-- Put `value` for every occurrence of `mark`; `fuel` bounds the length of the
text. -/
def replaceWithin (mark value : List Char) : Nat → List Char → List Char
  | 0, s => s
  | _ + 1, [] => []
  | fuel + 1, c :: rest =>
      match Text.stripStart mark (c :: rest) with
      | some after => value ++ replaceWithin mark value fuel after
      | none => c :: replaceWithin mark value fuel rest

def replaceAll (mark value text : String) : String :=
  String.ofList (replaceWithin mark.toList value.toList text.length text.toList)

def binaryMark : String := "\x7bbinary\x7d"

def outputMark : String := "\x7boutput\x7d"

def caseMark : String := "\x7bcase\x7d"

/-- Fill in the places of a template, one kind after the other. -/
def expandTemplate (template binary output caseId : String) : String :=
  replaceAll caseMark caseId (replaceAll outputMark output (replaceAll binaryMark binary template))

def hasMark (mark : List Char) : List Char → Bool
  | [] => mark.isEmpty
  | c :: rest => mark.isPrefixOf (c :: rest) || hasMark mark rest

/-! ## Running a command -/

structure SubjectCommand where
  host : Host
  settings : SubjectSettings

namespace SubjectCommand

/-- Whether the command is told where to put the representation. -/
def writesOutput (t : SubjectCommand) : Bool :=
  t.settings.args.any fun arg => hasMark outputMark.toList arg.toList

def command (t : SubjectCommand) (c : Case) (binary output : String) : Command where
  program := t.settings.command
  args := t.settings.args.map fun arg => expandTemplate arg binary output c.id
  stdin := []

def limits (t : SubjectCommand) (c : Case) : Limits where
  wallSeconds := c.timeouts.run.getD t.settings.timeoutSecs
  cpuSeconds := t.settings.cpuSecs
  memoryMiB := t.settings.memoryMiB
  outputBytes := Execution.defaultOutputBytes

def hasContent (files : Files) (path : String) : Bool :=
  match (files.read? path).bind Text.decode? with
  | some text => !(Text.trim text).isEmpty
  | none => false

def collect (wording : FileFault → String) (toStdout : Bool) (c : Case) (output log : String)
    (o : Execution.Outcome) (files : Files) : Emission × Files :=
  let crashed := fun reason => Emission.crashed c.id reason log o.elapsedMs
  let stored :=
    if toStdout && !o.stdout.bytes.isEmpty then files.write output o.stdout.bytes
    else .ok files
  match stored with
  | .error fault => (crashed ("cannot store representation: " ++ wording fault), files)
  | .ok files =>
      if o.stdout.truncated && toStdout then
        (crashed "representation exceeds the output limit", files)
      else if hasContent files output then
        (.completed c.id output log o.elapsedMs, files)
      else ({ crashed "no representation produced" with exitCode := some 0 }, files)

def emission (wording : FileFault → String) (toStdout : Bool) (c : Case) (output : String)
    (o : Execution.Outcome) (files : Files) : Emission × Files :=
  let log := String.ofList (if toStdout then o.stderr.text else o.log)
  let crashed := Emission.crashed c.id o.termination.text log o.elapsedMs
  match o.termination with
  | .timedOut => (.timedOut c.id log o.elapsedMs, files)
  | .cpuExceeded _ => (.timedOut c.id log o.elapsedMs, files)
  | .memoryExceeded .. => (crashed, files)
  | .signaled signal => ({ crashed with signal := some signal }, files)
  | .exited code =>
      if code ≠ 0 then ({ crashed with exitCode := some code }, files)
      else collect wording toStdout c output log o files

def run (t : SubjectCommand) : Subject := fun c artifact workDir files =>
  let output := representationPath workDir
  match t.host.run (t.command c artifact.binary output) (t.limits c) (files.removeFile output) with
  | (.error e, files) => (some (.crashed c.id e.message "" 0), files)
  | (.ok o, files) =>
      let (result, files) := emission t.host.wording (!t.writesOutput) c output o files
      (some result, files)

end SubjectCommand
end Bench
end BitEquiv
