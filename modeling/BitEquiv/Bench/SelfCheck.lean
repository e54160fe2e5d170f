import BitEquiv.Bench.Run
import BitEquiv.Bench.Scripted
import BitEquiv.Bench.UnitReport

/-!
# Self-checks

Small checks of the parts of the bench on programs that add one to a word. They use
scripted stages and search in memory; only the last two start a program.
-/

namespace BitEquiv
namespace Bench
namespace SelfCheck

open Execution (Files Host joinPath)
open Scripted

def increment : String := "program inc\ninput x : bv8\noutput r : bv8 = (bvadd x #x01)\n"

def respelled : String := "program inc\ninput x : bv8\noutput r : bv8 = (bvsub x #xff)\n"

def flipped : String :=
  "program inc\ninput x : bv8\noutput r : bv8 = (bvxor (bvadd x #x01) #x01)\n"

def widened : String := "program inc\ninput x : bv16\noutput r : bv16 = (bvadd x #x0001)\n"

/-- The result of a check: what it says when it passes, why it was skipped, or what
is wrong. -/
inductive CheckResult where
  | pass (detail : String)
  | skip (detail : String)
  | fail (detail : String)
deriving DecidableEq

def CheckResult.ofExcept : Except String String → CheckResult
  | .ok detail => .pass detail
  | .error detail => .fail detail

abbrev Check := String → Files → Except String String

def expect (holds : Bool) (complaint : String) : Except String Unit :=
  if holds then .ok () else .error complaint

def program (text : String) : Except String Program :=
  match Program.load text.toList with
  | .ok p => .ok p
  | .error e => .error e.message

def exhaustive : Checker :=
  ⟨.ofSettings .bare { Settings.default.solver with backend := .exhaustive }, 10, false⟩

def verdict (k : Checker) (reference candidate : String) : Except String Verdict := do
  let p ← program reference
  let q ← program candidate
  match k.check "fixture" k.timeoutSecs none p q .empty with
  | (some v, _) => .ok v
  | (none, _) => .error "the check broke off"

def fixture (dir id : String) (files : Files) : Except String (Case × Files) :=
  match writeCase dir id increment files with
  | none => .error "cannot write fixture"
  | some files =>
      match loadCase files id (joinPath dir id) with
      | .ok c => .ok (c, files)
      | .error e => .error e.message

def recordOf (p : Pipeline) (dir : String) (files : Files) : Except String CaseRecord := do
  let (c, files) ← fixture dir "c" files
  match p.process c dir files with
  | (some r, _) => .ok r
  | (none, _) => .error "the pipeline broke off"

def scripted (build : String → BuildScript) (run : String → SubjectScript) : Pipeline :=
  ⟨builder build, subject run, exhaustive, none⟩

def corpusCheck : Check := fun dir files => do
  let made := do
    let files ← writeCase dir "good" increment files
    let files ← writeCase dir "bad" increment files
    files.write? (joinPath (joinPath dir "bad") descriptorFile)
      (Text.encode "source = \"main.c\"\n".toList)
  match made with
  | none => .error "cannot write fixture"
  | some files =>
      let (cases, errors) := (← Corpus.discover files dir).load files
      expect (cases.map (·.id) = ["good"]) ("loaded " ++ Text.decimal cases.length ++ " cases")
      match errors with
      | [e] => do
          expect (e.id = "bad") e.message
          return "1 case, 1 load error: " ++ e.reason
      | _ => .error (String.intercalate "; " (errors.map MalformedCase.message))

def printCheck : Check := fun _ _ => do
  let p ← program flipped
  let q ← program p.text
  expect (p = q) "reloaded program differs"
  return "definition preserved"

def identicalCheck : Check := fun _ _ => do
  let never : Checker :=
    ⟨Scripted.decider (.error (.other "solver must not be called")), 1, false⟩
  let v ← verdict never increment increment
  expect (v.finding = .equivalent) v.detail
  return v.detail

def flippedCheck : Check := fun _ _ => do
  let v ← verdict exhaustive increment flipped
  expect (v.finding = .inequivalent) v.detail
  match v.counterexample with
  | none => .error "no counterexample"
  | some c => do
      expect (!c.outputs.isEmpty) "counterexample without differing outputs"
      return v.detail

def respelledCheck : Check := fun _ _ => do
  let v ← verdict exhaustive increment respelled
  expect (v.finding = .equivalent) v.detail
  return v.detail

def interfaceCheck : Check := fun _ _ => do
  let v ← verdict exhaustive increment widened
  expect (v.finding = .inequivalent) v.detail
  expect v.counterexample.isNone "unexpected counterexample"
  return v.detail

def unknownCheck : Check := fun _ _ => do
  let unknown ← verdict ⟨Scripted.decider (.ok (.unknown "timeout")), 1, false⟩ increment respelled
  expect (unknown.finding = .unknown) unknown.finding.text
  let failed ← verdict ⟨Scripted.decider (.error (.other "crashed")), 1, false⟩ increment respelled
  expect (failed.finding = .error) failed.finding.text
  return "unknown and error"

def failedBuildCheck : Check := fun dir files => do
  let r ← recordOf (scripted (fun _ => .fail .exitCode) (fun _ => .emitReference)) dir files
  expect (r.classification = .buildFailed) r.classification.text
  match r.skip with
  | none => .error "no skip record"
  | some s => do
      expect (s.stage = .build ∧ s.skipped = [.run, .check]) s.stage.text
      return s.reason

def timeoutCheck : Check := fun dir files => do
  let r ← recordOf (scripted (fun _ => .succeed) (fun _ => .timeout)) dir files
  expect (r.classification = .runTimeout) r.classification.text
  expect r.classification.isInconclusive "not inconclusive"
  return r.classification.text

def repeatedScript (id : String) : SubjectScript :=
  if id = "b" then .emit flipped else if id = "c" then .timeout else .emitReference

def repeatCheck : Check := fun dir files => do
  let root := joinPath dir "corpus"
  let made := do
    let files ← writeCase root "a" increment files
    let files ← writeCase root "b" increment files
    writeCase root "c" increment files
  match made with
  | none => .error "cannot write fixture"
  | some files =>
      let s := { Settings.default with
        corpus := root
        workDir := joinPath dir "work"
        workers := 2 }
      let p := scripted (fun _ => .succeed) repeatedScript
      match Run.corpus s p 1 files with
      | (.error e, _) => .error e.message
      | (.ok first, files) =>
          match Run.corpus s p 1 files with
          | (.error e, _) => .error e.message
          | (.ok second, _) => do
              let ends := first.records.map (·.classification)
              expect (ends = [.equivalent, .inequivalent, .runTimeout])
                (String.intercalate ", " (ends.map Classification.text))
              expect (first.fingerprint = second.fingerprint) "fingerprints differ between runs"
              return "fingerprint " ++ String.ofList (first.fingerprint.toList.take 12)

def sleepingCheck (host : Host) : Check := fun dir files => do
  let (c, files) ← fixture dir "c" files
  let c := { c with timeouts := { c.timeouts with run := some 1 } }
  let settings :=
    { Settings.default.subject with
      command := "sh", args := ["-c", "sleep 30"], allowDegraded := true }
  match builder (fun _ => .succeed) c dir files with
  | (none, _) => .error "the build broke off"
  | (some a, files) =>
      match (SubjectCommand.mk host settings).run c a dir files with
      | (none, _) => .error "the run broke off"
      | (some t, _) => do
          expect (t.status = .timeout) t.status.text
          return "killed after " ++ Text.decimal t.durationMs ++ " ms"

def selfDistinct : Logic.Query where
  inputs := [("in_x", .bitVec 8)]
  definitions := []
  assertions := [.distinct (.var "in_x") (.var "in_x")]

/-- The decider of the settings must say that no word differs from itself. -/
def backendCheck (host : Host) (s : SolverSettings) (files : Files) : CheckResult :=
  match (Decider.ofSettings host s).decide selfDistinct (min s.timeoutSecs 30) none files with
  | (none, _) => .fail "the decider broke off"
  | (some d, _) =>
      match d.result with
      | .ok .unsat => .pass (s.backend.name ++ " answered unsat")
      | .ok (.sat _) => .fail (s.backend.name ++ " answered sat")
      | .ok (.unknown reason) => .fail (s.backend.name ++ " answered unknown: " ++ reason)
      | .error (.solver (.start _)) => .skip ("solver `" ++ s.program ++ "` is not available")
      | .error e => .fail e.message

def plainChecks (host : Host) : List (String × String × Check) :=
  [("corpus", "discovers cases and reports malformed ones", corpusCheck),
   ("ir", "printing and reloading keeps the definition", printCheck),
   ("checker", "identical programs need no solver call", identicalCheck),
   ("checker", "a flipped output bit is inequivalent", flippedCheck),
   ("checker", "an equivalent rewrite is proved", respelledCheck),
   ("checker", "interface mismatches are inequivalent", interfaceCheck),
   ("checker", "unknown and solver failures stay distinct", unknownCheck),
   ("pipeline", "a failed build skips run and check", failedBuildCheck),
   ("pipeline", "a subject timeout is inconclusive", timeoutCheck),
   ("orchestrator", "classifications are stable across runs", repeatCheck),
   ("sandbox", "a sleeping subject is killed at its deadline", sleepingCheck host)]

def entry (component name : String) : CheckResult → UnitCheck
  | .pass detail => ⟨component, name, .passed, detail, 0⟩
  | .skip detail => ⟨component, name, .skipped, detail, 0⟩
  | .fail detail => ⟨component, name, .failed, detail, 0⟩

/-- Make all checks. Each starts from the same file tree, in a directory that it
makes. -/
def run (host : Host) (s : Settings) (files : Files) : UnitReport :=
  let plain := (plainChecks host).map fun (component, name, check) =>
    entry component name (.ofExcept (check (joinPath host.temporary "rotor-unit") files))
  .of (plain ++ [entry "decider" "the configured backend refutes x != x"
    (backendCheck host s.solver files)])

end SelfCheck
end Bench
end BitEquiv
