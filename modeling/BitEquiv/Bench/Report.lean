import BitEquiv.Bench.Record
import BitEquiv.Bench.WorkDir

/-!
# Run reports

A report has the records of all cases in order of their names, their tally, and the
verdict on the run. The fingerprint of a run depends on the classifications alone.
-/

namespace BitEquiv
namespace Bench

inductive RunVerdict where
  | pass
  | fail
  | inconclusive
deriving DecidableEq

namespace RunVerdict

def all : List RunVerdict := [pass, fail, inconclusive]

def text : RunVerdict → String
  | pass => "pass"
  | fail => "fail"
  | inconclusive => "inconclusive"

def exitCode : RunVerdict → Nat
  | pass => 0
  | fail => 1
  | inconclusive => 4

end RunVerdict

def faultExitCode : Nat := 5

def usageExitCode : Nat := 2

/-- The tally of a run: all its cases, those of each classification, and the malformed
ones, which are no cases. -/
structure Tally where
  total : Nat
  equivalent : Nat
  inequivalent : Nat
  unknown : Nat
  error : Nat
  buildFailed : Nat
  buildTimeout : Nat
  runCrashed : Nat
  runTimeout : Nat
  loadErrors : Nat
deriving DecidableEq

namespace Tally

def start (loadErrors : Nat) : Tally := ⟨0, 0, 0, 0, 0, 0, 0, 0, 0, loadErrors⟩

def bump (t : Tally) : Classification → Tally
  | .equivalent => { t with equivalent := t.equivalent + 1 }
  | .inequivalent => { t with inequivalent := t.inequivalent + 1 }
  | .unknown => { t with unknown := t.unknown + 1 }
  | .error => { t with error := t.error + 1 }
  | .buildFailed => { t with buildFailed := t.buildFailed + 1 }
  | .buildTimeout => { t with buildTimeout := t.buildTimeout + 1 }
  | .runCrashed => { t with runCrashed := t.runCrashed + 1 }
  | .runTimeout => { t with runTimeout := t.runTimeout + 1 }

def add (t : Tally) (c : Classification) : Tally := bump { t with total := t.total + 1 } c

def of (classifications : List Classification) (loadErrors : Nat) : Tally :=
  classifications.foldl add (start loadErrors)

def count (t : Tally) : Classification → Nat
  | .equivalent => t.equivalent
  | .inequivalent => t.inequivalent
  | .unknown => t.unknown
  | .error => t.error
  | .buildFailed => t.buildFailed
  | .buildTimeout => t.buildTimeout
  | .runCrashed => t.runCrashed
  | .runTimeout => t.runTimeout

def hardFailures (t : Tally) : Nat := t.inequivalent + t.error + t.buildFailed + t.runCrashed

def inconclusive (t : Tally) : Nat := t.unknown + t.buildTimeout + t.runTimeout

def subjectWrong (t : Tally) : Nat := t.inequivalent + t.runCrashed

def benchProblems (t : Tally) : Nat := t.error + t.buildFailed + t.loadErrors

def overall (t : Tally) (strict : Bool) : RunVerdict :=
  if t.hardFailures > 0 ∨ t.loadErrors > 0 then .fail
  else if strict ∧ t.inconclusive > 0 then .inconclusive
  else .pass

end Tally

structure Report where
  corpus : String
  backend : String
  strict : Bool
  durationMs : Nat
  records : List CaseRecord
  loadErrors : List MalformedCase

namespace Report

def recordLe (a b : CaseRecord) : Bool := Execution.Files.nameLe a.caseId b.caseId

def malformedLe (a b : MalformedCase) : Bool := Execution.Files.nameLe a.id b.id

def of (s : Settings) (records : List CaseRecord) (loadErrors : List MalformedCase)
    (durationMs : Nat) : Report where
  corpus := s.corpus
  backend := s.solver.backend.name
  strict := s.policy.strict
  durationMs := durationMs
  records := records.mergeSort recordLe
  loadErrors := loadErrors.mergeSort malformedLe

def mode : String := "integration"

def tally (r : Report) : Tally := .of (r.records.map (·.classification)) r.loadErrors.length

def overall (r : Report) : RunVerdict := r.tally.overall r.strict

def exitCode (r : Report) : Nat := r.overall.exitCode

def fingerprint (r : Report) : String :=
  hashOf (String.join (r.records.map fun c => c.caseId ++ "\t" ++ c.classification.text ++ "\n"))

/-- The classification of each case; the last one counts when a name comes
twice. -/
def outcomes (r : Report) : Assoc Classification :=
  Assoc.ofList (r.records.map fun c => (c.caseId, c.classification))

/-! ## The summary -/

def detail (c : CaseRecord) : String :=
  match c.skip, c.verdict with
  | some s, _ => " (" ++ s.stage.text ++ " stage: " ++ s.reason ++ ")"
  | none, some v =>
      if c.classification = .equivalent then ""
      else
        " (" ++ v.detail ++ ")" ++
          match v.replay with
          | some e => " [replay " ++ e.status.title ++ ": " ++ e.detail ++ "]"
          | none => ""
  | none, none => ""

def caseLine (c : CaseRecord) : String :=
  "[" ++ c.classification.label ++ "] " ++ c.caseId ++ " :: " ++ c.classification.text ++ detail c

def malformedLine (m : MalformedCase) : String := "[LOAD] " ++ m.id ++ " :: " ++ m.reason

def headLine (r : Report) : String :=
  "rotor-bench " ++ mode ++ " run: " ++ Text.decimal r.tally.total ++ " cases, backend "
    ++ r.backend ++ ", " ++ Text.decimal r.durationMs ++ " ms"

def tallyLines (r : Report) : List String :=
  let t := r.tally
  let n := fun c => Text.decimal (t.count c)
  ["Equivalent: " ++ n .equivalent,
   "System under test is wrong: " ++ Text.decimal t.subjectWrong ++ " (inequivalent "
     ++ n .inequivalent ++ ", run_crashed " ++ n .runCrashed ++ ")",
   "Harness or environment problem: " ++ Text.decimal t.benchProblems ++ " (error " ++ n .error
     ++ ", build_failed " ++ n .buildFailed ++ ", load errors " ++ Text.decimal t.loadErrors ++ ")",
   "Inconclusive: " ++ Text.decimal t.inconclusive ++ " (unknown " ++ n .unknown
     ++ ", build_timeout " ++ n .buildTimeout ++ ", run_timeout " ++ n .runTimeout ++ ")"
     ++ (if r.strict then ", fails the run under --strict" else ""),
   "Overall: " ++ r.overall.text,
   "Outcome fingerprint: " ++ r.fingerprint]

def summaryLines (r : Report) : List String :=
  [r.headLine] ++ r.records.map caseLine ++ r.loadErrors.map malformedLine ++ [""] ++ r.tallyLines

def summary (r : Report) : String := String.join (r.summaryLines.map (· ++ "\n"))

/-- A run passes under the strict policy only when it passes without it. -/
theorem pass_of_strict_pass (t : Tally) (h : t.overall true = .pass) :
    t.overall false = .pass := by
  unfold Tally.overall at h ⊢
  split
  · next hard => simp [hard] at h
  · simp

end Report
end Bench
end BitEquiv
