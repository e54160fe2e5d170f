/-!
# Stages, states and classifications

A case goes through three stages after it is loaded, and ends in one of eight
classifications. Each classification belongs to a category, and the category
decides what it means for the run as a whole.
-/

namespace BitEquiv
namespace Bench

inductive Stage where
  | load
  | build
  | run
  | check
deriving DecidableEq

namespace Stage

def text : Stage → String
  | load => "load"
  | build => "build"
  | run => "run"
  | check => "check"

def ofCase : List Stage := [build, run, check]

def after (s : Stage) : List Stage := (ofCase.dropWhile (· ≠ s)).drop 1

end Stage

inductive CaseState where
  | pending
  | building
  | running
  | checking
  | done
  | skipped
deriving DecidableEq

namespace CaseState

def all : List CaseState := [pending, building, running, checking, done, skipped]

def text : CaseState → String
  | pending => "pending"
  | building => "building"
  | running => "running"
  | checking => "checking"
  | done => "done"
  | skipped => "skipped"

def isTerminal : CaseState → Bool
  | done => true
  | skipped => true
  | _ => false

def canAdvanceTo : CaseState → CaseState → Bool
  | s, skipped => !s.isTerminal
  | pending, building => true
  | building, running => true
  | running, checking => true
  | checking, done => true
  | _, _ => false

theorem terminal_stays (s t : CaseState) (h : s.isTerminal = true) :
    s.canAdvanceTo t = false := by
  cases s <;> cases t <;> simp_all [isTerminal, canAdvanceTo]

end CaseState

inductive Category where
  | success
  | failure
  | inconclusive
  | error
deriving DecidableEq

def Category.text : Category → String
  | success => "success"
  | failure => "failure"
  | inconclusive => "inconclusive"
  | error => "error"

inductive Classification where
  | equivalent
  | inequivalent
  | unknown
  | error
  | buildFailed
  | buildTimeout
  | runCrashed
  | runTimeout
deriving DecidableEq

namespace Classification

def all : List Classification :=
  [equivalent, inequivalent, unknown, error, buildFailed, buildTimeout, runCrashed, runTimeout]

def text : Classification → String
  | equivalent => "equivalent"
  | inequivalent => "inequivalent"
  | unknown => "unknown"
  | error => "error"
  | buildFailed => "build_failed"
  | buildTimeout => "build_timeout"
  | runCrashed => "run_crashed"
  | runTimeout => "run_timeout"

def category : Classification → Category
  | equivalent => .success
  | inequivalent => .failure
  | unknown => .inconclusive
  | buildTimeout => .inconclusive
  | runTimeout => .inconclusive
  | error => .error
  | buildFailed => .error
  | runCrashed => .error

/-- Whether a case fails the run under every policy. -/
def isHardFailure (c : Classification) : Bool :=
  c.category = .failure || c.category = .error

/-- Whether a case fails the run under the strict policy only. -/
def isInconclusive (c : Classification) : Bool := c.category = .inconclusive

def label (c : Classification) : String :=
  if c.category = .success then "PASS"
  else if c = inequivalent ∨ c = runCrashed then "FAIL"
  else if c.category = .inconclusive then "INCONCLUSIVE"
  else "ERROR"

theorem mem_all (c : Classification) : c ∈ all := by
  cases c <;> decide

/-- Success, hard failure and inconclusive exclude each other, and there is
nothing else. -/
theorem success_iff (c : Classification) :
    c.category = .success ↔ c.isHardFailure = false ∧ c.isInconclusive = false := by
  cases c <;> decide

end Classification

structure CaseError where
  stage : Stage
  message : String
deriving DecidableEq

def CaseError.text (e : CaseError) : String := e.stage.text ++ " stage: " ++ e.message

end Bench
end BitEquiv
