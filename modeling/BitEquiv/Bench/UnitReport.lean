import BitEquiv.Bench.Document

/-!
# Reports of self-checks

The bench can check its own parts. Each check passes, fails or is skipped.
-/

namespace BitEquiv
namespace Bench

open Text (Json)

inductive CheckStatus where
  | passed
  | failed
  | skipped
deriving DecidableEq

namespace CheckStatus

def all : List CheckStatus := [passed, failed, skipped]

def text : CheckStatus → String
  | passed => "passed"
  | failed => "failed"
  | skipped => "skipped"

def label : CheckStatus → String
  | passed => "PASS"
  | failed => "FAIL"
  | skipped => "SKIP"

end CheckStatus

structure UnitCheck where
  component : String
  name : String
  status : CheckStatus
  detail : String
  durationMs : Nat
deriving DecidableEq

structure UnitReport where
  overall : RunVerdict
  passed : Nat
  failed : Nat
  skipped : Nat
  checks : List UnitCheck
deriving DecidableEq

namespace UnitReport

def of (checks : List UnitCheck) : UnitReport :=
  let count := fun s => checks.countP (·.status = s)
  ⟨if count .failed = 0 then .pass else .fail, count .passed, count .failed, count .skipped, checks⟩

def exitCode (r : UnitReport) : Nat := r.overall.exitCode

def checkLine (c : UnitCheck) : String :=
  "[" ++ c.status.label ++ "] " ++ c.component ++ " :: " ++ c.name ++ " (" ++ c.detail ++ ")"

def tallyLine (r : UnitReport) : String :=
  Text.decimal r.passed ++ " passed, " ++ Text.decimal r.failed ++ " failed, "
    ++ Text.decimal r.skipped ++ " skipped; overall: " ++ r.overall.text

def summary (r : UnitReport) : String :=
  String.join ((r.checks.map checkLine ++ ["", r.tallyLine]).map (· ++ "\n"))

def checkJson (c : UnitCheck) : Json :=
  .object [("component", .text c.component), ("name", .text c.name),
    ("status", .text c.status.text), ("detail", .text c.detail),
    ("duration_ms", .natural c.durationMs)]

def json (r : UnitReport) : Json :=
  .object [
    ("schema_version", .natural Report.schemaVersion), ("mode", .text "unit"),
    ("overall", .text r.overall.text), ("passed", .natural r.passed),
    ("failed", .natural r.failed), ("skipped", .natural r.skipped),
    ("checks", .list (r.checks.map checkJson))]

def document (r : UnitReport) : String := r.json.document

end UnitReport
end Bench
end BitEquiv
