import BitEquiv.Bench.Classification
import BitEquiv.Bench.Verdict

/-!
# Case records

Everything that a run learned about one case, up to the stage at which it stopped.
-/

namespace BitEquiv
namespace Bench

/-- Where a case stopped early, and which stages it did not reach. -/
structure SkipRecord where
  stage : Stage
  reason : String
  skipped : List Stage
deriving DecidableEq

structure CaseRecord where
  caseId : String
  tags : List String
  sourceHash : String
  state : CaseState
  classification : Classification
  artifact : Option BuildArtifact
  emission : Option Emission
  verdict : Option Verdict
  skip : Option SkipRecord
  error : Option CaseError
  durationMs : Nat
deriving DecidableEq

namespace CaseRecord

def fresh (c : Case) : CaseRecord where
  caseId := c.id
  tags := c.tags
  sourceHash := c.sourceHash
  state := .pending
  classification := .error
  artifact := none
  emission := none
  verdict := none
  skip := none
  error := none
  durationMs := 0

end CaseRecord

structure Walk where
  state : CaseState
  steps : List (CaseState × CaseState)
deriving DecidableEq

namespace Walk

def start : Walk := ⟨.pending, []⟩

def advance (w : Walk) (next : CaseState) : Walk := ⟨next, w.steps ++ [(w.state, next)]⟩

end Walk

structure Ended where
  record : CaseRecord
  walk : Walk
deriving DecidableEq

namespace CaseRecord

def stopped (r : CaseRecord) (w : Walk) (stage : Stage) (classification : Classification)
    (reason : String) : Ended :=
  let w := w.advance .skipped
  ⟨{ r with
      state := w.state
      classification := classification
      skip := some ⟨stage, reason, stage.after⟩
      error := some ⟨stage, reason⟩ }, w⟩

def decided (r : CaseRecord) (w : Walk) (v : Verdict) : Ended :=
  let w := w.advance .done
  ⟨{ r with
      state := w.state
      classification :=
        match v.finding with
        | .equivalent => .equivalent
        | .inequivalent => .inequivalent
        | .unknown => .unknown
        | .error => .error
      verdict := some v
      error := if v.finding = .error then some ⟨.check, v.detail⟩ else none }, w⟩

end CaseRecord
end Bench
end BitEquiv
