import BitEquiv.Bench.Report
import BitEquiv.Text.Json

/-!
# Reports as documents

The fields of the parts of a report, in the order in which they are written. Parts
that are absent are left out.
-/

namespace BitEquiv
namespace Bench

open Text (Json)

namespace BuildArtifact

def json (a : BuildArtifact) : Json :=
  .object ([
    ("case_id", .text a.caseId), ("binary", .text a.binary), ("log", .text a.log),
    ("status", .text a.status.text)]
    ++ Json.optional "failure" (fun f => .text f.text) a.failure
    ++ Json.optional "exit_code" .number a.exitCode
    ++ [("duration_ms", .natural a.durationMs)]
    ++ Json.optional "binary_sha256" .text a.binaryHash)

end BuildArtifact

namespace Emission

def json (t : Emission) : Json :=
  .object ([("case_id", .text t.caseId)]
    ++ Json.optional "representation" .text t.representation
    ++ [("log", .text t.log), ("status", .text t.status.text)]
    ++ Json.optional "exit_code" .number t.exitCode
    ++ Json.optional "signal" .number t.signal
    ++ Json.optional "crash_reason" .text t.crashReason
    ++ [("duration_ms", .natural t.durationMs)])

end Emission

namespace ReplayEvidence

def json (e : ReplayEvidence) : Json :=
  .object ([("status", .text e.status.text), ("detail", .text e.detail)]
    ++ (if e.observed.isEmpty then []
        else [("observed", .object (e.observed.map fun (name, n) =>
          (name, .text (Text.decimal n))))]))

end ReplayEvidence

namespace Counterexample

def json (c : Counterexample) : Json :=
  .object [
    ("inputs", .list (c.inputs.map fun input =>
      .object [("name", .text input.name), ("sort", .text input.sort),
        ("value", .text input.value)])),
    ("outputs", .list (c.outputs.map fun d =>
      .object [("name", .text d.name), ("original", .text d.reference.text),
        ("translated", .text d.candidate.text)]))]

end Counterexample

namespace Verdict

def json (v : Verdict) : Json :=
  .object ([
    ("case_id", .text v.caseId), ("outcome", .text v.finding.text),
    ("solver_ms", .natural v.solverMs)]
    ++ Json.optional "counterexample" Counterexample.json v.counterexample
    ++ [("detail", .text v.detail)]
    ++ Json.optional "replay" ReplayEvidence.json v.replay)

end Verdict

namespace CaseRecord

def skipJson (s : SkipRecord) : Json :=
  .object [("stage", .text s.stage.text), ("reason", .text s.reason),
    ("skipped", .texts (s.skipped.map Stage.text))]

def errorJson (e : CaseError) : Json :=
  .object [("stage", .text e.stage.text), ("message", .text e.message)]

def json (r : CaseRecord) : Json :=
  .object ([("case_id", .text r.caseId)]
    ++ Json.nonEmpty "tags" .text r.tags
    ++ [("source_sha256", .text r.sourceHash), ("state", .text r.state.text),
      ("classification", .text r.classification.text)]
    ++ Json.optional "artifact" BuildArtifact.json r.artifact
    ++ Json.optional "translation" Emission.json r.emission
    ++ Json.optional "verdict" Verdict.json r.verdict
    ++ Json.optional "skip" skipJson r.skip
    ++ Json.optional "error" errorJson r.error
    ++ [("duration_ms", .natural r.durationMs)])

end CaseRecord

namespace Report

def tallyJson (t : Tally) : Json :=
  .object ([("total", .natural t.total)]
    ++ (Classification.all.map fun c => (c.text, .natural (t.count c)))
    ++ [("load_errors", .natural t.loadErrors)])

def malformedJson (m : MalformedCase) : Json :=
  .object [("case_id", .text m.id), ("reason", .text m.reason)]

def schemaVersion : Nat := 1

def json (r : Report) : Json :=
  .object ([
    ("schema_version", .natural schemaVersion), ("mode", .text mode), ("corpus", .text r.corpus),
    ("backend", .text r.backend), ("strict", .truth r.strict),
    ("duration_ms", .natural r.durationMs), ("overall", .text r.overall.text),
    ("outcome_fingerprint", .text r.fingerprint),
    ("outcomes", .object (r.outcomes.map fun (id, c) => (id, .text c.text))),
    ("summary", tallyJson r.tally), ("records", .list (r.records.map CaseRecord.json))]
    ++ Json.nonEmpty "load_errors" malformedJson r.loadErrors)

def document (r : Report) : String := r.json.document

end Report
end Bench
end BitEquiv
