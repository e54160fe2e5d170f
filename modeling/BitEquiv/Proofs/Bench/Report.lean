import Mathlib.Data.List.Nodup
import BitEquiv.Bench.Report

/-!
# Reports do not depend on order and time

Records of different cases have one order by their names, in whatever order they came. What a
report adds to its records depends on names and classifications alone.
-/

namespace BitEquiv
namespace Bench

open Execution

/-!
## Times
-/

def BuildArtifact.untimed (a : BuildArtifact) : BuildArtifact := { a with durationMs := 0 }

def Emission.untimed (t : Emission) : Emission := { t with durationMs := 0 }

def Verdict.untimed (v : Verdict) : Verdict := { v with solverMs := 0 }

namespace CaseRecord

/-- A text about the run of a case, without its time: when the run took too long, the text
tells how long it took. -/
def untimedText (r : CaseRecord) (text : String) : String :=
  match r.emission with
  | some t => if t.status = .timeout then t.untimed.summary else text
  | none => text

def untimed (r : CaseRecord) : CaseRecord :=
  { r with
    artifact := r.artifact.map (·.untimed)
    emission := r.emission.map (·.untimed)
    verdict := r.verdict.map (·.untimed)
    skip := r.skip.map fun s => { s with reason := r.untimedText s.reason }
    error := r.error.map fun e => { e with message := r.untimedText e.message }
    durationMs := 0 }

end CaseRecord

namespace Report

/-!
## Order
-/

theorem nameLe_iff {a b : String} : Files.nameLe a b = true ↔ a ≤ b := by
  rw [Files.nameLe, Bool.not_eq_true', decide_eq_false_iff_not]
  exact String.not_lt

theorem pairwise_recordLe (l : List CaseRecord) :
    (l.mergeSort recordLe).Pairwise fun a b => recordLe a b = true := by
  refine List.pairwise_mergeSort ?_ ?_ l
  · intro a b c hab hbc
    exact nameLe_iff.mpr (String.le_trans (nameLe_iff.mp hab) (nameLe_iff.mp hbc))
  · intro a b
    rw [Bool.or_eq_true]
    rcases String.le_total a.caseId b.caseId with h | h
    · exact Or.inl (nameLe_iff.mpr h)
    · exact Or.inr (nameLe_iff.mpr h)

theorem mergeSort_eq_of_perm {l l' : List CaseRecord} (h : l.Perm l')
    (hids : (l.map (·.caseId)).Nodup) : l.mergeSort recordLe = l'.mergeSort recordLe := by
  have hperm : (l.mergeSort recordLe).Perm (l'.mergeSort recordLe) :=
    (List.mergeSort_perm l recordLe).trans (h.trans (List.mergeSort_perm l' recordLe).symm)
  refine hperm.eq_of_pairwise ?_ (pairwise_recordLe l) (pairwise_recordLe l')
  intro a b ha hb hab hba
  have hid : a.caseId = b.caseId := String.le_antisymm (nameLe_iff.mp hab) (nameLe_iff.mp hba)
  have hal : a ∈ l := (List.mergeSort_perm l recordLe).mem_iff.mp ha
  have hbl : b ∈ l := h.mem_iff.mpr ((List.mergeSort_perm l' recordLe).mem_iff.mp hb)
  exact List.inj_on_of_nodup_map hids hal hbl hid

theorem map_untimed_mergeSort (l : List CaseRecord) :
    (l.mergeSort recordLe).map (·.untimed) = (l.map (·.untimed)).mergeSort recordLe :=
  List.map_mergeSort fun _ _ _ _ => rfl

/-!
## Agreement
-/

/-- Two reports say the same, up to the times in their records. -/
structure Agrees (r r' : Report) : Prop where
  records : r.records.map (·.untimed) = r'.records.map (·.untimed)
  loadErrors : r.loadErrors = r'.loadErrors
  outcomes : r.outcomes = r'.outcomes
  tally : r.tally = r'.tally
  overall : r.overall = r'.overall
  fingerprint : r.fingerprint = r'.fingerprint

theorem agrees_of_records {r r' : Report}
    (hrecords : r.records.map (·.untimed) = r'.records.map (·.untimed))
    (hload : r.loadErrors = r'.loadErrors) (hstrict : r.strict = r'.strict) : Agrees r r' := by
  have hsame : ∀ {α : Type} (f : CaseRecord → α), (∀ c, f c.untimed = f c) →
      r.records.map f = r'.records.map f := by
    intro α f hf
    have hmap := congrArg (List.map f) hrecords
    simpa only [List.map_map, Function.comp_def, hf] using hmap
  have hclasses := hsame (·.classification) fun _ => rfl
  have htally : r.tally = r'.tally := by
    unfold tally
    rw [hclasses, hload]
  refine ⟨hrecords, hload, ?_, htally, ?_, ?_⟩
  · unfold outcomes
    rw [hsame (fun c => (c.caseId, c.classification)) fun _ => rfl]
  · unfold overall
    rw [htally, hstrict]
  · unfold fingerprint
    rw [hsame (fun c => c.caseId ++ "\t" ++ c.classification.text ++ "\n") fun _ => rfl]

end Report
end Bench
end BitEquiv
