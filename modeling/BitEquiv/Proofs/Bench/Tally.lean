import Mathlib.Algebra.GroupWithZero.Nat
import BitEquiv.Proofs.Bench.Report
import BitEquiv.Proofs.Text.Assoc

/-!
# What a report adds up to

The slots of a tally, their sum, and the two sums that decide on a run all count records of
the report. The category of a classification says which sum it is in.
-/

namespace BitEquiv
namespace Bench

/-!
## Tallies
-/

namespace Tally

variable {t : Tally} {c : Classification}

theorem total_add : (t.add c).total = t.total + 1 := by
  cases c <;> rfl

theorem loadErrors_add : (t.add c).loadErrors = t.loadErrors := by
  cases c <;> rfl

theorem count_add (d : Classification) :
    (t.add c).count d = t.count d + if c == d then 1 else 0 := by
  cases c <;> cases d <;> rfl

/-- The sum of the slots for failures and errors grows by the classifications of these
categories. -/
theorem hardFailures_add :
    (t.add c).hardFailures = t.hardFailures + if c.isHardFailure then 1 else 0 := by
  cases c <;> simp [hardFailures, add, bump, Classification.isHardFailure,
    Classification.category] <;> omega

theorem inconclusive_add :
    (t.add c).inconclusive = t.inconclusive + if c.isInconclusive then 1 else 0 := by
  cases c <;> simp [inconclusive, add, bump, Classification.isInconclusive,
    Classification.category] <;> omega

theorem sum_add : (Classification.all.map (t.add c).count).sum =
    (Classification.all.map t.count).sum + 1 := by
  cases c <;> simp [Classification.all, count, add, bump] <;> omega

/-- A number that grows with the classifications of some kind counts them. -/
theorem foldl_add {f : Tally → Nat} {p : Classification → Bool}
    (hstep : ∀ (t : Tally) (c : Classification), f (t.add c) = f t + if p c then 1 else 0)
    (cs : List Classification) (t : Tally) : f (cs.foldl add t) = f t + cs.countP p := by
  induction cs generalizing t with
  | nil => rfl
  | cons c cs ih =>
      rw [List.foldl_cons, ih, hstep, List.countP_cons]
      omega

section Of

variable (cs : List Classification) (loadErrors : Nat)

theorem total_of : (of cs loadErrors).total = cs.length := by
  have htotal : (of cs loadErrors).total = 0 + cs.countP fun _ => true :=
    foldl_add (f := total) (fun _ _ => total_add) cs (start loadErrors)
  rw [htotal, List.countP_true, Nat.zero_add]

theorem loadErrors_of : (of cs loadErrors).loadErrors = loadErrors := by
  have hload : (of cs loadErrors).loadErrors = loadErrors + cs.countP fun _ => false :=
    foldl_add (f := Tally.loadErrors) (fun _ _ => loadErrors_add) cs (start loadErrors)
  rw [hload, List.countP_false]
  rfl

theorem count_of (d : Classification) : (of cs loadErrors).count d = cs.count d := by
  have hcount : (of cs loadErrors).count d = (start loadErrors).count d + cs.countP (· == d) :=
    foldl_add (f := fun t => t.count d) (fun _ _ => count_add d) cs (start loadErrors)
  have hstart : (start loadErrors).count d = 0 := by
    cases d <;> rfl
  rw [hcount, hstart, Nat.zero_add]
  rfl

theorem hardFailures_of : (of cs loadErrors).hardFailures = cs.countP (·.isHardFailure) := by
  have hsum : (of cs loadErrors).hardFailures = 0 + cs.countP (·.isHardFailure) :=
    foldl_add (f := hardFailures) (fun _ _ => hardFailures_add) cs (start loadErrors)
  rw [hsum, Nat.zero_add]

theorem inconclusive_of : (of cs loadErrors).inconclusive = cs.countP (·.isInconclusive) := by
  have hsum : (of cs loadErrors).inconclusive = 0 + cs.countP (·.isInconclusive) :=
    foldl_add (f := inconclusive) (fun _ _ => inconclusive_add) cs (start loadErrors)
  rw [hsum, Nat.zero_add]

theorem sum_of : (Classification.all.map (of cs loadErrors).count).sum = cs.length := by
  have hsum : (Classification.all.map (of cs loadErrors).count).sum =
      0 + cs.countP fun _ => true :=
    foldl_add (f := fun t => (Classification.all.map t.count).sum) (fun _ _ => sum_add) cs
      (start loadErrors)
  rw [hsum, List.countP_true, Nat.zero_add]

end Of

end Tally

/-!
## Reports
-/

namespace Report

/-- A report has its records in order of their names, its numbers count them, and its exit
code follows from their classifications. -/
structure AddsUp (r : Report) (records : List CaseRecord) (loadErrors : List MalformedCase) :
    Prop where
  perm : r.records.Perm records
  order : r.records.Pairwise fun a b => a.caseId ≤ b.caseId
  total : r.tally.total = records.length
  slots : (Classification.all.map r.tally.count).sum = records.length
  entries : r.outcomes.length = records.length
  outcomes : ∀ c ∈ records, r.outcomes.get? c.caseId = some c.classification
  count : ∀ k, r.tally.count k = records.countP (·.classification = k)
  hardFailures : r.tally.hardFailures = records.countP (·.classification.isHardFailure)
  inconclusive : r.tally.inconclusive = records.countP (·.classification.isInconclusive)
  exitCode : r.exitCode =
    if (∃ c ∈ records, c.classification.isHardFailure = true) ∨ loadErrors ≠ [] then 1
    else if r.strict ∧ ∃ c ∈ records, c.classification.isInconclusive = true then 4
    else 0

section Records

variable {s : Settings} {records : List CaseRecord} {loadErrors : List MalformedCase}
  {durationMs : Nat}

theorem records_perm : (Report.of s records loadErrors durationMs).records.Perm records :=
  List.mergeSort_perm records recordLe

theorem classifications_perm :
    ((Report.of s records loadErrors durationMs).records.map (·.classification)).Perm
      (records.map (·.classification)) :=
  records_perm.map _

theorem length_loadErrors :
    (Report.of s records loadErrors durationMs).loadErrors.length = loadErrors.length :=
  (List.mergeSort_perm loadErrors malformedLe).length_eq

theorem countP_classifications (p : Classification → Bool) :
    ((Report.of s records loadErrors durationMs).records.map (·.classification)).countP p =
      records.countP fun c => p c.classification := by
  rw [classifications_perm.countP_eq, List.countP_map]
  rfl

theorem outcomes_eq (hids : (records.map (·.caseId)).Nodup) :
    (Report.of s records loadErrors durationMs).outcomes =
        (Report.of s records loadErrors durationMs).records.map
          (fun c => (c.caseId, c.classification)) ∧
      Assoc.Distinct (Report.of s records loadErrors durationMs).outcomes := by
  have hdistinct : Assoc.Distinct ((Report.of s records loadErrors durationMs).records.map
      fun c => (c.caseId, c.classification)) := by
    unfold Assoc.Distinct
    rw [List.map_map]
    exact ((records_perm.map _).nodup_iff).mpr hids
  have heq := Assoc.ofList_of_distinct hdistinct
  unfold outcomes
  rw [heq]
  exact ⟨rfl, hdistinct⟩

theorem exitCode_eq (t : Tally) (strict : Bool) :
    (t.overall strict).exitCode =
      if t.hardFailures > 0 ∨ t.loadErrors > 0 then 1
      else if strict ∧ t.inconclusive > 0 then 4
      else 0 := by
  unfold Tally.overall
  split
  · rfl
  · split <;> rfl

theorem addsUp_of (hids : (records.map (·.caseId)).Nodup) :
    (Report.of s records loadErrors durationMs).AddsUp records loadErrors := by
  have hhard : (Report.of s records loadErrors durationMs).tally.hardFailures =
      records.countP (·.classification.isHardFailure) := by
    rw [tally, Tally.hardFailures_of, countP_classifications]
  have hopen : (Report.of s records loadErrors durationMs).tally.inconclusive =
      records.countP (·.classification.isInconclusive) := by
    rw [tally, Tally.inconclusive_of, countP_classifications]
  refine ⟨records_perm, ?_, ?_, ?_, ?_, ?_, ?_, hhard, hopen, ?_⟩
  · exact (pairwise_recordLe records).imp nameLe_iff.mp
  · rw [tally, Tally.total_of, List.length_map, records_perm.length_eq]
  · rw [tally, Tally.sum_of, List.length_map, records_perm.length_eq]
  · rw [(outcomes_eq hids).1, List.length_map, records_perm.length_eq]
  · intro c hc
    apply Assoc.get?_of_mem (outcomes_eq hids).2
    rw [(outcomes_eq hids).1]
    exact List.mem_map.mpr ⟨c, records_perm.mem_iff.mpr hc, rfl⟩
  · intro k
    rw [tally, Tally.count_of, List.count_eq_countP, countP_classifications]
    exact List.countP_congr fun c _ => by simp
  · have hload : (Report.of s records loadErrors durationMs).tally.loadErrors =
        loadErrors.length := by
      rw [tally, Tally.loadErrors_of, length_loadErrors]
    unfold exitCode overall
    rw [exitCode_eq, hhard, hopen, hload]
    simp only [gt_iff_lt, List.countP_pos_iff, List.length_pos_iff]

end Records

/-- Records that are the same up to their order and their times give the same report, up to
the times. -/
theorem agrees_of_perm {s : Settings} {records records' : List CaseRecord}
    {loadErrors : List MalformedCase} {durationMs durationMs' : Nat}
    (hids : (records.map (·.caseId)).Nodup)
    (hperm : (records.map (·.untimed)).Perm (records'.map (·.untimed))) :
    (Report.of s records loadErrors durationMs).Agrees
      (Report.of s records' loadErrors durationMs') := by
  refine agrees_of_records ?_ rfl rfl
  have hids' : ((records.map (·.untimed)).map (·.caseId)).Nodup := by
    rw [List.map_map]
    exact hids
  show (records.mergeSort recordLe).map _ = (records'.mergeSort recordLe).map _
  rw [map_untimed_mergeSort, map_untimed_mergeSort]
  exact mergeSort_eq_of_perm hperm hids'

/-- The numbers, the outcomes and the exit code of a report follow from the classifications of
its records, whose order and times do not matter. -/
theorem report_adds_up {records : List CaseRecord} (hids : (records.map (·.caseId)).Nodup)
    (s : Settings) (loadErrors : List MalformedCase) (durationMs : Nat) :
    (Report.of s records loadErrors durationMs).AddsUp records loadErrors ∧
      (Report.of s records loadErrors durationMs).strict = s.policy.strict ∧
      ∀ (records' : List CaseRecord) (durationMs' : Nat),
        (records.map (·.untimed)).Perm (records'.map (·.untimed)) →
          (Report.of s records loadErrors durationMs).Agrees
            (Report.of s records' loadErrors durationMs') :=
  ⟨addsUp_of hids, rfl, fun _ _ hperm => agrees_of_perm hids hperm⟩

def endedRecord (id : String) (k : Classification) (durationMs : Nat) : CaseRecord :=
  ⟨id, [], "", .done, k, none, none, none, none, none, durationMs⟩

/-- A strict run with an open case, and the same run in another order and at another speed. -/
theorem report_adds_up_open :
    (Report.of { Settings.default with policy := ⟨true⟩ }
        [endedRecord "b" .unknown 17, endedRecord "a" .equivalent 17] [] 1).exitCode = 4 ∧
      (Report.of { Settings.default with policy := ⟨true⟩ }
        [endedRecord "b" .unknown 17, endedRecord "a" .equivalent 17] [] 1).Agrees
      (Report.of { Settings.default with policy := ⟨true⟩ }
        [endedRecord "a" .equivalent 9000, endedRecord "b" .unknown 17] [] 3000) := by
  have hids : ([endedRecord "b" .unknown 17, endedRecord "a" .equivalent 17].map
      (·.caseId)).Nodup := by
    decide
  rcases report_adds_up hids { Settings.default with policy := ⟨true⟩ } [] 1 with
    ⟨hadds, _, hagrees⟩
  constructor
  · rw [hadds.exitCode]
    decide
  · apply hagrees
    exact List.Perm.swap _ _ _

end Report
end Bench
end BitEquiv
