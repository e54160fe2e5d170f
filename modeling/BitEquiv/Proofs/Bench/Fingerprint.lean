import Mathlib
import BitEquiv.Proofs.Bench.Tally
import BitEquiv.Proofs.Text.Blank

/-!
# What a fingerprint tells

The text that is hashed has a line for each case, in order of their names: the name, a tab, the
classification and a newline. A name is plain when it has no such end of a line in it. Lines of
plain names are read back in one way only, so the text tells the names with their
classifications. Any other name looks like several cases, one for each end of a line in it and
one for what comes after the last.
-/

namespace BitEquiv
namespace Bench

/-!
## Ends of lines
-/

namespace Classification

def ending (k : Classification) : List Char := '\t' :: (k.text.toList ++ ['\n'])

theorem tab_notMem (k : Classification) : '\t' ∉ k.text.toList ++ ['\n'] := by
  cases k <;> decide

theorem newline_notMem (k : Classification) : '\n' ∉ k.text.toList := by
  cases k <;> decide

theorem text_injective : Function.Injective fun k : Classification => k.text.toList := by
  intro k l
  cases k <;> cases l <;> decide

/-- A classification is read back up to the end of its line. -/
theorem eq_of_ending_append {k l : Classification} {s t : List Char}
    (h : k.ending ++ s = l.ending ++ t) : k = l ∧ s = t := by
  have htexts : k.text.toList ++ '\n' :: s = l.text.toList ++ '\n' :: t := by
    simpa only [ending, List.cons_append, List.append_assoc, List.nil_append, List.cons.injEq,
      true_and] using h
  have hk : Text.cutAt (· == '\n') (k.text.toList ++ '\n' :: s) = some (k.text.toList, s) :=
    Text.cutAt_beq_eq_some_iff.mpr ⟨rfl, k.newline_notMem⟩
  have hl : Text.cutAt (· == '\n') (l.text.toList ++ '\n' :: t) = some (l.text.toList, t) :=
    Text.cutAt_beq_eq_some_iff.mpr ⟨rfl, l.newline_notMem⟩
  rw [htexts, hl] at hk
  rcases Prod.mk.inj (Option.some.inj hk) with ⟨htext, hrest⟩
  exact ⟨text_injective htext.symm, hrest.symm⟩

end Classification

/-!
## Plain names
-/

def PlainName (name : List Char) : Prop := ∀ k : Classification, ¬ k.ending <:+: name

instance (name : List Char) : Decidable (PlainName name) :=
  decidable_of_iff (∀ k ∈ Classification.all, ¬ k.ending <:+: name)
    ⟨fun h k => h k k.mem_all, fun h k _ => h k⟩

theorem PlainName.eq_nil {u w s t : List Char} {k l : Classification} (h : PlainName (u ++ w))
    (heq : k.ending ++ s = w ++ (l.ending ++ t)) : w = [] := by
  cases w with
  | nil => rfl
  | cons c w =>
      exfalso
      rcases List.cons.inj heq with ⟨rfl, hrest⟩
      have hend : ∀ v, w ≠ (k.text.toList ++ ['\n']) ++ v := by
        rintro v rfl
        exact h k ⟨u, v, by simp [Classification.ending]⟩
      -- The end of the one line lies within the name, or the tab of the other within its word.
      rcases List.append_eq_append_iff.mp hrest with ⟨v, hw, _⟩ | ⟨v, htext, hline⟩
      · exact hend v hw
      · cases v with
        | nil => exact hend [] (by rw [htext, List.append_nil, List.append_nil])
        | cons d v =>
            have htab : '\t' = d := (List.cons.inj hline).1
            apply k.tab_notMem
            rw [htext, htab]
            simp

theorem eq_of_plainName {u v s t : List Char} {k l : Classification} (hu : PlainName u)
    (hv : PlainName v) (h : u ++ (k.ending ++ s) = v ++ (l.ending ++ t)) :
    u = v ∧ k = l ∧ s = t := by
  have hsame : u = v := by
    rcases List.append_eq_append_iff.mp h with ⟨w, rfl, hw⟩ | ⟨w, rfl, hw⟩
    · rw [hv.eq_nil hw, List.append_nil]
    · rw [hu.eq_nil hw, List.append_nil]
  subst hsame
  exact ⟨rfl, Classification.eq_of_ending_append (List.append_cancel_left h)⟩

def outcomeLine (p : String × Classification) : List Char := p.1.toList ++ p.2.ending

def PlainNames (ps : List (String × Classification)) : Prop := ∀ p ∈ ps, PlainName p.1.toList

instance (ps : List (String × Classification)) : Decidable (PlainNames ps) :=
  inferInstanceAs (Decidable (∀ p ∈ ps, PlainName p.1.toList))

theorem eq_of_outcomeLines {ps qs : List (String × Classification)} (hps : PlainNames ps)
    (hqs : PlainNames qs) (h : ps.flatMap outcomeLine = qs.flatMap outcomeLine) : ps = qs := by
  induction ps generalizing qs with
  | nil =>
      cases qs with
      | nil => rfl
      | cons q qs => simp [outcomeLine, Classification.ending] at h
  | cons p ps ih =>
      cases qs with
      | nil => simp [outcomeLine, Classification.ending] at h
      | cons q qs =>
          rcases List.forall_mem_cons.mp hps with ⟨hp, hps⟩
          rcases List.forall_mem_cons.mp hqs with ⟨hq, hqs⟩
          simp only [List.flatMap_cons, outcomeLine, List.append_assoc] at h
          rcases eq_of_plainName hp hq h with ⟨hname, hclass, hrest⟩
          rw [Prod.ext (String.toList_injective hname) hclass, ih hps hqs hrest]

/-- A name with the end of a line in it looks like two cases. -/
theorem outcomeLine_split (u v : String) (k l : Classification) :
    outcomeLine (u ++ String.ofList k.ending ++ v, l) =
      outcomeLine (u, k) ++ outcomeLine (v, l) := by
  simp [outcomeLine]

theorem exists_plainNames (p : String × Classification) :
    ∃ qs, PlainNames qs ∧ qs.flatMap outcomeLine = outcomeLine p := by
  induction hlength : p.1.toList.length using Nat.strong_induction_on generalizing p with
  | _ n ih =>
      rcases p with ⟨name, l⟩
      by_cases hplain : PlainName name.toList
      · refine ⟨[(name, l)], ?_, by simp⟩
        intro q hq
        rw [List.mem_singleton.mp hq]
        exact hplain
      · -- Both sides of an end of a line are shorter names.
        rcases not_forall.mp hplain with ⟨k, hk⟩
        rcases not_not.mp hk with ⟨u, v, hname⟩
        have hsplit : name = String.ofList u ++ String.ofList k.ending ++ String.ofList v := by
          apply String.toList_injective
          rw [← hname]
          simp
        have hlt : u.length < n ∧ v.length < n := by
          rw [← hlength, ← hname]
          simp only [List.length_append, Classification.ending, List.length_cons]
          omega
        rcases ih _ hlt.1 (String.ofList u, k) (by simp) with ⟨qs, hqs, hleft⟩
        rcases ih _ hlt.2 (String.ofList v, l) (by simp) with ⟨rs, hrs, hright⟩
        refine ⟨qs ++ rs, ?_, ?_⟩
        · exact List.forall_mem_append.mpr ⟨hqs, hrs⟩
        · rw [List.flatMap_append, hleft, hright, hsplit, outcomeLine_split]

theorem exists_reading (ps : List (String × Classification)) :
    ∃ qs, PlainNames qs ∧ qs.flatMap outcomeLine = ps.flatMap outcomeLine := by
  induction ps with
  | nil => exact ⟨[], by simp [PlainNames], rfl⟩
  | cons p ps ih =>
      rcases exists_plainNames p with ⟨qs, hqs, hfirst⟩
      rcases ih with ⟨rs, hrs, hrest⟩
      refine ⟨qs ++ rs, List.forall_mem_append.mpr ⟨hqs, hrs⟩, ?_⟩
      rw [List.flatMap_append, List.flatMap_cons, hfirst, hrest]

/-!
## Reports
-/

def CaseRecord.outcome (c : CaseRecord) : String × Classification := (c.caseId, c.classification)

namespace Report

def outcomeText (r : Report) : String :=
  String.join (r.records.map fun c => c.caseId ++ "\t" ++ c.classification.text ++ "\n")

theorem fingerprint_eq (r : Report) : r.fingerprint = hashOf r.outcomeText := rfl

theorem toList_outcomeText (r : Report) :
    r.outcomeText.toList = (r.records.map (·.outcome)).flatMap outcomeLine := by
  unfold outcomeText
  rw [String.toList_join, List.flatMap_map, List.flatMap_map]
  simp [outcomeLine, CaseRecord.outcome, Classification.ending]

/-- Two runs have the same cases with the same classifications. -/
def SameOutcomes (records records' : List CaseRecord) : Prop :=
  ∀ p, p ∈ records.map (·.outcome) ↔ p ∈ records'.map (·.outcome)

theorem nodup_outcomes {records : List CaseRecord} (hids : (records.map (·.caseId)).Nodup) :
    (records.map (·.outcome)).Nodup := by
  refine List.Nodup.of_map Prod.fst ?_
  rw [List.map_map]
  exact hids

theorem outcomes_mergeSort {records records' : List CaseRecord}
    (hids : (records.map (·.caseId)).Nodup) (hids' : (records'.map (·.caseId)).Nodup)
    (h : SameOutcomes records records') :
    (records.mergeSort recordLe).map (·.outcome) =
      (records'.mergeSort recordLe).map (·.outcome) := by
  have hsame : (records.map (·.outcome)).Perm (records'.map (·.outcome)) :=
    (List.perm_ext_iff_of_nodup (nodup_outcomes hids) (nodup_outcomes hids')).mpr h
  have hperm : ((records.mergeSort recordLe).map (·.outcome)).Perm
      ((records'.mergeSort recordLe).map (·.outcome)) :=
    ((List.mergeSort_perm records recordLe).map _).trans
      (hsame.trans ((List.mergeSort_perm records' recordLe).map _).symm)
  have hsorted : ∀ l : List CaseRecord,
      ((l.mergeSort recordLe).map (·.outcome)).Pairwise fun p q => p.1 ≤ q.1 := fun l =>
    List.pairwise_map.mpr ((pairwise_recordLe l).imp nameLe_iff.mp)
  -- The order looks at names only, so equal names must come from one record.
  refine hperm.eq_of_pairwise ?_ (hsorted records) (hsorted records')
  intro p q hp hq hpq hqp
  have hmem : q ∈ (records.mergeSort recordLe).map (·.outcome) := hperm.mem_iff.mpr hq
  rcases List.mem_map.mp hp with ⟨a, ha, rfl⟩
  rcases List.mem_map.mp hmem with ⟨b, hb, rfl⟩
  have hin : ∀ {c}, c ∈ records.mergeSort recordLe → c ∈ records :=
    fun hc => (List.mergeSort_perm records recordLe).mem_iff.mp hc
  rw [List.inj_on_of_nodup_map hids (hin ha) (hin hb) (String.le_antisymm hpq hqp)]

theorem sameOutcomes_of_mergeSort {records records' : List CaseRecord}
    (h : (records.mergeSort recordLe).map (·.outcome) =
      (records'.mergeSort recordLe).map (·.outcome)) : SameOutcomes records records' := by
  intro p
  rw [← ((List.mergeSort_perm records recordLe).map _).mem_iff, h,
    ((List.mergeSort_perm records' recordLe).map _).mem_iff]

def Reads (r : Report) (ps : List (String × Classification)) : Prop :=
  PlainNames ps ∧ ps.flatMap outcomeLine = r.outcomeText.toList

theorem exists_reads (r : Report) : ∃ ps, r.Reads ps := by
  rcases exists_reading (r.records.map (·.outcome)) with ⟨ps, hps, hread⟩
  exact ⟨ps, hps, hread.trans r.toList_outcomeText.symm⟩

theorem reads_of_plainNames {r : Report} (h : PlainNames (r.records.map (·.outcome))) :
    r.Reads (r.records.map (·.outcome)) :=
  ⟨h, r.toList_outcomeText.symm⟩

theorem outcomeText_eq_iff {r r' : Report} {ps qs : List (String × Classification)}
    (h : r.Reads ps) (h' : r'.Reads qs) : r.outcomeText = r'.outcomeText ↔ ps = qs := by
  constructor
  · intro heq
    exact eq_of_outcomeLines h.1 h'.1 (by rw [h.2, h'.2, heq])
  · rintro rfl
    exact String.toList_injective (h.2.symm.trans h'.2)

/-- Runs of different cases with the same outcomes have the same fingerprint. When no name has
the end of a line in it, the fingerprint tells the outcomes. In general it tells the cases with
plain names that the hashed text reads as. -/
theorem fingerprint_tells {r r' : Report} {s s' : Settings} {records records' : List CaseRecord}
    {loadErrors loadErrors' : List MalformedCase} {durationMs durationMs' : Nat}
    (hr : r = .of s records loadErrors durationMs)
    (hr' : r' = .of s' records' loadErrors' durationMs')
    (hids : (records.map (·.caseId)).Nodup) (hids' : (records'.map (·.caseId)).Nodup)
    (hhash : Set.InjOn hashOf {r.outcomeText, r'.outcomeText}) :
    (SameOutcomes records records' → r.fingerprint = r'.fingerprint) ∧
      (PlainNames (records.map (·.outcome)) → PlainNames (records'.map (·.outcome)) →
        (r.fingerprint = r'.fingerprint ↔ SameOutcomes records records')) ∧
      ∃ ps qs, r.Reads ps ∧ r'.Reads qs ∧ (r.fingerprint = r'.fingerprint ↔ ps = qs) := by
  have hfingerprint : r.fingerprint = r'.fingerprint ↔ r.outcomeText = r'.outcomeText := by
    rw [fingerprint_eq, fingerprint_eq]
    exact ⟨Set.injOn_pair.mp hhash, congrArg hashOf⟩
  have hsame : SameOutcomes records records' →
      r.records.map (·.outcome) = r'.records.map (·.outcome) := by
    rw [hr, hr']
    exact outcomes_mergeSort hids hids'
  refine ⟨?_, ?_, ?_⟩
  · intro h
    apply hfingerprint.mpr
    apply String.toList_injective
    rw [toList_outcomeText, toList_outcomeText, hsame h]
  · intro hplain hplain'
    have hsorted : PlainNames (r.records.map (·.outcome)) := by
      intro p hp
      rw [hr] at hp
      exact hplain p (((List.mergeSort_perm records recordLe).map _).mem_iff.mp hp)
    have hsorted' : PlainNames (r'.records.map (·.outcome)) := by
      intro p hp
      rw [hr'] at hp
      exact hplain' p (((List.mergeSort_perm records' recordLe).map _).mem_iff.mp hp)
    rw [hfingerprint,
      outcomeText_eq_iff (reads_of_plainNames hsorted) (reads_of_plainNames hsorted')]
    constructor
    · rw [hr, hr']
      exact sameOutcomes_of_mergeSort
    · exact hsame
  · rcases r.exists_reads with ⟨ps, hps⟩
    rcases r'.exists_reads with ⟨qs, hqs⟩
    exact ⟨ps, qs, hps, hqs, hfingerprint.trans (outcomeText_eq_iff hps hqs)⟩

/-- A changed classification shows, also for a name with tabs and newlines. -/
theorem fingerprint_tells_changed :
    (Report.of .default [endedRecord "b" .unknown 17, endedRecord "a\tb\n" .equivalent 3] []
        1).fingerprint ≠
      (Report.of .default [endedRecord "a\tb\n" .inequivalent 9, endedRecord "b" .unknown 17] []
        5).fingerprint := by
  have htext : (Report.of .default [endedRecord "b" .unknown 17,
      endedRecord "a\tb\n" .equivalent 3] [] 1).outcomeText =
        "a\tb\n\tequivalent\nb\tunknown\n" := by
    cbv
  have htext' : (Report.of .default [endedRecord "a\tb\n" .inequivalent 9,
      endedRecord "b" .unknown 17] [] 5).outcomeText =
        "a\tb\n\tinequivalent\nb\tunknown\n" := by
    cbv
  have hhash : Set.InjOn hashOf
      {"a\tb\n\tequivalent\nb\tunknown\n", "a\tb\n\tinequivalent\nb\tunknown\n"} :=
    Set.injOn_pair.mpr fun h => absurd h (by decide +kernel)
  rw [← htext, ← htext'] at hhash
  intro heq
  have hsame := ((fingerprint_tells rfl rfl (by decide) (by decide) hhash).2.1 (by decide)
    (by decide)).mp heq
  exact absurd ((hsame ("a\tb\n", .equivalent)).mp (by decide)) (by decide)

/-- A case whose name has the end of a line in it is taken for two cases. -/
theorem fingerprint_merges :
    ([endedRecord "a\tequivalent\nb" .unknown 0].map (·.caseId)).Nodup ∧
      ([endedRecord "a" .equivalent 0, endedRecord "b" .unknown 0].map (·.caseId)).Nodup ∧
      ¬ SameOutcomes [endedRecord "a\tequivalent\nb" .unknown 0]
        [endedRecord "a" .equivalent 0, endedRecord "b" .unknown 0] ∧
      (Report.of .default [endedRecord "a\tequivalent\nb" .unknown 0] [] 0).fingerprint =
        (Report.of .default [endedRecord "a" .equivalent 0, endedRecord "b" .unknown 0] []
          0).fingerprint := by
  refine ⟨by decide, by decide, ?_, ?_⟩
  · intro hsame
    exact absurd ((hsame ("a", .equivalent)).mpr (by decide)) (by decide)
  · have htext : (Report.of .default [endedRecord "a\tequivalent\nb" .unknown 0] []
          0).outcomeText =
        (Report.of .default [endedRecord "a" .equivalent 0, endedRecord "b" .unknown 0] []
          0).outcomeText := by
      cbv
    exact congrArg hashOf htext

end Report

end Bench
end BitEquiv
