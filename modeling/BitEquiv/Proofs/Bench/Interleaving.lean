import BitEquiv.Bench.Run
import BitEquiv.Proofs.Bench.Pool
import BitEquiv.Proofs.Bench.Report

/-!
# Runs are the same under every interleaving

A finished run has called every case once and has one record for each, unless a call broke off;
then the run has no report, and names a case that broke off. When calls do not depend on the
calls before them, the reports of all interleavings agree.
-/

namespace BitEquiv
namespace Bench

open Execution (Files)

/-!
## Cases and their directories
-/

theorem id_of_loadCase_ok {files : Files} {id dir : String} {c : Case}
    (h : loadCase files id dir = .ok c) : c.id = id := by
  unfold loadCase at h
  dsimp only at h
  repeat' split at h
  all_goals cases h
  rfl

theorem id_of_loadCase_error {files : Files} {id dir : String} {m : MalformedCase}
    (h : loadCase files id dir = .error m) : m.id = id := by
  unfold loadCase at h
  dsimp only at h
  repeat' split at h
  all_goals cases h
  all_goals rfl

theorem Corpus.ids_of_load (found : Corpus) (files : Files) :
    ((found.load files).1.map (·.id) ++ (found.load files).2.map (·.id)).Perm found.ids := by
  rcases found with ⟨root, entries⟩
  unfold Corpus.load Corpus.ids
  dsimp only
  induction entries with
  | nil => exact .nil
  | cons entry entries ih =>
      rcases entry with ⟨id, dir⟩
      simp only [List.map_cons]
      cases hload : loadCase files id dir with
      | ok c =>
          simp only [List.filterMap_cons, List.map_cons, List.cons_append]
          rw [id_of_loadCase_ok hload]
          exact ih.cons id
      | error m =>
          simp only [List.filterMap_cons, List.map_cons]
          rw [id_of_loadCase_error hload]
          exact List.perm_middle.trans (ih.cons id)

namespace Run

theorem fst_of_prepareCases {root : String} {loaded : List Case} {files files' : Files}
    {pairs : List (Case × String)} (h : prepareCases root loaded files = (.ok pairs, files')) :
    pairs.map (·.1) = loaded := by
  induction loaded generalizing files pairs with
  | nil =>
      cases h
      rfl
  | cons c loaded ih =>
      unfold prepareCases at h
      dsimp only at h
      split at h
      · cases h
      · split at h
        · cases h
        · rename_i rest _ hrest
          cases h
          rw [List.map_cons, ih hrest]

/-- A corpus of different cases whose directories could be made. -/
structure Prepared (s : Settings) (found : Corpus) (files : Files)
    (pairs : List (Case × String)) (files' : Files) : Prop where
  distinct : found.ids.Nodup
  made : ∃ root files₁, prepare s.workDir files = (.ok root, files₁) ∧
    prepareCases root (found.load files).1 files₁ = (.ok pairs, files')

section Prepared

variable {s : Settings} {found : Corpus} {files files' : Files} {pairs : List (Case × String)}
  (h : Prepared s found files pairs files')

include h

theorem Prepared.ids_eq : pairs.map (·.1.id) = (found.load files).1.map (·.id) := by
  rcases h.made with ⟨root, files₁, _, hpairs⟩
  rw [← fst_of_prepareCases hpairs, List.map_map]
  rfl

theorem Prepared.casesUnder_eq (schedule : List Nat) (workers : Nat) (p : Pipeline) :
    (casesUnder schedule workers s p (found.load files).1 (found.load files).2 files).1 =
      conclude s p pairs (found.load files).2
        ((Pool.start workers files').run p pairs schedule) := by
  rcases h.made with ⟨root, files₁, hroot, hpairs⟩
  unfold casesUnder
  rw [hroot]
  dsimp only
  rw [hpairs]

end Prepared

/-!
## One run
-/

/-- The calls of all cases, in whatever order, give what the cases give in their order. -/
theorem filterMap_calls {α : Type} {pairs : List (Case × String)} {calls : List Call}
    (hcalls : (calls.map Call.index).Perm (List.range pairs.length)) {g : Call → Option α}
    {f : Case × String → Option α}
    (hg : ∀ call ∈ calls, ∀ pair, pairs[call.index]? = some pair → g call = f pair) :
    (calls.filterMap g).Perm (pairs.filterMap f) := by
  have hget : calls.filterMap g =
      (calls.map Call.index).filterMap fun index => pairs[index]?.bind f := by
    rw [List.filterMap_map]
    refine List.filterMap_congr fun call hcall => ?_
    have hlt : call.index < pairs.length :=
      List.mem_range.mp (hcalls.mem_iff.mp (List.mem_map_of_mem hcall))
    have hpair := List.getElem?_eq_getElem hlt
    rw [Function.comp_apply, hpair, Option.bind_some]
    exact hg call hcall _ hpair
  have hrange : (List.range pairs.length).filterMap (fun index => pairs[index]?.bind f) =
      pairs.filterMap f := by
    have hall : (List.range pairs.length).map (pairs[·]?) = pairs.map some := by
      refine List.ext_getElem (by simp) ?_
      intro i _ _
      simp
    have hbind := congrArg (List.filterMap (·.bind f)) hall
    rw [List.filterMap_map, List.filterMap_map] at hbind
    exact hbind
  rw [hget, ← hrange]
  exact hcalls.filterMap _

/-- What a finished run concludes: a report on all cases, or the name of a case that broke
off. -/
structure Concluded (p : Pipeline) (found : Corpus) (loaded : List Case)
    (pairs : List (Case × String)) (files : Files) (pool : Pool)
    (result : Except RunFault Report) : Prop where
  performed : Performed p pairs files pool.calls pool.files
  complete : (∀ call ∈ pool.calls, call.result ≠ none) → ∃ r, result = .ok r ∧
    (pool.calls.map Call.index).Perm (List.range pairs.length) ∧
    r.records.Perm (pool.calls.filterMap Call.result) ∧
    (r.records.map (·.caseId)).Perm (loaded.map (·.id)) ∧
    ∀ id ∈ found.ids,
      (r.records.map (·.caseId)).count id + (r.loadErrors.map (·.id)).count id = 1
  broken : (∃ call ∈ pool.calls, call.result = none) → ∃ call ∈ pool.calls, call.result = none ∧
    ∃ pair, pairs[call.index]? = some pair ∧ result = .error (.workerPanic pair.1.id)

section Finished

variable {s : Settings} {p : Pipeline} {found : Corpus} {files files' : Files}
  {pairs : List (Case × String)} {pool : Pool} (hprepared : Prepared s found files pairs files')
  (hpool : pool.Invariant p pairs files') (hworkers : pool.workers ≠ [])
  (hfinished : pool.isFinished = true)

include hprepared hpool hworkers hfinished

omit hprepared hworkers in
theorem conclude_of_panicked {index : Nat} (hindex : pool.panicked? = some index)
    (malformed : List MalformedCase) :
    ∃ call ∈ pool.calls, call.result = none ∧ ∃ pair, pairs[call.index]? = some pair ∧
      conclude s p pairs malformed pool = .error (.workerPanic pair.1.id) := by
  have hcall := hpool.call_of_panicked hfinished hindex
  rcases hpool.performed.exists_of_mem hcall with ⟨c, workDir, _, hpair, _⟩
  refine ⟨_, hcall, rfl, (c, workDir), hpair, ?_⟩
  unfold conclude
  rw [hindex, Option.bind_some, hpair]

omit hworkers in
theorem ids_of_calls (hcalls : (pool.calls.map Call.index).Perm (List.range pairs.length))
    (hresults : ∀ call ∈ pool.calls, call.result ≠ none) :
    (pool.records.map (·.caseId)).Perm ((found.load files).1.map (·.id)) := by
  have hids : (pool.calls.filterMap fun call => call.result.map (·.caseId)).Perm
      (pairs.filterMap fun pair => some pair.1.id) := by
    refine filterMap_calls hcalls fun call hcall pair hpair => ?_
    rcases hpool.performed.exists_of_mem hcall with ⟨c, workDir, files₁, hpair', hprocess⟩
    rw [hpair] at hpair'
    cases hpair'
    cases hresult : call.result with
    | none => exact absurd hresult (hresults call hcall)
    | some r =>
        rw [hresult] at hprocess
        rw [Option.map_some, Pipeline.caseId_of_process hprocess]
  have hrecords := (hpool.records_perm hfinished).map (·.caseId)
  rw [List.map_filterMap] at hrecords
  refine hrecords.trans (hids.trans ?_)
  rw [List.filterMap_eq_map', hprepared.ids_eq]

theorem conclude_of_quiet (hquiet : pool.panicked? = none) :
    ∃ r, conclude s p pairs (found.load files).2 pool = .ok r ∧
      r.records = pool.records.mergeSort Report.recordLe ∧
      r.loadErrors = (found.load files).2.mergeSort Report.malformedLe ∧
      r.strict = s.policy.strict ∧
      (r.records.map (·.caseId)).Perm ((found.load files).1.map (·.id)) ∧
      ∀ id ∈ found.ids,
        (r.records.map (·.caseId)).count id + (r.loadErrors.map (·.id)).count id = 1 := by
  rcases hpool.calls_of_quiet hfinished hworkers hquiet with ⟨hcalls, hresults⟩
  have hids := ids_of_calls hprepared hpool hfinished hcalls hresults
  unfold conclude
  rw [hquiet]
  refine ⟨_, rfl, rfl, rfl, rfl, ?_, ?_⟩
  · exact ((List.mergeSort_perm _ _).map _).trans hids
  · intro id hid
    have hrecords := (((List.mergeSort_perm pool.records Report.recordLe).map (·.caseId)).trans
      hids).count_eq id
    have herrors := ((List.mergeSort_perm (found.load files).2 Report.malformedLe).map
      (·.id)).count_eq id
    have hall := (found.ids_of_load files).count_eq id
    rw [List.count_append, List.count_eq_one_of_mem hprepared.distinct hid] at hall
    show ((pool.records.mergeSort Report.recordLe).map (·.caseId)).count id +
      (((found.load files).2.mergeSort Report.malformedLe).map (·.id)).count id = 1
    omega

theorem concluded : Concluded p found (found.load files).1 pairs files' pool
    (conclude s p pairs (found.load files).2 pool) := by
  constructor
  case performed => exact hpool.performed
  case complete =>
    intro hresults
    have hquiet : pool.panicked? = none := by
      cases hpanicked : pool.panicked? with
      | none => rfl
      | some index => exact absurd rfl (hresults _ (hpool.call_of_panicked hfinished hpanicked))
    rcases conclude_of_quiet hprepared hpool hworkers hfinished hquiet with
      ⟨r, hr, hrecords, _, _, hids, hone⟩
    have hcalls := (hpool.calls_of_quiet hfinished hworkers hquiet).1
    refine ⟨r, hr, hcalls, ?_, hids, hone⟩
    rw [hrecords]
    exact (List.mergeSort_perm _ _).trans (hpool.records_perm hfinished)
  case broken =>
    rintro ⟨call, hcall, hnone⟩
    cases hpanicked : pool.panicked? with
    | none =>
        exact absurd hnone ((hpool.calls_of_quiet hfinished hworkers hpanicked).2 call hcall)
    | some index => exact conclude_of_panicked hpool hfinished hpanicked _

end Finished

/-!
## All runs
-/

/-- A call comes to the same, up to times, whatever was called before: in every row of calls
in which no case is called twice, a case has its own outcome. -/
def Independent (p : Pipeline) (pairs : List (Case × String)) (files : Files)
    (outcome : Case × String → Option CaseRecord) : Prop :=
  ∀ calls files', Performed p pairs files calls files' → (calls.map Call.index).Nodup →
    ∀ call ∈ calls, ∀ pair, pairs[call.index]? = some pair →
      call.result.map (·.untimed) = outcome pair

section Outcomes

variable {s : Settings} {p : Pipeline} {found : Corpus} {files files' : Files}
  {pairs : List (Case × String)} {pool : Pool} {outcome : Case × String → Option CaseRecord}
  (hprepared : Prepared s found files pairs files') (hpool : pool.Invariant p pairs files')
  (hworkers : pool.workers ≠ []) (hfinished : pool.isFinished = true)
  (houtcome : Independent p pairs files' outcome)

include hpool hfinished houtcome

theorem result_of_call {call : Call} (hcall : call ∈ pool.calls) :
    ∃ pair, pairs[call.index]? = some pair ∧ call.result.map (·.untimed) = outcome pair := by
  have hnodup : (pool.calls.map Call.index).Nodup :=
    (hpool.finished hfinished).2.nodup_iff.mpr List.nodup_range
  rcases hpool.performed.exists_of_mem hcall with ⟨c, workDir, _, hpair, _⟩
  exact ⟨_, hpair, houtcome _ _ hpool.performed hnodup call hcall _ hpair⟩

include hworkers

theorem exists_broken_iff :
    (∃ call ∈ pool.calls, call.result = none) ↔ ∃ pair ∈ pairs, outcome pair = none := by
  constructor
  · rintro ⟨call, hcall, hnone⟩
    rcases result_of_call hpool hfinished houtcome hcall with ⟨pair, hpair, hresult⟩
    refine ⟨pair, List.mem_of_getElem? hpair, ?_⟩
    rw [← hresult, hnone]
    rfl
  · rintro ⟨pair, hpair, hnone⟩
    cases hpanicked : pool.panicked? with
    | some index => exact ⟨_, hpool.call_of_panicked hfinished hpanicked, rfl⟩
    | none =>
        rcases List.getElem?_of_mem hpair with ⟨i, hi⟩
        have hlt : i < pairs.length := (List.getElem?_eq_some_iff.mp hi).1
        have hcalls := (hpool.calls_of_quiet hfinished hworkers hpanicked).1
        rcases List.mem_map.mp (hcalls.mem_iff.mpr (List.mem_range.mpr hlt)) with
          ⟨call, hcall, rfl⟩
        rcases result_of_call hpool hfinished houtcome hcall with ⟨pair', hpair', hresult⟩
        rw [hi] at hpair'
        cases hpair'
        rw [hnone] at hresult
        exact ⟨call, hcall, Option.map_eq_none_iff.mp hresult⟩

include hprepared

/-- The records are those of the cases, in order of their names. -/
theorem untimed_records (hquiet : pool.panicked? = none) {r : Report}
    (hr : conclude s p pairs (found.load files).2 pool = .ok r) :
    r.records.map (·.untimed) = (pairs.filterMap outcome).mergeSort Report.recordLe := by
  rcases conclude_of_quiet hprepared hpool hworkers hfinished hquiet with
    ⟨r', hr', hrecords, _, _, hids, _⟩
  rw [hr] at hr'
  cases hr'
  have hcalls := (hpool.calls_of_quiet hfinished hworkers hquiet).1
  have hperm : (pool.records.map (·.untimed)).Perm (pairs.filterMap outcome) := by
    refine ((hpool.records_perm hfinished).map _).trans ?_
    rw [List.map_filterMap]
    refine filterMap_calls hcalls fun call hcall pair hpair => ?_
    rcases result_of_call hpool hfinished houtcome hcall with ⟨pair', hpair', hresult⟩
    rw [hpair] at hpair'
    cases hpair'
    exact hresult
  have hdistinct : ((pool.records.map (·.untimed)).map (·.caseId)).Nodup := by
    have hloaded := ((found.ids_of_load files).nodup_iff.mpr hprepared.distinct)
    have hnodup := hids.nodup_iff.mpr (List.nodup_append.mp hloaded).1
    rw [hrecords] at hnodup
    rw [List.map_map]
    exact ((List.mergeSort_perm pool.records Report.recordLe).map _).nodup_iff.mp hnodup
  rw [hrecords, Report.map_untimed_mergeSort]
  exact Report.mergeSort_eq_of_perm hperm hdistinct

end Outcomes

def poolAfter (p : Pipeline) (pairs : List (Case × String)) (files : Files) (workers : Nat)
    (schedule : List Nat) : Pool :=
  (Pool.start workers files).run p pairs schedule

/-- What a schedule makes of a run: it ends when every worker has enough turns, and all
schedules that end it come to the same. -/
structure Interleaved (s : Settings) (p : Pipeline) (found : Corpus) (files : Files)
    (pairs : List (Case × String)) (files' : Files) (workers : Nat) (schedule : List Nat) :
    Prop where
  ends : (∀ w < workers, 3 * pairs.length + workers ≤ schedule.count w) →
    (poolAfter p pairs files' workers schedule).isFinished = true
  concluded : (poolAfter p pairs files' workers schedule).isFinished = true →
    Concluded p found (found.load files).1 pairs files' (poolAfter p pairs files' workers schedule)
      (casesUnder schedule workers s p (found.load files).1 (found.load files).2 files).1
  agrees : (poolAfter p pairs files' workers schedule).isFinished = true →
    ∀ outcome, Independent p pairs files' outcome → (∀ pair ∈ pairs, outcome pair ≠ none) →
      ∃ r, (casesUnder schedule workers s p (found.load files).1 (found.load files).2 files).1 =
          .ok r ∧
        ∀ workers' schedule', 0 < workers' →
          (poolAfter p pairs files' workers' schedule').isFinished = true →
            ∃ r', (casesUnder schedule' workers' s p (found.load files).1 (found.load files).2
              files).1 = .ok r' ∧ r.Agrees r'
  breaks : (poolAfter p pairs files' workers schedule).isFinished = true →
    ∀ outcome, Independent p pairs files' outcome → (∃ pair ∈ pairs, outcome pair = none) →
      ∃ pair ∈ pairs, outcome pair = none ∧
        (casesUnder schedule workers s p (found.load files).1 (found.load files).2 files).1 =
          .error (.workerPanic pair.1.id)

section Schedules

variable {s : Settings} {p : Pipeline} {found : Corpus} {files files' : Files}
  {pairs : List (Case × String)} (hprepared : Prepared s found files pairs files')
  {workers : Nat} (hworkers : 0 < workers) {schedule : List Nat}
  (hfinished : (poolAfter p pairs files' workers schedule).isFinished = true)

theorem invariant_poolAfter (p : Pipeline) (pairs : List (Case × String)) (files : Files)
    (workers : Nat) (schedule : List Nat) :
    (poolAfter p pairs files workers schedule).Invariant p pairs files :=
  (Pool.invariant_start p pairs workers files).run schedule

include hworkers in
theorem workers_poolAfter (p : Pipeline) (pairs : List (Case × String)) (files : Files)
    (schedule : List Nat) : (poolAfter p pairs files workers schedule).workers ≠ [] := by
  have hlength : (poolAfter p pairs files workers schedule).workers.length = workers := by
    unfold poolAfter
    rw [Pool.length_run, Pool.start, List.length_replicate]
  intro h
  rw [h, List.length_nil] at hlength
  omega

include hprepared hworkers hfinished

/-- The report of a run in which no case breaks off, up to the times in it. -/
theorem report_of_outcomes {outcome : Case × String → Option CaseRecord}
    (houtcome : Independent p pairs files' outcome) (hall : ∀ pair ∈ pairs, outcome pair ≠ none) :
    ∃ r, (casesUnder schedule workers s p (found.load files).1 (found.load files).2 files).1 =
        .ok r ∧
      r.records.map (·.untimed) = (pairs.filterMap outcome).mergeSort Report.recordLe ∧
      r.loadErrors = (found.load files).2.mergeSort Report.malformedLe ∧
      r.strict = s.policy.strict := by
  have hpool := invariant_poolAfter p pairs files' workers schedule
  have hsome := workers_poolAfter hworkers p pairs files' schedule
  have hquiet : (poolAfter p pairs files' workers schedule).panicked? = none := by
    cases hpanicked : (poolAfter p pairs files' workers schedule).panicked? with
    | none => rfl
    | some index =>
        have hbroken := (exists_broken_iff hpool hsome hfinished houtcome).mp
          ⟨_, hpool.call_of_panicked hfinished hpanicked, rfl⟩
        rcases hbroken with ⟨pair, hpair, hnone⟩
        exact absurd hnone (hall pair hpair)
  rcases conclude_of_quiet hprepared hpool hsome hfinished hquiet with
    ⟨r, hr, _, hload, hstrict, _, _⟩
  refine ⟨r, (hprepared.casesUnder_eq schedule workers p).trans hr, ?_, hload, hstrict⟩
  exact untimed_records hprepared hpool hsome hfinished houtcome hquiet hr

omit hfinished in
/-- Every interleaving of every number of workers: the run ends, it has one record for each
case or names one that broke off, and which interleaving came about shows in times only. -/
theorem casesUnder_interleaved (schedule : List Nat) :
    Interleaved s p found files pairs files' workers schedule := by
  have hpool := invariant_poolAfter p pairs files' workers schedule
  have hsome := workers_poolAfter hworkers p pairs files' schedule
  constructor
  case ends =>
    intro hcount
    exact Pool.isFinished_of_count hcount p files'
  case concluded =>
    intro hfinished
    rw [hprepared.casesUnder_eq]
    exact concluded hprepared hpool hsome hfinished
  case agrees =>
    intro hfinished outcome houtcome hall
    rcases report_of_outcomes hprepared hworkers hfinished houtcome hall with
      ⟨r, hr, hrecords, hload, hstrict⟩
    refine ⟨r, hr, ?_⟩
    intro workers' schedule' hworkers' hfinished'
    rcases report_of_outcomes hprepared hworkers' hfinished' houtcome hall with
      ⟨r', hr', hrecords', hload', hstrict'⟩
    exact ⟨r', hr', Report.agrees_of_records (hrecords.trans hrecords'.symm)
      (hload.trans hload'.symm) (hstrict.trans hstrict'.symm)⟩
  case breaks =>
    intro hfinished outcome houtcome hbroken
    have hcalls := (exists_broken_iff hpool hsome hfinished houtcome).mpr hbroken
    rcases (concluded hprepared hpool hsome hfinished).broken hcalls with
      ⟨call, hcall, hnone, pair, hpair, hresult⟩
    rcases result_of_call hpool hfinished houtcome hcall with ⟨pair', hpair', houtcome'⟩
    rw [hpair] at hpair'
    cases hpair'
    refine ⟨pair, List.mem_of_getElem? hpair, ?_, (hprepared.casesUnder_eq _ _ _).trans hresult⟩
    rw [← houtcome', hnone]
    rfl

end Schedules

theorem isFinished_rounds (p : Pipeline) (pairs : List (Case × String)) (files : Files)
    (workers : Nat) :
    (poolAfter p pairs files workers (Pool.rounds workers pairs.length)).isFinished = true := by
  refine Pool.isFinished_of_count ?_ p files
  intro w hw
  exact Nat.le_of_eq (Pool.count_rounds pairs.length hw).symm

theorem corpus_eq_casesUnder {s : Settings} {found : Corpus} {files files' : Files}
    {pairs : List (Case × String)} (hfound : Corpus.discover files s.corpus = .ok found)
    (hprepared : Prepared s found files pairs files') (p : Pipeline) (processors : Nat) :
    ∃ workers schedule, 0 < workers ∧
      corpus s p processors files =
        casesUnder schedule workers s p (found.load files).1 (found.load files).2 files ∧
      (poolAfter p pairs files' workers schedule).isFinished = true := by
  have hlength : (found.load files).1.length = pairs.length := by
    simpa using (congrArg List.length hprepared.ids_eq).symm
  refine ⟨workerCount s processors (found.load files).1.length,
    Pool.rounds (workerCount s processors (found.load files).1.length)
      (found.load files).1.length, Nat.le_max_left _ _, ?_, ?_⟩
  · unfold corpus
    rw [hfound]
    rfl
  · rw [hlength]
    exact isFinished_rounds p pairs files' _

/-!
## A corpus of two cases
-/

def caseFiles (name : String) : List (Execution.Place × Execution.Node) :=
  [([name], .directory),
   ([name, "case.toml"],
    .file (Text.encode "source = \"main.c\"\nreference = \"p.bvp\"\n".toList)),
   ([name, "main.c"], .file []),
   ([name, "p.bvp"], .file (Text.encode "program p\noutput r : bool = true\n".toList))]

def twoCases : Files := ⟨caseFiles "a" ++ caseFiles "b", [], []⟩

def twoCasesFound : Corpus := ⟨"/", [("a", "/a"), ("b", "/b"), ("x", "/x")]⟩

def noBinary (c : Case) : BuildArtifact := ⟨c.id, "main.elf", "", .failure, none, none, 3, none⟩

/-- A pipeline in which no build succeeds, and that of one case breaks off. -/
def failing (broken : Option String) : Pipeline :=
  { Pipeline.looseEnds .failure none none with
    builder := fun c _ files =>
      if broken = some c.id then (none, files) else (some (noBinary c), files) }

theorem process_failing (broken : Option String) (c : Case) (workDir : String) (files : Files) :
    ((failing broken).process c workDir files).1 =
      if broken = some c.id then none else some (Pipeline.endAtBuild c (noBinary c)).record := by
  unfold Pipeline.process Pipeline.buildStage failing
  dsimp only
  by_cases h : broken = some c.id
  · rw [if_pos h, if_pos h]
    rfl
  · rw [if_neg h, if_neg h]
    rfl

theorem independent_failing (broken : Option String) (pairs : List (Case × String))
    (files : Files) :
    Independent (failing broken) pairs files fun (c, _) =>
      if broken = some c.id then none
      else some (Pipeline.endAtBuild c (noBinary c)).record.untimed := by
  intro calls files' hperformed _ call hcall pair hpair
  rcases hperformed.exists_of_mem hcall with ⟨c, workDir, files₁, hpair', hresult⟩
  rw [hpair] at hpair'
  cases hpair'
  rw [← hresult, process_failing]
  dsimp only
  split <;> rfl

/-- The names of the cases whose directories could be made. -/
def preparedIds (s : Settings) (found : Corpus) (files : Files) : Option (List String) :=
  match prepare s.workDir files with
  | (.error _, _) => none
  | (.ok root, files₁) =>
      match prepareCases root (found.load files).1 files₁ with
      | (.error _, _) => none
      | (.ok pairs, _) => some (pairs.map (·.1.id))

theorem exists_prepared {s : Settings} {found : Corpus} {files : Files} {ids : List String}
    (hdistinct : found.ids.Nodup) (h : preparedIds s found files = some ids) :
    ∃ pairs files', Prepared s found files pairs files' ∧ pairs.map (·.1.id) = ids := by
  unfold preparedIds at h
  split at h
  · cases h
  · rename_i root files₁ hroot
    split at h
    · cases h
    · rename_i pairs files' hpairs
      exact ⟨pairs, files', ⟨hdistinct, root, files₁, hroot, hpairs⟩, Option.some.inj h⟩

/-- Two workers and one agree on a run that ends well, and name the case that breaks off. -/
theorem casesUnder_interleaved_twoCases :
    ∃ pairs files', Prepared .default twoCasesFound twoCases pairs files' ∧
      pairs.map (·.1.id) = ["a", "b"] ∧
      (∃ r r', (casesUnder (Pool.rounds 2 pairs.length) 2 .default (failing none)
            (twoCasesFound.load twoCases).1 (twoCasesFound.load twoCases).2 twoCases).1 = .ok r ∧
          (casesUnder (Pool.rounds 1 pairs.length) 1 .default (failing none)
            (twoCasesFound.load twoCases).1 (twoCasesFound.load twoCases).2 twoCases).1 = .ok r' ∧
          r.Agrees r') ∧
      ∃ pair ∈ pairs, pair.1.id = "b" ∧
        (casesUnder (Pool.rounds 2 pairs.length) 2 .default (failing (some "b"))
          (twoCasesFound.load twoCases).1 (twoCasesFound.load twoCases).2 twoCases).1 =
            .error (.workerPanic pair.1.id) := by
  have hids : preparedIds .default twoCasesFound twoCases = some ["a", "b"] := by decide +kernel
  rcases exists_prepared (by decide) hids with ⟨pairs, files', hprepared, hpairs⟩
  refine ⟨pairs, files', hprepared, hpairs, ?_, ?_⟩
  · have hinterleaved := casesUnder_interleaved (p := failing none) hprepared (Nat.zero_lt_two)
      (Pool.rounds 2 pairs.length)
    have hall : ∀ pair ∈ pairs, (if none = some pair.1.id then none
        else some (Pipeline.endAtBuild pair.1 (noBinary pair.1)).record.untimed) ≠ none := by
      rintro pair _ ⟨⟩
    rcases hinterleaved.agrees (isFinished_rounds _ _ _ _) _ (independent_failing none pairs files')
      hall with ⟨r, hr, hsame⟩
    rcases hsame 1 _ Nat.zero_lt_one (isFinished_rounds _ _ _ _) with ⟨r', hr', hagrees⟩
    exact ⟨r, r', hr, hr', hagrees⟩
  · have hinterleaved := casesUnder_interleaved (p := failing (some "b")) hprepared
      (Nat.zero_lt_two) (Pool.rounds 2 pairs.length)
    have hb : "b" ∈ pairs.map (·.1.id) := by
      rw [hpairs]
      decide
    rcases List.mem_map.mp hb with ⟨pair, hpair, hid⟩
    rcases hinterleaved.breaks (isFinished_rounds _ _ _ _) _
      (independent_failing (some "b") pairs files') ⟨pair, hpair, by simp [hid]⟩ with
      ⟨pair', hpair', hnone, hresult⟩
    refine ⟨pair', hpair', ?_, hresult⟩
    by_contra hother
    dsimp only at hnone
    rw [if_neg fun h => hother (Option.some.inj h).symm] at hnone
    cases hnone

end Run
end Bench
end BitEquiv
