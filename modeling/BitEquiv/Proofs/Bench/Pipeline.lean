import BitEquiv.Bench.Pipeline

/-!
# The stages of a case

Whatever its ports answer, a case takes allowed steps only and ends in one of three ways: its
build failed, its run gave no representation, or it has a verdict. The record accounts for
the way that it ended, and no port is asked after that.
-/

namespace BitEquiv
namespace Bench

open Execution (Files)

/-!
## Allowed steps
-/

inductive Leads : CaseState → List (CaseState × CaseState) → CaseState → Prop where
  | here (s : CaseState) : Leads s [] s
  | step {s t u : CaseState} {steps : List (CaseState × CaseState)} (hst : s.canAdvanceTo t = true)
      (htu : Leads t steps u) : Leads s ((s, t) :: steps) u

theorem Leads.append {s t u : CaseState} {steps : List (CaseState × CaseState)}
    (hst : Leads s steps t) (htu : t.canAdvanceTo u = true) :
    Leads s (steps ++ [(t, u)]) u := by
  induction hst with
  | here s => exact .step htu (.here u)
  | step h _ ih => exact .step h (ih htu)

namespace Walk

/-- A case began before its first stage, and took allowed steps only. -/
def Lawful (w : Walk) : Prop := Leads .pending w.steps w.state

theorem lawful_start : start.Lawful := .here .pending

theorem Lawful.advance {w : Walk} (h : w.Lawful) {next : CaseState}
    (hnext : w.state.canAdvanceTo next = true) : (w.advance next).Lawful :=
  Leads.append h hnext

end Walk

namespace Pipeline

/-!
## The ways a case ends
-/

/-- The ports of a pipeline always answer. What they answer is free. -/
structure Answers (p : Pipeline) : Prop where
  builder : ∀ c workDir files, (p.builder c workDir files).1 ≠ none
  subject : ∀ c a workDir files, (p.subject c a workDir files).1 ≠ none
  decider : ∀ q timeoutSecs dumpDir files,
    (p.checker.decider.decide q timeoutSecs dumpDir files).1 ≠ none

def endAtBuild (c : Case) (a : BuildArtifact) : Ended :=
  { CaseRecord.fresh c with artifact := some a, durationMs := a.durationMs }.stopped
    (Walk.start.advance .building) .build (buildEnd a.failure) a.reason

def endAtRun (c : Case) (a : BuildArtifact) (t : Emission) : Ended :=
  { CaseRecord.fresh c with
      artifact := some a, emission := some t, durationMs := a.durationMs + t.durationMs }.stopped
    ((Walk.start.advance .building).advance .running) .run (runEnd t.status) t.summary

def endAtCheck (c : Case) (a : BuildArtifact) (t : Emission) (v : Verdict) (replayMs : Nat) :
    Ended :=
  { CaseRecord.fresh c with
      artifact := some a, emission := some t,
      durationMs := a.durationMs + t.durationMs + v.solverMs + replayMs }.decided
    (((Walk.start.advance .building).advance .running).advance .checking) v

/-- How a case ends, with the answers that lead there. -/
inductive Ends (p : Pipeline) (c : Case) (workDir : String) (files : Files) :
    Ended → Files → Prop where
  | build {a : BuildArtifact} {files₁ : Files}
      (hbuild : p.builder c workDir files = (some a, files₁)) (hfailed : a.isSuccess = false) :
      Ends p c workDir files (endAtBuild c a) files₁
  | run {a : BuildArtifact} {t : Emission} {files₁ files₂ : Files}
      (hbuild : p.builder c workDir files = (some a, files₁)) (hbuilt : a.isSuccess = true)
      (hrun : p.subject c a workDir files₁ = (some t, files₂))
      (hnone : t.status ≠ .completed ∨ t.representation = none) :
      Ends p c workDir files (endAtRun c a t) files₂
  | check {a : BuildArtifact} {t : Emission} {path : String} {v v' : Verdict} {replayMs : Nat}
      {files₁ files₂ files₃ files₄ : Files}
      (hbuild : p.builder c workDir files = (some a, files₁)) (hbuilt : a.isSuccess = true)
      (hrun : p.subject c a workDir files₁ = (some t, files₂))
      (hstatus : t.status = .completed) (hpath : t.representation = some path)
      (hcheck : p.checker.checkCase c workDir path files₂ = (some v, files₃))
      (hreplay : p.withReplay c a.binary v files₃ = ((v', replayMs), files₄)) :
      Ends p c workDir files (endAtCheck c a t v' replayMs) files₄

section Stages

variable {p : Pipeline} {c : Case} {workDir : String} {files files' : Files} {e : Ended}

theorem runStage_of_none {a : BuildArtifact} {t : Emission} {w : Walk} {r : CaseRecord}
    (hrun : p.subject c a workDir files = (some t, files'))
    (hnone : t.status ≠ .completed ∨ t.representation = none) :
    p.runStage c workDir a w r files =
      (some ({ r with emission := some t, durationMs := r.durationMs + t.durationMs }.stopped
        (w.advance .running) .run (runEnd t.status) t.summary), files') := by
  unfold runStage
  rw [hrun]
  dsimp only
  split
  · rename_i path hstatus hpath
    rcases hnone with h | h
    · exact absurd hstatus h
    · rw [hpath] at h
      cases h
  · rfl

theorem Ends.buildStage_eq (h : Ends p c workDir files e files') :
    p.buildStage c workDir .start (.fresh c) files = (some e, files') := by
  unfold buildStage
  cases h with
  | build hbuild hfailed =>
      rw [hbuild]
      dsimp only
      rw [hfailed]
      rfl
  | run hbuild hbuilt hrun hnone =>
      rw [hbuild]
      dsimp only
      rw [hbuilt, if_pos rfl, runStage_of_none hrun hnone]
      rfl
  | check hbuild hbuilt hrun hstatus hpath hcheck hreplay =>
      rw [hbuild]
      dsimp only
      rw [hbuilt, if_pos rfl]
      unfold runStage
      rw [hrun]
      dsimp only
      rw [hstatus, hpath]
      unfold checkStage
      dsimp only
      rw [hcheck]
      dsimp only
      rw [hreplay]
      rfl

/-- Whatever came of a case that did not break off is one of its ends. -/
theorem ends_of_buildStage
    (h : p.buildStage c workDir .start (.fresh c) files = (some e, files')) :
    Ends p c workDir files e files' := by
  unfold buildStage at h
  dsimp only at h
  split at h
  · cases h
  · rename_i a files₁ hbuild
    cases hbuilt : a.isSuccess with
    | false =>
        rw [hbuilt, if_neg Bool.false_ne_true] at h
        cases h
        exact .build hbuild hbuilt
    | true =>
        rw [hbuilt, if_pos rfl] at h
        unfold runStage at h
        dsimp only at h
        split at h
        · cases h
        · rename_i t files₂ hrun
          split at h
          · rename_i path hstatus hpath
            unfold checkStage at h
            dsimp only at h
            split at h
            · cases h
            · rename_i v files₃ hcheck
              cases h
              exact .check hbuild hbuilt hrun hstatus hpath hcheck rfl
          · rename_i hnot
            cases h
            refine .run hbuild hbuilt hrun ?_
            by_cases hstatus : t.status = .completed
            · cases hpath : t.representation with
              | none => exact Or.inr rfl
              | some path => exact absurd hpath (hnot path hstatus)
            · exact Or.inl hstatus

theorem Ends.process_eq (h : Ends p c workDir files e files') :
    p.process c workDir files = (some e.record, files') := by
  unfold process
  rw [h.buildStage_eq]
  rfl

theorem caseId_of_process {r : CaseRecord} (h : (p.process c workDir files).1 = some r) :
    r.caseId = c.id := by
  unfold process at h
  cases hstage : p.buildStage c workDir .start (.fresh c) files with
  | mk ended files' =>
      rw [hstage] at h
      rcases Option.map_eq_some_iff.mp h with ⟨e, rfl, rfl⟩
      cases ends_of_buildStage hstage <;> rfl

end Stages

theorem exists_of_answer {α : Type} {x : Option α × Files} (h : x.1 ≠ none) :
    ∃ a files, x = (some a, files) := by
  rcases x with ⟨_ | a, files⟩
  · exact absurd rfl h
  · exact ⟨a, files, rfl⟩

namespace Answers

variable {p : Pipeline} (hp : p.Answers)

include hp

theorem checkCase_ne_none (c : Case) (workDir path : String) (files : Files) :
    (p.checker.checkCase c workDir path files).1 ≠ none := by
  unfold Checker.checkCase Checker.checkFile
  split
  · exact Option.some_ne_none _
  · unfold Checker.check
    split
    · exact Option.some_ne_none _
    · split
      · exact Option.some_ne_none _
      · split
        · rename_i hnone
          have hdecider := hp.decider _ _ _ _ (congrArg Prod.fst hnone)
          exact hdecider.elim
        · exact Option.some_ne_none _

theorem exists_ends (c : Case) (workDir : String) (files : Files) :
    ∃ e files', Ends p c workDir files e files' := by
  rcases exists_of_answer (hp.builder c workDir files) with ⟨a, files₁, hbuild⟩
  cases hbuilt : a.isSuccess with
  | false => exact ⟨_, _, .build hbuild hbuilt⟩
  | true =>
      rcases exists_of_answer (hp.subject c a workDir files₁) with ⟨t, files₂, hrun⟩
      by_cases hstatus : t.status = .completed
      · cases hpath : t.representation with
        | none => exact ⟨_, _, .run hbuild hbuilt hrun (Or.inr hpath)⟩
        | some path =>
            rcases exists_of_answer (hp.checkCase_ne_none c workDir path files₂) with
              ⟨v, files₃, hcheck⟩
            exact ⟨_, _, .check hbuild hbuilt hrun hstatus hpath hcheck rfl⟩
      · exact ⟨_, _, .run hbuild hbuilt hrun (Or.inl hstatus)⟩

end Answers

/-!
## What a record accounts for
-/

def classOf : Finding → Classification
  | .equivalent => .equivalent
  | .inequivalent => .inequivalent
  | .unknown => .unknown
  | .error => .error

/-- A record tells how its case ended: by a verdict, or at a stage after which there was no
other. -/
structure Accounted (r : CaseRecord) : Prop where
  terminal : r.state.isTerminal = true
  done : r.state = .done ↔ r.verdict.isSome = true
  unskipped : r.verdict.isSome = true ↔ r.skip = none
  skipped : ∀ skip, r.skip = some skip → r.error = some ⟨skip.stage, skip.reason⟩ ∧
    (skip.stage = .build ∧ skip.skipped = [.run, .check] ∧ r.emission = none ∨
      skip.stage = .run ∧ skip.skipped = [.check] ∧ r.emission ≠ none)
  built : ∃ a, r.artifact = some a ∧ (r.emission.isSome = true ↔ a.status = .success)
  checked : r.verdict.isSome = true ↔
    ∃ t, r.emission = some t ∧ t.status = .completed ∧ t.representation.isSome = true
  buildClass : ∀ a, r.artifact = some a → a.status = .failure →
    r.classification = if a.failure = some .timeout then .buildTimeout else .buildFailed
  runClass : ∀ t, r.emission = some t → r.verdict = none →
    r.classification = if t.status = .timeout then .runTimeout else .runCrashed
  checkClass : ∀ v, r.verdict = some v → r.classification = classOf v.finding ∧
    r.error = if v.finding = .error then some ⟨.check, v.detail⟩ else none

theorem isSuccess_eq_false_iff {a : BuildArtifact} : a.isSuccess = false ↔ a.status ≠ .success := by
  rw [BuildArtifact.isSuccess, decide_eq_false_iff_not]

theorem isSuccess_eq_true_iff {a : BuildArtifact} : a.isSuccess = true ↔ a.status = .success := by
  rw [BuildArtifact.isSuccess, decide_eq_true_iff]

theorem accounted_endAtBuild (c : Case) {a : BuildArtifact} (hfailed : a.isSuccess = false) :
    Accounted (endAtBuild c a).record := by
  have hstatus := isSuccess_eq_false_iff.mp hfailed
  constructor
  case skipped =>
    rintro skip ⟨⟩
    exact ⟨rfl, Or.inl ⟨rfl, rfl, rfl⟩⟩
  case built => exact ⟨a, rfl, iff_of_false Bool.false_ne_true hstatus⟩
  case checked =>
    refine iff_of_false Bool.false_ne_true ?_
    rintro ⟨t, ⟨⟩, _⟩
  case buildClass =>
    rintro _ ⟨⟩ _
    rfl
  case runClass => rintro t ⟨⟩
  case checkClass => rintro v ⟨⟩
  all_goals simp [endAtBuild, CaseRecord.stopped, CaseRecord.fresh, Walk.advance,
    CaseState.isTerminal]

theorem runEnd_eq (s : EmissionStatus) :
    runEnd s = if s = .timeout then .runTimeout else .runCrashed := by
  cases s <;> rfl

theorem accounted_endAtRun (c : Case) {a : BuildArtifact} {t : Emission}
    (hbuilt : a.isSuccess = true) (hnone : t.status ≠ .completed ∨ t.representation = none) :
    Accounted (endAtRun c a t).record := by
  have hstatus := isSuccess_eq_true_iff.mp hbuilt
  constructor
  case skipped =>
    rintro skip ⟨⟩
    exact ⟨rfl, Or.inr ⟨rfl, rfl, Option.some_ne_none t⟩⟩
  case built => exact ⟨a, rfl, iff_of_true rfl hstatus⟩
  case checked =>
    refine iff_of_false Bool.false_ne_true ?_
    rintro ⟨_, ⟨⟩, hcompleted, hsome⟩
    rcases hnone with h | h
    · exact h hcompleted
    · rw [h] at hsome
      cases hsome
  case buildClass =>
    rintro _ ⟨⟩ hfailure
    rw [hstatus] at hfailure
    cases hfailure
  case runClass =>
    rintro _ ⟨⟩ _
    exact runEnd_eq t.status
  case checkClass => rintro v ⟨⟩
  all_goals simp [endAtRun, CaseRecord.stopped, CaseRecord.fresh, Walk.advance,
    CaseState.isTerminal]

theorem accounted_endAtCheck (c : Case) {a : BuildArtifact} {t : Emission} {path : String}
    (v : Verdict) (replayMs : Nat) (hbuilt : a.isSuccess = true)
    (hcompleted : t.status = .completed) (hpath : t.representation = some path) :
    Accounted (endAtCheck c a t v replayMs).record := by
  have hstatus := isSuccess_eq_true_iff.mp hbuilt
  constructor
  case skipped => rintro skip ⟨⟩
  case built => exact ⟨a, rfl, iff_of_true rfl hstatus⟩
  case checked =>
    refine iff_of_true rfl ⟨t, rfl, hcompleted, ?_⟩
    rw [hpath]
    rfl
  case buildClass =>
    rintro _ ⟨⟩ hfailure
    rw [hstatus] at hfailure
    cases hfailure
  case runClass => rintro _ _ ⟨⟩
  case checkClass =>
    rintro _ ⟨⟩
    refine ⟨?_, rfl⟩
    cases hfinding : v.finding <;> simp [endAtCheck, CaseRecord.decided, classOf, hfinding]
  all_goals simp [endAtCheck, CaseRecord.decided, CaseRecord.fresh, Walk.advance,
    CaseState.isTerminal]

section Ends

variable {p : Pipeline} {c : Case} {workDir : String} {files files' : Files} {e : Ended}

theorem Ends.accounted (h : Ends p c workDir files e files') : Accounted e.record := by
  cases h with
  | build _ hfailed => exact accounted_endAtBuild c hfailed
  | run _ hbuilt _ hnone => exact accounted_endAtRun c hbuilt hnone
  | check _ hbuilt _ hstatus hpath _ _ => exact accounted_endAtCheck c _ _ hbuilt hstatus hpath

theorem Ends.lawful (h : Ends p c workDir files e files') :
    e.walk.Lawful ∧ e.record.state = e.walk.state := by
  have hbuilding : (Walk.start.advance .building).Lawful := Walk.lawful_start.advance rfl
  have hrunning : ((Walk.start.advance .building).advance .running).Lawful :=
    hbuilding.advance rfl
  cases h with
  | build _ _ => exact ⟨hbuilding.advance rfl, rfl⟩
  | run _ _ _ _ => exact ⟨hrunning.advance rfl, rfl⟩
  | check _ _ _ _ _ _ _ => exact ⟨(hrunning.advance rfl).advance rfl, rfl⟩

theorem Ends.artifact (h : Ends p c workDir files e files') :
    e.record.artifact = (p.builder c workDir files).1 := by
  cases h with
  | build hbuild _ => rw [hbuild]; rfl
  | run hbuild _ _ _ => rw [hbuild]; rfl
  | check hbuild _ _ _ _ _ _ => rw [hbuild]; rfl

/-- No port of a later stage is asked: any other port there would do. -/
theorem Ends.of_skip (h : Ends p c workDir files e files') {skip : SkipRecord}
    (hskip : e.record.skip = some skip) {p' : Pipeline} (hbuilder : p'.builder = p.builder)
    (hsubject : skip.stage = .run → p'.subject = p.subject) :
    Ends p' c workDir files e files' := by
  cases h with
  | build hbuild hfailed => exact .build (hbuilder ▸ hbuild) hfailed
  | run hbuild hbuilt hrun hnone =>
      cases hskip
      exact .run (hbuilder ▸ hbuild) hbuilt (hsubject rfl ▸ hrun) hnone
  | check _ _ _ _ _ _ _ => cases hskip

end Ends

/-!
## Replays
-/

def unreplayed (r : CaseRecord) : CaseRecord :=
  { r with verdict := r.verdict.map ({ · with replay := none }), durationMs := 0 }

theorem withReplay_spec {p : Pipeline} {c : Case} {binary : String} {v v' : Verdict}
    {replayMs : Nat} {files files' : Files}
    (h : p.withReplay c binary v files = ((v', replayMs), files')) :
    ∃ evidence, v' = { v with replay := evidence } := by
  unfold withReplay at h
  split at h
  · cases h
    exact ⟨_, rfl⟩
  · cases h
    exact ⟨v.replay, rfl⟩

theorem Ends.of_replayer {p : Pipeline} {c : Case} {workDir : String} {files files' : Files}
    {e : Ended} (h : Ends p c workDir files e files') (replayer : Option Replayer) :
    ∃ e' files'', Ends { p with replayer := replayer } c workDir files e' files'' ∧
      unreplayed e'.record = unreplayed e.record := by
  cases h with
  | build hbuild hfailed => exact ⟨_, _, .build hbuild hfailed, rfl⟩
  | run hbuild hbuilt hrun hnone => exact ⟨_, _, .run hbuild hbuilt hrun hnone, rfl⟩
  | @check a t path v v' replayMs files₁ files₂ files₃ files₄ hbuild hbuilt hrun hstatus hpath
      hcheck hreplay =>
      cases hreplay' : { p with replayer := replayer }.withReplay c a.binary v files₃ with
      | mk replayed files'' =>
          rcases withReplay_spec hreplay with ⟨evidence, rfl⟩
          rcases withReplay_spec hreplay' with ⟨evidence', hv⟩
          refine ⟨_, _, .check hbuild hbuilt hrun hstatus hpath hcheck hreplay', ?_⟩
          rw [hv]
          rfl

/-!
## Cases under any ports
-/

/-- What comes of a case: an end that its steps lead to and its record accounts for. Neither
later stages nor a replay have a part in it. -/
structure Processed (p : Pipeline) (c : Case) (workDir : String) (files : Files) (e : Ended) :
    Prop where
  lawful : Leads .pending e.walk.steps e.record.state
  accounted : Accounted e.record
  artifact : e.record.artifact = (p.builder c workDir files).1
  uncalled : ∀ skip, e.record.skip = some skip → ∀ p' : Pipeline, p'.builder = p.builder →
    (skip.stage = .run → p'.subject = p.subject) →
      p'.process c workDir files = p.process c workDir files
  replay : ∀ replayer, ∃ r files',
    { p with replayer := replayer }.process c workDir files = (some r, files') ∧
      unreplayed r = unreplayed e.record

/-- Every case comes to an end, whatever the ports of its pipeline answer. -/
theorem process_ends {p : Pipeline} (hp : p.Answers) (c : Case) (workDir : String)
    (files : Files) :
    ∃ e files', p.buildStage c workDir .start (.fresh c) files = (some e, files') ∧
      p.process c workDir files = (some e.record, files') ∧ Processed p c workDir files e := by
  rcases hp.exists_ends c workDir files with ⟨e, files', h⟩
  refine ⟨e, files', h.buildStage_eq, h.process_eq, ?_⟩
  rcases h.lawful with ⟨hlawful, hstate⟩
  constructor
  case lawful =>
    rw [hstate]
    exact hlawful
  case accounted => exact h.accounted
  case artifact => exact h.artifact
  case uncalled =>
    intro skip hskip p' hbuilder hsubject
    rw [(h.of_skip hskip hbuilder hsubject).process_eq, h.process_eq]
  case replay =>
    intro replayer
    rcases h.of_replayer replayer with ⟨e', files'', h', hsame⟩
    exact ⟨e'.record, files'', h'.process_eq, hsame⟩

def emptyCase : Case where
  id := "empty"
  dir := "empty"
  source := "empty/main.c"
  reference := ⟨"empty", [], []⟩
  cflags := []
  tags := []
  notes := none
  timeouts := .none
  sourceHash := ""

/-- Ports that answer as they should not: a run that is completed without a file, or with a file
that is not there. The status of the build may contradict its kind of failure. -/
def looseEnds (status : BuildStatus) (failure : Option BuildFailure)
    (representation : Option String) : Pipeline where
  builder c _ files := (some ⟨c.id, "main.elf", "", status, failure, none, 3, none⟩, files)
  subject c _ _ files :=
    (some ⟨c.id, representation, "", .completed, none, none, none, 4⟩, files)
  checker := ⟨⟨"silent", fun _ _ _ files => (some ⟨.ok (.unknown "silent"), 5⟩, files)⟩, 1, false⟩
  replayer := none

theorem answers_looseEnds (status : BuildStatus) (failure : Option BuildFailure)
    (representation : Option String) : (looseEnds status failure representation).Answers :=
  ⟨fun _ _ _ => Option.some_ne_none _, fun _ _ _ _ => Option.some_ne_none _,
    fun _ _ _ _ => Option.some_ne_none _⟩

theorem check_unread : (looseEnds .success none (some "/translated.bvp")).checker.checkCase
      emptyCase "/" "/translated.bvp" .empty =
    (some (.plain "empty" .error
      "unparseable representation: cannot read /translated.bvp: no such file" 0), .empty) := by
  have hread : Files.empty.read? "/translated.bvp" = none := by decide +kernel
  have hreason : Files.empty.readReason "/translated.bvp" = "no such file" := by decide +kernel
  unfold Checker.checkCase Checker.checkFile loadFile
  rw [hread, hreason]
  rfl

/-- A case of these ports may end at each of its stages. -/
theorem process_ends_looseEnds :
    (∃ e files', (looseEnds .failure none none).process emptyCase "/" .empty =
        (some e.record, files') ∧
      Processed (looseEnds .failure none none) emptyCase "/" .empty e ∧
      e.record.classification = .buildFailed ∧
      e.record.skip = some ⟨.build, "built", [.run, .check]⟩) ∧
    (∃ e files', (looseEnds .success (some .timeout) none).process emptyCase "/" .empty =
        (some e.record, files') ∧
      Processed (looseEnds .success (some .timeout) none) emptyCase "/" .empty e ∧
      e.record.classification = .runCrashed ∧
      e.record.skip = some ⟨.run, "completed", [.check]⟩) ∧
    ∃ e files', (looseEnds .success none (some "/translated.bvp")).process emptyCase "/" .empty =
        (some e.record, files') ∧
      Processed (looseEnds .success none (some "/translated.bvp")) emptyCase "/" .empty e ∧
      e.record.state = .done ∧ e.record.classification = .error ∧
      e.record.verdict.map (·.finding) = some .error := by
  refine ⟨?_, ?_, ?_⟩
  · rcases process_ends (answers_looseEnds .failure none none) emptyCase "/" .empty with
      ⟨e, files', he, hprocess, hprocessed⟩
    cases he
    exact ⟨_, _, hprocess, hprocessed, rfl, rfl⟩
  · rcases process_ends (answers_looseEnds .success (some .timeout) none) emptyCase "/" .empty with
      ⟨e, files', he, hprocess, hprocessed⟩
    cases he
    exact ⟨_, _, hprocess, hprocessed, rfl, rfl⟩
  · rcases process_ends (answers_looseEnds .success none (some "/translated.bvp")) emptyCase "/"
      .empty with ⟨e, files', he, hprocess, hprocessed⟩
    rw [Ends.buildStage_eq (.check rfl rfl rfl rfl rfl check_unread rfl)] at he
    cases he
    exact ⟨_, _, hprocess, hprocessed, rfl, rfl, rfl⟩

end Pipeline
end Bench
end BitEquiv
