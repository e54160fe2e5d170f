import BitEquiv.Proofs.Btor.Witnesses
import BitEquiv.Proofs.Smt.Answers
import BitEquiv.Solver.External

/-!
# A failing solver never decides

A decision comes only from an output that says it. A run that a limit ended decides nothing,
whatever it printed, and every other output is an error. The reader of witnesses has one gap:
it breaks off at some properties, without an error.
-/

namespace BitEquiv
namespace Solver

open Logic Execution

namespace External

/-!
## SMT-LIB solvers
-/

/-- The text after `sat` gives every wanted variable a value of its sort. Of two sorts for one
variable the last one counts. -/
def GivesModel (wanted : List (String × BvSort)) (rest : List Char) (model : Model) : Prop :=
  ∀ x s, (x, s) ∈ wanted → ∃ es v, Smt.SExpr.parseAll rest = .ok es ∧ model.get? x = some v ∧
    (x, v.sort) ∈ wanted ∧ (Assoc.Distinct wanted → v.sort = s) ∧ Smt.Written es x v

/-- What the outcome of an SMT-LIB solver decides. A solver that answers nothing of this kind
is reported as an error. -/
structure SmtDecides (wanted : List (String × BvSort)) (o : Outcome) (asked : Asked) : Prop where
  returns : asked ≠ none
  killed : o.termination.wasKilled = true → asked = some (.ok (.unknown o.termination.text))
  unsat : o.termination.wasKilled = false →
    (asked = some (.ok .unsat) ↔
      ∃ rest, Smt.answerOf o.stdout.text = some ("unsat".toList, rest))
  sat : ∀ model, asked = some (.ok (.sat model)) → o.termination.wasKilled = false ∧
    ∃ rest, Smt.answerOf o.stdout.text = some ("sat".toList, rest) ∧ GivesModel wanted rest model
  unknown : o.termination.wasKilled = false → ∀ reason, asked = some (.ok (.unknown reason)) →
    ∃ rest, Smt.answerOf o.stdout.text = some ("unknown".toList, rest)

theorem givesModel_of_readModel {wanted : List (String × BvSort)} {rest : List Char}
    {model : Model} (h : Smt.readModel wanted rest = .ok model) :
    GivesModel wanted rest model := by
  intro x s hx
  rcases Smt.readModel_ok h with ⟨rfl, _⟩ | ⟨es, hes, hfrom, hall⟩
  · cases hx
  · rcases (Assoc.has_iff _ _).mp (hall (x, s) hx) with ⟨v, hv⟩
    rcases hfrom x v hv with ⟨hsort, hwritten⟩
    have hmem := Assoc.mem_of_get?_ofList hsort
    refine ⟨es, v, hes, hv, hmem, ?_, hwritten⟩
    intro hdistinct
    have hsorts := (Assoc.get?_of_mem hdistinct hmem).symm.trans (Assoc.get?_of_mem hdistinct hx)
    exact Option.some.inj hsorts

def decisionOf (wanted : List (String × BvSort)) (rest : List Char) :
    Smt.Status → Except SolverError Decision
  | .sat => (Smt.readModel wanted rest).map .sat
  | .unsat => .ok .unsat
  | .unknown reason => .ok (.unknown reason)

section Read

variable {command : String} {wanted : List (String × BvSort)} {o : Outcome}
  (hkilled : o.termination.wasKilled = false)

include hkilled

theorem readSmt_of_status {status : Smt.Status} {rest : List Char}
    (h : Smt.readStatus o.stdout.text = .ok (status, rest)) :
    readSmt command wanted o = decisionOf wanted rest status := by
  rw [readSmt, hkilled, if_neg Bool.false_ne_true, h]
  cases status with
  | sat => cases hmodel : Smt.readModel wanted rest <;> rfl
  | unsat => rfl
  | unknown reason => rfl

theorem readSmt_of_fault {e : SolverError} (h : Smt.readStatus o.stdout.text = .error e) :
    ∃ e', readSmt command wanted o = .error e' := by
  rw [readSmt, hkilled, if_neg Bool.false_ne_true, h]
  split
  · split <;> exact ⟨_, rfl⟩
  · exact ⟨_, rfl⟩
  all_goals rename_i heq; cases heq

/-- A run that no limit ended decides what the line that decides says. -/
theorem readSmt_ok_iff {d : Decision} :
    readSmt command wanted o = .ok d ↔
      ∃ line rest, Smt.answerOf o.stdout.text = some (line, rest) ∧
        ((line = "sat".toList ∧ ∃ model, Smt.readModel wanted rest = .ok model ∧ d = .sat model) ∨
          (line = "unsat".toList ∧ d = .unsat) ∨
          (line = "unknown".toList ∧ d = .unknown "solver returned unknown")) := by
  constructor
  · intro h
    cases hread : Smt.readStatus o.stdout.text with
    | error e =>
        rcases readSmt_of_fault hkilled hread with ⟨e', he'⟩
        rw [he'] at h
        cases h
    | ok answer =>
        rcases answer with ⟨status, rest⟩
        rw [readSmt_of_status hkilled hread] at h
        rcases Smt.readStatus_ok_iff.mp hread with ⟨line, hanswer, hline⟩
        refine ⟨line, rest, hanswer, ?_⟩
        rcases Smt.statusOf_eq_some.mp hline with ⟨rfl, rfl⟩ | ⟨rfl, rfl⟩ | ⟨rfl, rfl⟩
        · rw [decisionOf] at h
          cases hmodel : Smt.readModel wanted rest with
          | error e =>
              rw [hmodel] at h
              cases h
          | ok model =>
              rw [hmodel] at h
              exact Or.inl ⟨rfl, model, rfl, (Except.ok.inj h).symm⟩
        · exact Or.inr (Or.inl ⟨rfl, (Except.ok.inj h).symm⟩)
        · exact Or.inr (Or.inr ⟨rfl, (Except.ok.inj h).symm⟩)
  · rintro ⟨line, rest, hanswer, hline⟩
    rcases hline with ⟨rfl, model, hmodel, rfl⟩ | ⟨rfl, rfl⟩ | ⟨rfl, rfl⟩
    · have hread := Smt.readStatus_ok_iff.mpr ⟨_, hanswer, (rfl : Smt.statusOf _ = some .sat)⟩
      rw [readSmt_of_status hkilled hread, decisionOf, hmodel]
      rfl
    · have hread := Smt.readStatus_ok_iff.mpr ⟨_, hanswer, (rfl : Smt.statusOf _ = some .unsat)⟩
      rw [readSmt_of_status hkilled hread, decisionOf]
    · have hread := Smt.readStatus_ok_iff.mpr
        ⟨_, hanswer, (rfl : Smt.statusOf _ = some (.unknown "solver returned unknown"))⟩
      rw [readSmt_of_status hkilled hread, decisionOf]

end Read

theorem readSmt_decides (command : String) (wanted : List (String × BvSort)) (o : Outcome) :
    SmtDecides wanted o (some (readSmt command wanted o)) := by
  constructor
  case returns => exact Option.some_ne_none _
  case killed =>
    intro hkilled
    rw [readSmt, if_pos hkilled]
  case unsat =>
    intro hkilled
    rw [Option.some.injEq, readSmt_ok_iff hkilled]
    constructor
    · rintro ⟨line, rest, hanswer, ⟨_, _, _, ⟨⟩⟩ | ⟨rfl, _⟩ | ⟨_, ⟨⟩⟩⟩
      exact ⟨rest, hanswer⟩
    · rintro ⟨rest, hanswer⟩
      exact ⟨_, rest, hanswer, Or.inr (Or.inl ⟨rfl, rfl⟩)⟩
  case sat =>
    intro model h
    cases hkilled : o.termination.wasKilled with
    | true =>
        rw [readSmt, if_pos hkilled] at h
        cases h
    | false =>
        rcases (readSmt_ok_iff hkilled).mp (Option.some.inj h) with
          ⟨line, rest, hanswer, ⟨rfl, _, hmodel, ⟨⟩⟩ | ⟨_, ⟨⟩⟩ | ⟨_, ⟨⟩⟩⟩
        exact ⟨rfl, rest, hanswer, givesModel_of_readModel hmodel⟩
  case unknown =>
    intro hkilled reason h
    rcases (readSmt_ok_iff hkilled).mp (Option.some.inj h) with
      ⟨line, rest, hanswer, ⟨_, _, _, ⟨⟩⟩ | ⟨_, ⟨⟩⟩ | ⟨rfl, _⟩⟩
    exact ⟨rest, hanswer⟩

/-!
## BTOR2 model checkers
-/

def saysSat (s : List Char) : Bool := "sat".toList.isPrefixOf (s.dropWhile Text.isBlank)

/-- What the outcome of a model checker decides. There is neither a decision nor an error only
where reading the witness breaks off. -/
structure BtorDecides (o : Outcome) (asked : Asked) : Prop where
  killed : o.termination.wasKilled = true → asked = some (.ok (.unknown o.termination.text))
  unsat : o.termination.wasKilled = false →
    (asked = some (.ok .unsat) ↔
      o.termination = .exited 0 ∧ ∀ c ∈ o.stdout.text, Text.isBlank c = true)
  sat : ∀ model, asked = some (.ok (.sat model)) → o.termination.wasKilled = false ∧
    ∃ w frame, Btor.Witness.parse o.stdout.text = some (.ok w) ∧ w.frame 0 = some frame
  unknown : ∀ reason, asked = some (.ok (.unknown reason)) → o.termination.wasKilled = true
  breaksOff : asked = none ↔ o.termination.wasKilled = false ∧
    (o.termination = .exited 0 ∨ saysSat o.stdout.text = true) ∧
    (∃ c ∈ o.stdout.text, Text.isBlank c = false) ∧ Btor.Witness.BreaksOff o.stdout.text

theorem frame_of_witnessModel {inputs wanted : List (String × BvSort)} {w : Btor.Witness}
    {model : Model} (h : witnessModel inputs wanted w = .ok model) :
    ∃ frame, w.frame 0 = some frame := by
  unfold witnessModel at h
  split at h
  · cases h
  · rename_i frame hframe
    exact ⟨frame, hframe⟩

theorem trim_isEmpty_iff {s : List Char} :
    (Text.trim s).isEmpty = true ↔ ∀ c ∈ s, Text.isBlank c = true := by
  rw [List.isEmpty_iff]
  exact Text.trimBy_eq_nil_iff

theorem isSuccess_iff {t : Termination} : t.isSuccess = true ↔ t = .exited 0 := by
  unfold Termination.isSuccess
  exact beq_iff_eq

section Read

variable {command : String} {inputs wanted : List (String × BvSort)} {o : Outcome}

theorem readBtor_of_killed (hkilled : o.termination.wasKilled = true) :
    readBtor command inputs wanted o = some (.ok (.unknown o.termination.text)) := by
  rw [readBtor, if_pos hkilled]

theorem readBtor_of_crash (hkilled : o.termination.wasKilled = false)
    (hexit : o.termination ≠ .exited 0) (hsat : saysSat o.stdout.text = false) :
    readBtor command inputs wanted o =
      some (.error (.crashed command o.termination o.log)) := by
  have hfail : (!o.termination.isSuccess && !saysSat o.stdout.text) = true := by
    rw [hsat, Bool.eq_false_iff.mpr fun h => hexit (isSuccess_iff.mp h)]
    rfl
  rw [readBtor, hkilled, if_neg Bool.false_ne_true]
  exact if_pos hfail

/-- An output that counts is blank, or read as a witness. -/
theorem readBtor_of_answer (hkilled : o.termination.wasKilled = false)
    (hanswer : o.termination = .exited 0 ∨ saysSat o.stdout.text = true) :
    readBtor command inputs wanted o =
      if (Text.trim o.stdout.text).isEmpty then some (.ok .unsat)
      else (Btor.Witness.parse o.stdout.text).map fun
        | .error e => .error (.witness e)
        | .ok w => (witnessModel inputs wanted w).map .sat := by
  have hfail : ¬ (!o.termination.isSuccess && !saysSat o.stdout.text) = true := by
    rcases hanswer with hexit | hsat
    · rw [isSuccess_iff.mpr hexit]
      exact Bool.false_ne_true
    · rw [hsat, Bool.and_comm]
      exact Bool.false_ne_true
  rw [readBtor, hkilled, if_neg Bool.false_ne_true]
  refine (if_neg hfail).trans ?_
  split
  · rfl
  · rcases Btor.Witness.parse o.stdout.text with _ | (e | w) <;> rfl

theorem readBtor_sat {model : Model}
    (h : readBtor command inputs wanted o = some (.ok (.sat model))) :
    ∃ w, Btor.Witness.parse o.stdout.text = some (.ok w) ∧
      witnessModel inputs wanted w = .ok model := by
  cases hkilled : o.termination.wasKilled with
  | true =>
      rw [readBtor_of_killed hkilled] at h
      cases h
  | false =>
      by_cases hanswer : o.termination = .exited 0 ∨ saysSat o.stdout.text = true
      · rw [readBtor_of_answer hkilled hanswer] at h
        split at h
        · cases h
        · rcases Option.map_eq_some_iff.mp h with ⟨read, hparse, hread⟩
          cases read with
          | error e => cases hread
          | ok w =>
              refine ⟨w, hparse, ?_⟩
              dsimp only at hread
              cases hmodel : witnessModel inputs wanted w with
              | error e =>
                  rw [hmodel] at hread
                  cases hread
              | ok found =>
                  rw [hmodel] at hread
                  cases hread
                  rfl
      · rcases not_or.mp hanswer with ⟨hexit, hsat⟩
        rw [readBtor_of_crash hkilled hexit (Bool.eq_false_iff.mpr hsat)] at h
        cases h

end Read

theorem saysSat_of_blank {s : List Char} (h : ∀ c ∈ s, Text.isBlank c = true) :
    saysSat s = false := by
  rw [saysSat, List.dropWhile_eq_nil_iff.mpr h]
  rfl

theorem not_blank_iff {s : List Char} :
    (∃ c ∈ s, Text.isBlank c = false) ↔ ¬ ∀ c ∈ s, Text.isBlank c = true := by
  simp

section Decides

variable {o : Outcome} (hkilled : o.termination.wasKilled = false)

include hkilled

theorem btorDecides_unsat (hexit : o.termination = .exited 0)
    (hblank : ∀ c ∈ o.stdout.text, Text.isBlank c = true) :
    BtorDecides o (some (.ok .unsat)) := by
  refine ⟨by simp [hkilled], fun _ => iff_of_true rfl ⟨hexit, hblank⟩, by simp, by simp, ?_⟩
  refine iff_of_false (by simp) ?_
  rintro ⟨_, _, hsome, _⟩
  exact not_blank_iff.mp hsome hblank

theorem btorDecides_sat {model : Model} {w : Btor.Witness} {frame : Btor.Frame}
    (hsome : ∃ c ∈ o.stdout.text, Text.isBlank c = false)
    (hparse : Btor.Witness.parse o.stdout.text = some (.ok w)) (hframe : w.frame 0 = some frame) :
    BtorDecides o (some (.ok (.sat model))) := by
  refine ⟨by simp [hkilled], fun _ => iff_of_false (by simp) ?_,
    fun _ _ => ⟨hkilled, w, frame, hparse, hframe⟩, by simp, iff_of_false (by simp) ?_⟩
  · rintro ⟨_, hblank⟩
    exact not_blank_iff.mp hsome hblank
  · rintro ⟨_, _, _, hbreaks⟩
    rw [Btor.Witness.parse_eq_none_iff.mpr hbreaks] at hparse
    cases hparse

theorem btorDecides_none (hanswer : o.termination = .exited 0 ∨ saysSat o.stdout.text = true)
    (hsome : ∃ c ∈ o.stdout.text, Text.isBlank c = false)
    (hparse : Btor.Witness.parse o.stdout.text = none) : BtorDecides o none := by
  have hbreaks := Btor.Witness.parse_eq_none_iff.mp hparse
  refine ⟨by simp [hkilled], fun _ => iff_of_false (by simp) ?_, by simp, by simp,
    iff_of_true rfl ⟨hkilled, hanswer, hsome, hbreaks⟩⟩
  rintro ⟨_, hblank⟩
  exact not_blank_iff.mp hsome hblank

theorem btorDecides_error {e : SolverError}
    (hread : o.termination = .exited 0 ∨ saysSat o.stdout.text = true →
      (∃ c ∈ o.stdout.text, Text.isBlank c = false) ∧
        Btor.Witness.parse o.stdout.text ≠ none) :
    BtorDecides o (some (.error e)) := by
  refine ⟨by simp [hkilled], fun _ => iff_of_false (by simp) ?_, by simp, by simp,
    iff_of_false (by simp) ?_⟩
  · rintro ⟨hexit, hblank⟩
    exact not_blank_iff.mp (hread (Or.inl hexit)).1 hblank
  · rintro ⟨_, hanswer, _, hbreaks⟩
    exact (hread hanswer).2 (Btor.Witness.parse_eq_none_iff.mpr hbreaks)

end Decides

theorem readBtor_decides (command : String) (inputs wanted : List (String × BvSort))
    (o : Outcome) : BtorDecides o (readBtor command inputs wanted o) := by
  cases hkilled : o.termination.wasKilled with
  | true =>
      rw [readBtor_of_killed hkilled]
      constructor <;> simp [hkilled]
  | false =>
      by_cases hanswer : o.termination = .exited 0 ∨ saysSat o.stdout.text = true
      · rw [readBtor_of_answer hkilled hanswer]
        by_cases hblank : ∀ c ∈ o.stdout.text, Text.isBlank c = true
        · rw [if_pos (trim_isEmpty_iff.mpr hblank)]
          refine btorDecides_unsat hkilled (hanswer.resolve_right ?_) hblank
          rw [saysSat_of_blank hblank]
          exact Bool.false_ne_true
        · rw [if_neg fun h => hblank (trim_isEmpty_iff.mp h)]
          have hsome := not_blank_iff.mpr hblank
          cases hparse : Btor.Witness.parse o.stdout.text with
          | none => exact btorDecides_none hkilled hanswer hsome hparse
          | some result =>
              have hread : Btor.Witness.parse o.stdout.text ≠ none := by
                rw [hparse]
                exact Option.some_ne_none _
              rcases result with e | w
              · exact btorDecides_error hkilled fun _ => ⟨hsome, hread⟩
              · rw [Option.map_some]
                dsimp only
                cases hmodel : witnessModel inputs wanted w with
                | error e => exact btorDecides_error hkilled fun _ => ⟨hsome, hread⟩
                | ok model =>
                    rcases frame_of_witnessModel hmodel with ⟨frame, hframe⟩
                    exact btorDecides_sat hkilled hsome hparse hframe
      · rcases not_or.mp hanswer with ⟨hexit, hsat⟩
        rw [readBtor_of_crash hkilled hexit (Bool.eq_false_iff.mpr hsat)]
        exact btorDecides_error hkilled fun h => absurd h hanswer

/-!
## Replies
-/

/-- A reply is an error where the process could not be started, and otherwise what the outcome
decides. -/
structure Reports (decides : Outcome → Asked → Prop)
    (started : Except SolverError Outcome × Files) (reply : Reply × Files) : Prop where
  files : reply.2 = started.2
  refused : ∀ e, started.1 = .error e → reply.1 = .refused e
  answered : ∀ o, started.1 = .ok o → decides o reply.1.asked ∧ reply.1.elapsedMs = o.elapsedMs

theorem reports_of_reads {decides : Outcome → Asked → Prop} {read : Outcome → Asked}
    (hread : ∀ o, decides o (read o)) (started : Except SolverError Outcome × Files) :
    Reports decides started (match started with
      | (.error e, files) => (.refused e, files)
      | (.ok o, files) => (⟨read o, o.elapsedMs⟩, files)) := by
  rcases started with ⟨e | o, files⟩
  · refine ⟨rfl, ?_, by rintro _ ⟨⟩⟩
    rintro _ ⟨⟩
    rfl
  · refine ⟨rfl, by rintro _ ⟨⟩, ?_⟩
    rintro _ ⟨⟩
    exact ⟨hread o, rfl⟩

/-- For every accepted query and every outcome of the solver's process, only an output that
says a decision gives one. -/
theorem decide_reports (host : Host) (setup : Setup) {q : Query} {known : Assoc BvSort}
    (hvalid : q.validate = .ok known) (wanted : List (String × BvSort)) (files : Files) :
    Reports (SmtDecides wanted) (start host setup (Smt.script q (wanted.map (·.1))) files)
        (decideSmt host setup q wanted files) ∧
      (∀ text, Btor.modelText q = .ok text →
        Reports BtorDecides (start host setup text files)
          (decideBtor host setup q wanted files)) ∧
      ∀ e, Btor.modelText q = .error e →
        decideBtor host setup q wanted files = (.refused (.malformedQuery e), files) := by
  refine ⟨?_, ?_, ?_⟩
  · unfold decideSmt
    rw [hvalid]
    exact reports_of_reads (readSmt_decides setup.command wanted) _
  · intro text htext
    unfold decideBtor
    rw [hvalid, htext]
    exact reports_of_reads (readBtor_decides setup.command q.inputs wanted) _
  · intro e he
    unfold decideBtor
    rw [hvalid, he]

def trueInput : Query where
  inputs := [("in_b", .bool)]
  definitions := []
  assertions := [.var "in_b"]

/-- A host on which every program ends in the same way. -/
def hostOf (o : Outcome) : Host where
  temporary := "/tmp"
  wording := Execution.FileFault.systemText
  run _ _ files := (.ok o, files)

def printed (termination : Termination) (text : String) : Outcome :=
  ⟨termination, ⟨Text.encode text.toList, false⟩, .empty, 0⟩

def rootSetup : Setup := ⟨"sh", [], .ofWall 1, "/query", false⟩

theorem start_hostOf (o : Outcome) (text : String) :
    (start (hostOf o) rootSetup text .empty).1 = .ok o := by
  have htarget : Files.empty.target "/query" = .ok ["query"] := by decide +kernel
  unfold start Files.write
  rw [show rootSetup.queryPath = "/query" from rfl, htarget]
  rfl

/-- A solver that prints an answer and is ended by its deadline has decided nothing. -/
theorem decide_reports_killed :
    trueInput.validate = .ok [("in_b", .bool)] ∧
      (decideSmt (hostOf (printed .timedOut "unsat\n")) rootSetup trueInput trueInput.inputs
          .empty).1.asked = some (.ok (.unknown "killed at wall-clock deadline")) := by
  have hvalid : trueInput.validate = .ok [("in_b", .bool)] := rfl
  refine ⟨hvalid, ?_⟩
  have hreports := (decide_reports (hostOf (printed .timedOut "unsat\n")) rootSetup hvalid
    trueInput.inputs .empty).1
  exact (hreports.answered _ (start_hostOf _ _)).1.killed rfl

/-- The answer of a model checker that stands for neither a decision nor an error. -/
theorem decideBtor_wideProperty :
    (∃ known, trueInput.validate = .ok known) ∧
      (decideBtor (hostOf (printed (.exited 0) "sat\né0\n@0\n0 1\n.\n")) rootSetup trueInput
        trueInput.inputs .empty).1.asked = none := by
  refine ⟨⟨_, rfl⟩, ?_⟩
  decide +kernel

end External
end Solver
end BitEquiv
