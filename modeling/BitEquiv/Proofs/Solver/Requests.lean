import BitEquiv.Proofs.Solver.Search
import BitEquiv.Proofs.Solver.Witnesses

/-!
# Models over requested names

Both inputs and definitions can be requested. A search and a model checker give every
requested input its value in the assignment that was found. Neither of them evaluates the
definitions: a search leaves them out of its models, and a model checker makes them zero.
-/

namespace BitEquiv
namespace Logic
namespace Query

def Declares (q : Query) (wanted : List (String × BvSort)) : Prop :=
  ∀ pair ∈ wanted, pair ∈ q.inputs ∨ ∃ d ∈ q.definitions, pair = (d.name, d.sort)

theorem WellFormed.scope_of_declares {q : Query} (hq : q.WellFormed)
    {wanted : List (String × BvSort)} (hwanted : q.Declares wanted) {x : String} {s : BvSort}
    (hx : (x, s) ∈ wanted) : q.scope x = some s := by
  rcases hwanted (x, s) hx with hinput | ⟨d, hd, heq⟩
  · exact hq.scope_input (Assoc.get?_of_mem hq.distinct hinput)
  · cases heq
    exact hq.scope_definition hd

end Query
end Logic

namespace Solver

open Logic

/-- A model over requested names. Inputs have their values in `env`. The value of a definition
is what `defined` gives for its sort, whatever it is in `env`. -/
structure ModelOver (q : Query) (defined : BvSort → Option Value) (env : Env)
    (wanted : List (String × BvSort)) (model : Model) : Prop where
  input : ∀ x s, (x, s) ∈ q.inputs → (x, s) ∈ wanted →
    ∃ v, v.InSort s ∧ env.get? x = some v ∧ model.get? x = some v
  definition : ∀ d ∈ q.definitions, (d.name, d.sort) ∈ wanted →
    model.get? d.name = defined d.sort
  other : ∀ x, Assoc.get? wanted x = none → model.get? x = none

section Models

variable {q : Query} (hq : q.WellFormed) {wanted : List (String × BvSort)} {model : Model}

include hq

theorem ModelOver.evaluate {defined : BvSort → Option Value} {given env : Env}
    (henv : q.evaluate given = .ok env) (h : ModelOver q defined given wanted model) :
    ModelOver q defined env wanted model := by
  constructor
  case input =>
    intro x s hx hmem
    rcases h.input x s hx hmem with ⟨v, hsort, hgiven, hmodel⟩
    exact ⟨v, hsort, hq.get?_evaluate henv (Assoc.get?_of_mem hq.distinct hx) hgiven, hmodel⟩
  case definition => exact h.definition
  case other => exact h.other

theorem modelOver_assignment (wanted : List (String × BvSort)) (n : Nat) :
    ModelOver q (fun _ => none) (Exhaustive.assignment q.inputs n []) wanted
      (Exhaustive.modelOver wanted (Exhaustive.assignment q.inputs n [])) := by
  constructor
  case input =>
    intro x s hx hmem
    rcases Exhaustive.inSort_assignment hq.distinct (Assoc.get?_of_mem hq.distinct hx) n [] with
      ⟨v, hv, hsort⟩
    refine ⟨v, hsort, hv, ?_⟩
    rw [Exhaustive.get?_modelOver, if_pos, hv]
    rw [Option.isSome_iff_ne_none]
    intro hnone
    exact Assoc.get?_eq_none_iff.mp hnone (x, s) hmem rfl
  case definition =>
    intro d hd _
    have hnew := Exhaustive.get?_assignment_of_new (hq.sorted.fresh d hd) n []
    rw [Exhaustive.get?_modelOver, hnew, Assoc.get?_nil, ite_self]
  case other =>
    intro x hx
    rw [Exhaustive.get?_modelOver, hx]
    rfl

/-- A request is answered with what its name and its sort stand for. -/
theorem get?_ofList_requested (hwanted : q.Declares wanted) {x : String} {s : BvSort}
    (hx : (x, s) ∈ wanted) (value : String → BvSort → Value) :
    Assoc.get? (Assoc.ofList (wanted.map fun (x, s) => (x, value x s))) x = some (value x s) := by
  refine Assoc.get?_ofList_of_unique (List.mem_map.mpr ⟨(x, s), hx, rfl⟩) ?_
  intro v hv
  rcases List.mem_map.mp hv with ⟨⟨y, t⟩, hy, heq⟩
  cases heq
  have hsort : some t = some s :=
    (hq.scope_of_declares hwanted hy).symm.trans (hq.scope_of_declares hwanted hx)
  rw [Option.some.inj hsort]

theorem modelOver_witness {given : Env} (hfits : Fits (Assoc.get? q.inputs) given)
    (hwanted : q.Declares wanted) {w : Btor.Witness} {frame : Btor.Frame}
    (hframe : w.frame 0 = some frame) (hlists : External.Lists q.inputs given frame.inputs)
    (hmodel : External.witnessModel q.inputs wanted w = .ok model) :
    ModelOver q (fun s => some (.zero s)) given wanted model := by
  let values := Assoc.ofList (frame.inputs.filterMap (External.listed q.inputs given))
  rw [External.witnessModel_eq hq hfits hframe hlists wanted] at hmodel
  cases hmodel
  have hget := fun x s (hx : (x, s) ∈ wanted) => get?_ofList_requested hq hwanted hx
    fun x s => External.rawValue s ((values.get? x).getD 0)
  constructor
  case input =>
    intro x s hx hmem
    rcases List.mem_iff_getElem?.mp hx with ⟨i, hi⟩
    rcases External.exists_input hq hfits hi with ⟨v, hv, hsort⟩
    refine ⟨v, hsort, hv, ?_⟩
    refine (hget x s hmem).trans ?_
    rw [External.listed_value hlists hi hv, External.rawValue_raw hsort.1]
  case definition =>
    intro d hd hmem
    refine (hget d.name d.sort hmem).trans ?_
    rw [External.listed_eq_none (hq.sorted.fresh d hd)]
    cases d.sort <;> rfl
  case other =>
    intro x hx
    rw [Assoc.get?_ofList, Assoc.get?_eq_none_iff]
    intro pair hpair
    rcases List.mem_map.mp (List.mem_reverse.mp hpair) with ⟨⟨y, s⟩, hy, heq⟩
    cases heq
    exact Assoc.get?_eq_none_iff.mp hx (y, s) hy

end Models

namespace External

open Execution

/-- A model checker runs on the query and prints a witness, whose first frame of step zero
lists the assignment. -/
def Finds (host : Host) (setup : Setup) (q : Query) (files : Files) (given : Env) : Prop :=
  ∃ text o files' w frame, Btor.modelText q = .ok text ∧
    start host setup text files = (.ok o, files') ∧
    Btor.Witness.parse o.stdout.text = some (.ok w) ∧ w.frame 0 = some frame ∧
    Lists q.inputs given frame.inputs

theorem modelOver_of_finds {q : Query} {known : Assoc BvSort} (hvalid : q.validate = .ok known)
    {wanted : List (String × BvSort)} (hwanted : q.Declares wanted) {given : Env}
    (hfits : Fits (Assoc.get? q.inputs) given) {host : Host} {setup : Setup} {files : Files}
    (hfinds : Finds host setup q files given) {model : Model}
    (h : (decideBtor host setup q wanted files).1.asked = some (.ok (.sat model))) :
    ModelOver q (fun s => some (.zero s)) given wanted model := by
  rcases hfinds with ⟨text, o, files', w, frame, htext, hstart, hparse, hframe, hlists⟩
  unfold decideBtor at h
  rw [hvalid, htext] at h
  dsimp only at h
  rw [hstart] at h
  rcases readBtor_sat h with ⟨w', hparse', hmodel⟩
  rw [hparse] at hparse'
  cases hparse'
  exact modelOver_witness (Query.wellFormed_of_validate hvalid) hfits hwanted hframe hlists hmodel

end External

/-- A search and a model checker report what the inputs are in a satisfying assignment and in
the witness. A definition is left out by the one, and is zero for the other. -/
theorem models_requested {q : Query} {known : Assoc BvSort} (hvalid : q.validate = .ok known)
    {wanted : List (String × BvSort)} (hwanted : q.Declares wanted) :
    (∀ bits expired model, Exhaustive.decide bits expired q wanted = .ok (.sat model) →
        ∃ given env, Fits (Assoc.get? q.inputs) given ∧ q.Satisfied given ∧
          q.evaluate given = .ok env ∧ ModelOver q (fun _ => none) env wanted model) ∧
      ∀ host setup files given model, Fits (Assoc.get? q.inputs) given →
        External.Finds host setup q files given →
        (External.decideBtor host setup q wanted files).1.asked = some (.ok (.sat model)) →
          ∃ env, q.evaluate given = .ok env ∧
            ModelOver q (fun s => some (.zero s)) env wanted model := by
  have hq := Query.wellFormed_of_validate hvalid
  constructor
  · intro bits expired model hdecide
    rcases Exhaustive.decide_sat wanted hdecide with ⟨n, hn, hmodel⟩
    rcases hq.evaluate (Exhaustive.givenInSort_assignment hq.distinct n) with ⟨env, henv, _⟩
    have hfits : Fits (Assoc.get? q.inputs) (Exhaustive.assignment q.inputs n []) :=
      fun x s hx => Exhaustive.inSort_assignment hq.distinct hx n []
    refine ⟨_, env, hfits, Query.satisfiedBy_eq_true_iff.mp hn, henv, ?_⟩
    rw [hmodel]
    exact (modelOver_assignment hq wanted n).evaluate hq henv
  · intro host setup files given model hfits hfinds hdecide
    rcases hq.evaluate (Query.givenInSort_of_fits hfits) with ⟨env, henv, _⟩
    exact ⟨env, henv,
      (External.modelOver_of_finds hvalid hwanted hfits hfinds hdecide).evaluate hq henv⟩

def successor : Query where
  inputs := [("x", .bitVec 8)]
  definitions := [⟨"y", .bitVec 8, .binary .add (.var "x") (.bvLit 1 8)⟩]
  assertions := [.eq (.var "x") (.bvLit 3 8)]

def bothBytes : List (String × BvSort) := [("x", .bitVec 8), ("y", .bitVec 8)]

def foundThree : Execution.Outcome :=
  External.printed (.exited 0) "sat\nb0\n#0\n@0\n0 00000011 x@0\n.\n"

theorem decide_successor :
    Exhaustive.decide 8 (fun _ => false) successor bothBytes =
      .ok (.sat [("x", .word 3 8)]) := by
  rfl

theorem decideBtor_successor :
    (External.decideBtor (External.hostOf foundThree) External.rootSetup successor bothBytes
      .empty).1.asked = some (.ok (.sat [("x", .word 3 8), ("y", .word 0 8)])) := by
  decide +kernel

theorem fits_successor : Fits (Assoc.get? successor.inputs) [("x", .word 3 8)] := by
  intro x s hx
  cases List.mem_singleton.mp (Assoc.mem_of_get? hx)
  exact ⟨_, rfl, rfl, rfl⟩

theorem finds_successor :
    External.Finds (External.hostOf foundThree) External.rootSetup successor .empty
      [("x", .word 3 8)] := by
  have hvalid : successor.validate = .ok bothBytes := rfl
  rcases Btor.modelText_ok (Query.wellFormed_of_validate hvalid) with ⟨text, htext⟩
  have hparse : Btor.Witness.parse foundThree.stdout.text =
      some (.ok ⟨[.bad 0], [⟨0, [], [⟨0, none, "00000011".toList, some "x@0".toList⟩]⟩]⟩) := by
    decide +kernel
  refine ⟨text, foundThree, _, _, _, htext, Prod.ext (External.start_hostOf _ _) rfl, hparse,
    rfl, ?_⟩
  have hwrites : Text.Writes 2 "00000011".toList 3 :=
    Text.writes_of_ofDigits (by decide) rfl
  constructor
  case written =>
    refine List.forall_mem_singleton.mpr ?_
    exact ⟨"x", .bitVec 8, .word 3 8, rfl, rfl, rfl, hwrites⟩
  case complete =>
    intro i x s v hi _ _
    match i, hi with
    | 0, _ => exact ⟨_, List.mem_singleton_self _, rfl⟩

/-- Both answers have the input, and neither has the value of the definition. -/
theorem models_requested_successor :
    (∃ given env, successor.Satisfied given ∧ successor.evaluate given = .ok env ∧
        ModelOver successor (fun _ => none) env bothBytes [("x", .word 3 8)]) ∧
      ∃ env, successor.evaluate [("x", .word 3 8)] = .ok env ∧
        ModelOver successor (fun s => some (.zero s)) env bothBytes
          [("x", .word 3 8), ("y", .word 0 8)] := by
  have hvalid : successor.validate = .ok bothBytes := rfl
  have hwanted : successor.Declares bothBytes := by
    intro pair hpair
    rcases List.mem_cons.mp hpair with hx | hy
    · exact Or.inl (List.mem_singleton.mpr hx)
    · exact Or.inr ⟨_, List.mem_singleton_self _, List.mem_singleton.mp hy⟩
  rcases models_requested hvalid hwanted with ⟨hsearch, hcheck⟩
  constructor
  · rcases hsearch _ _ _ decide_successor with ⟨given, env, _, hsatisfied, henv, hmodel⟩
    exact ⟨given, env, hsatisfied, henv, hmodel⟩
  · exact hcheck _ _ _ _ _ fits_successor finds_successor decideBtor_successor

/-- The only byte that satisfies the query has another one behind it, which is not zero. -/
theorem models_omit_definition :
    (∃ known, successor.validate = .ok known) ∧
      successor.evaluate [("x", .word 3 8)] = .ok [("x", .word 3 8), ("y", .word 4 8)] ∧
      Exhaustive.decide 8 (fun _ => false) successor bothBytes =
        .ok (.sat [("x", .word 3 8)]) ∧
      (External.decideBtor (External.hostOf foundThree) External.rootSetup successor bothBytes
        .empty).1.asked = some (.ok (.sat [("x", .word 3 8), ("y", .word 0 8)])) := by
  exact ⟨⟨bothBytes, rfl⟩, rfl, decide_successor, decideBtor_successor⟩

end Solver
end BitEquiv
