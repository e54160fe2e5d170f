import BitEquiv.Proofs.Btor.Totality
import BitEquiv.Proofs.Btor.WitnessText
import BitEquiv.Proofs.Logic.StandardEvaluation
import BitEquiv.Proofs.Solver.External

/-!
# Witnesses become models

An assignment of a witness names an input by its position in the query. Where the inputs that
a frame leaves out are zero, the values that it lists are the whole model.
-/

namespace BitEquiv
namespace Solver

open Logic Execution

namespace External

/-!
## Listed values
-/

/-- An assignment writes the value of the input at its position, the highest bit first and with
all bits of its sort. -/
def WritesInput (inputs : List (String × BvSort)) (env : Env) (a : Btor.Assignment) : Prop :=
  ∃ x s v, inputs[a.id]? = some (x, s) ∧ env.get? x = some v ∧ a.bits.length = s.width ∧
    Text.Writes 2 a.bits v.raw

/-- The assignments write values of inputs, in any order. Only zeros are left out. -/
structure Lists (inputs : List (String × BvSort)) (env : Env) (as : List Btor.Assignment) :
    Prop where
  written : ∀ a ∈ as, WritesInput inputs env a
  complete : ∀ i x s v, inputs[i]? = some (x, s) → env.get? x = some v → v.raw ≠ 0 →
    ∃ a ∈ as, a.id = i

/-- The input at the position of an assignment, and its value as a number. -/
def listed (inputs : List (String × BvSort)) (env : Env) (a : Btor.Assignment) :
    Option (String × Nat) :=
  inputs[a.id]?.bind fun (x, _) => (env.get? x).map fun v => (x, v.raw)

theorem rawValue_raw {v : Value} {s : BvSort} (h : v.sort = s) : rawValue s v.raw = v := by
  subst h
  cases v with
  | bool b => cases b <;> rfl
  | word bits w => rfl

theorem value_of_writes {a : Btor.Assignment} {s : BvSort} {v : Value}
    (hs : s.width ≤ maxWidth) (hv : v.InSort s) (hlength : a.bits.length = s.width)
    (hbits : Text.Writes 2 a.bits v.raw) : a.value = some v.raw := by
  have hshort : ¬a.bits.length > 128 := by
    rw [hlength]
    exact Nat.not_lt.mpr hs
  unfold Btor.Assignment.value
  rw [if_neg hshort]
  exact hbits.unsigned (by decide) (Value.raw_lt_wideLimit hv)

theorem listed_eq_some {inputs : List (String × BvSort)} {env : Env} {a : Btor.Assignment}
    {x : String} {s : BvSort} {v : Value} (hx : inputs[a.id]? = some (x, s))
    (hv : env.get? x = some v) : listed inputs env a = some (x, v.raw) := by
  unfold listed
  rw [hx, Option.bind_some]
  dsimp only
  rw [hv, Option.map_some]

theorem listed_value {inputs : List (String × BvSort)} {env : Env} {as : List Btor.Assignment}
    (has : Lists inputs env as) {i : Nat} {x : String} {s : BvSort} {v : Value}
    (hx : inputs[i]? = some (x, s)) (hv : env.get? x = some v) :
    ((Assoc.ofList (as.filterMap (listed inputs env))).get? x).getD 0 = v.raw := by
  cases hget : (Assoc.ofList (as.filterMap (listed inputs env))).get? x with
  | some n =>
      rcases List.mem_filterMap.mp (Assoc.mem_of_get?_ofList hget) with ⟨a, ha, hlisted⟩
      rcases has.written a ha with ⟨x', s', v', hx', hv', _⟩
      rw [listed_eq_some hx' hv'] at hlisted
      cases hlisted
      rw [hv] at hv'
      cases hv'
      rfl
  | none =>
      rw [Assoc.get?_ofList, Assoc.get?_eq_none_iff] at hget
      by_contra hne
      rcases has.complete i x s v hx hv (Ne.symm hne) with ⟨a, ha, rfl⟩
      have hmem := List.mem_filterMap.mpr ⟨a, ha, listed_eq_some hx hv⟩
      exact hget _ (List.mem_reverse.mpr hmem) rfl

theorem listed_eq_none {inputs : List (String × BvSort)} {x : String}
    (hx : Assoc.get? inputs x = none) (env : Env) (as : List Btor.Assignment) :
    (Assoc.ofList (as.filterMap (listed inputs env))).get? x = none := by
  cases hget : (Assoc.ofList (as.filterMap (listed inputs env))).get? x with
  | none => rfl
  | some n =>
      rcases List.mem_filterMap.mp (Assoc.mem_of_get?_ofList hget) with ⟨a, _, hlisted⟩
      rcases Option.bind_eq_some_iff.mp hlisted with ⟨⟨y, s⟩, hinput, hvalue⟩
      rcases Option.map_eq_some_iff.mp hvalue with ⟨v, _, heq⟩
      cases heq
      exact absurd rfl (Assoc.get?_eq_none_iff.mp hx _ (List.mem_of_getElem? hinput))

/-!
## The model of a frame
-/

section Query

variable {q : Query} {env : Env} (hq : q.WellFormed) (henv : Fits (Assoc.get? q.inputs) env)

include hq henv

theorem exists_input {i : Nat} {x : String} {s : BvSort} (hx : q.inputs[i]? = some (x, s)) :
    ∃ v, env.get? x = some v ∧ v.InSort s :=
  henv x s (Assoc.get?_of_mem hq.distinct (List.mem_of_getElem? hx))

theorem frameValues_listed {as : List Btor.Assignment}
    (has : ∀ a ∈ as, WritesInput q.inputs env a) (values : Assoc Nat) :
    frameValues q.inputs values as =
      .ok ((as.filterMap (listed q.inputs env)).foldl (fun m (x, n) => m.set x n) values) := by
  induction as generalizing values with
  | nil => rfl
  | cons a as ih =>
      rcases List.forall_mem_cons.mp has with ⟨⟨x, s, v, hx, hv, hlength, hbits⟩, has⟩
      rcases exists_input hq henv hx with ⟨v', hv', hsort⟩
      rw [hv] at hv'
      cases hv'
      have hvalue : a.value = some v.raw :=
        value_of_writes (hq.width_le _ (List.mem_of_getElem? hx)) hsort hlength hbits
      rw [List.filterMap_cons_some (listed_eq_some hx hv), List.foldl_cons, frameValues, hx]
      dsimp only
      rw [hvalue]
      exact ih has _

/-- Every wanted name has the value that is listed for it, or else is zero. -/
theorem witnessModel_eq {w : Btor.Witness} {frame : Btor.Frame} (hframe : w.frame 0 = some frame)
    (has : Lists q.inputs env frame.inputs) (wanted : List (String × BvSort)) :
    witnessModel q.inputs wanted w = .ok (Assoc.ofList (wanted.map fun (x, s) =>
      (x, rawValue s
        (((Assoc.ofList (frame.inputs.filterMap (listed q.inputs env))).get? x).getD 0)))) := by
  have hvalues : frameValues q.inputs [] frame.inputs =
      .ok (Assoc.ofList (frame.inputs.filterMap (listed q.inputs env))) :=
    frameValues_listed hq henv has.written []
  unfold witnessModel
  rw [hframe]
  exact except_bind_eq_ok.mpr ⟨_, hvalues, rfl⟩

/-- The model has the inputs as its names, and gives them the values of the assignment. -/
def ModelOf (q : Query) (env : Env) (model : Model) : Prop :=
  model.map (·.1) = q.inputs.map (·.1) ∧
    ∀ x ∈ q.inputs.map (·.1), model.toEnv.get? x = env.get? x

theorem witnessModel_listed {w : Btor.Witness} {frame : Btor.Frame}
    (hframe : w.frame 0 = some frame) (has : Lists q.inputs env frame.inputs) :
    ∃ model, witnessModel q.inputs q.inputs w = .ok model ∧ ModelOf q env model := by
  let model : Model := q.inputs.map fun (x, s) =>
    (x, rawValue s
      (((Assoc.ofList (frame.inputs.filterMap (listed q.inputs env))).get? x).getD 0))
  have hnames : model.map (·.1) = q.inputs.map (·.1) := by
    rw [List.map_map]
    rfl
  have hdistinct : Assoc.Distinct model := by
    unfold Assoc.Distinct
    rw [hnames]
    exact hq.distinct
  refine ⟨model, ?_, hnames, ?_⟩
  · rw [witnessModel_eq hq henv hframe has q.inputs]
    exact congrArg Except.ok (Assoc.ofList_of_distinct hdistinct)
  · intro x hx
    rcases List.mem_map.mp hx with ⟨⟨x, s⟩, hmem, rfl⟩
    rcases List.mem_iff_getElem?.mp hmem with ⟨i, hi⟩
    rcases exists_input hq henv hi with ⟨v, hv, hsort⟩
    have hvalue : Assoc.get? model x = some v := by
      refine Assoc.get?_of_mem hdistinct (List.mem_map.mpr ⟨(x, s), hmem, ?_⟩)
      dsimp only
      rw [listed_value has hi hv, rawValue_raw hsort.1]
    show Assoc.get? (Assoc.mapValues Value.canonical model) x = env.get? x
    rw [Assoc.get?_mapValues, hvalue, Option.map_some, hsort.2, hv]

end Query

/-!
## Answers of model checkers
-/

/-- A checker that prints a witness and exits without an error has found the model whose values
the first frame of step zero lists. -/
theorem readBtor_witness {command : String} {q : Query} {o : Outcome} {w : Btor.Witness}
    {model : Model} (hexit : o.termination = .exited 0)
    (hsolid : ∃ c ∈ o.stdout.text, Text.isBlank c = false)
    (hparse : Btor.Witness.parse o.stdout.text = some (.ok w))
    (hmodel : witnessModel q.inputs q.inputs w = .ok model) :
    readBtor command q.inputs q.inputs o = some (.ok (.sat model)) := by
  have hkilled : o.termination.wasKilled = false := by
    rw [hexit]
    rfl
  rw [readBtor_of_answer hkilled (Or.inl hexit),
    if_neg fun h => not_blank_iff.mp hsolid (trim_isEmpty_iff.mp h), hparse, Option.map_some]
  dsimp only
  rw [hmodel]
  rfl

/-- The witness of a checker is read as the assignment that it lists, in every layout. -/
theorem decide_witness {q : Query} {known : Assoc BvSort} (hvalid : q.validate = .ok known)
    {env : Env} (henv : Fits (Assoc.get? q.inputs) env) {w : Btor.Witness} (hw : w.Printable)
    {frame : Btor.Frame} (hframe : w.frame 0 = some frame)
    (hlists : Lists q.inputs env frame.inputs) {ls : List (List (List Char))} (hls : w.Prints ls)
    {s rest : List Char} (hs : Text.Lined ls s rest) :
    ∃ text, Btor.modelText q = .ok text ∧
      ∀ (host : Host) (setup : Setup) (files files' : Files) (o : Outcome),
        start host setup text files = (.ok o, files') → o.termination = .exited 0 →
        o.stdout.text = s →
          ∃ model, decideBtor host setup q q.inputs files =
              (⟨some (.ok (.sat model)), o.elapsedMs⟩, files') ∧ ModelOf q env model := by
  have hq := Query.wellFormed_of_validate hvalid
  rcases Btor.modelText_ok hq with ⟨text, htext⟩
  rcases witnessModel_listed hq henv hframe hlists with ⟨model, hmodel, hmodelOf⟩
  refine ⟨text, htext, ?_⟩
  rintro host setup files files' o hstart hexit rfl
  have htelling := Btor.Witness.telling_printed hw hls
  have hparse : Btor.Witness.parse o.stdout.text = some (.ok w) :=
    Btor.Witness.parse_rows hw hls (Btor.Witness.rows_of_lined hs htelling 1)
  have hsolid := hs.exists_solid (Btor.Witness.exists_words hls)
  refine ⟨model, ?_, hmodelOf⟩
  unfold decideBtor
  rw [hvalid, htext]
  dsimp only
  rw [hstart]
  dsimp only
  rw [readBtor_witness hexit hsolid hparse hmodel]

def twoInputs : Query where
  inputs := [("in_x", .bitVec 3), ("in_b", .bool)]
  definitions := []
  assertions := [.var "in_b"]

def foundWitness : Outcome :=
  printed (.exited 0) "; found\nsat\nb0\n#0\n@0\n1 1 in_b@0\n\n 0 101\n@1\n.\n"

theorem decide_witness_twoInputs :
    ∃ model,
      (decideBtor (hostOf foundWitness) rootSetup twoInputs twoInputs.inputs .empty).1.asked =
        some (.ok (.sat model)) ∧
      ModelOf twoInputs [("in_x", .word 5 3), ("in_b", .bool true)] model := by
  have hvalid : twoInputs.validate = .ok twoInputs.inputs := rfl
  have hfits : Fits (Assoc.get? twoInputs.inputs) [("in_x", .word 5 3), ("in_b", .bool true)] := by
    intro x s hx
    rcases List.mem_cons.mp (Assoc.mem_of_get? hx) with heq | hmem
    · cases heq
      exact ⟨_, rfl, rfl, rfl⟩
    · cases List.mem_singleton.mp hmem
      exact ⟨_, rfl, rfl, rfl⟩
  have hone : Text.IsDigit 2 '1' 1 := ⟨by decide, Or.inl rfl⟩
  have hzero : Text.IsDigit 2 '0' 0 := ⟨by decide, Or.inl rfl⟩
  let as : List Btor.Assignment :=
    [⟨1, none, "1".toList, some "in_b@0".toList⟩, ⟨0, none, "101".toList, none⟩]
  have hlists : Lists twoInputs.inputs [("in_x", .word 5 3), ("in_b", .bool true)] as := by
    constructor
    · refine List.forall_mem_cons.mpr ⟨?_, List.forall_mem_singleton.mpr ?_⟩
      · exact ⟨_, _, _, rfl, rfl, rfl, .digit hone⟩
      · exact ⟨_, _, .word 5 3, rfl, rfl, rfl, .more (.more (.digit hone) hzero) hone⟩
    · intro i x s v hi _ _
      match i, hi with
      | 0, _ => exact ⟨_, List.mem_cons_of_mem _ List.mem_cons_self, rfl⟩
      | 1, _ => exact ⟨_, List.mem_cons_self, rfl⟩
  have hprintable : ∀ a ∈ as, a.Printable :=
    List.forall_mem_cons.mpr ⟨⟨by decide, by decide, by decide, by decide⟩,
      List.forall_mem_singleton.mpr ⟨by decide, by decide, by decide, by decide⟩⟩
  have hfirst : Btor.Frame.Printable ⟨0, [], as⟩ :=
    ⟨by decide, List.forall_mem_nil _, hprintable⟩
  have hsecond : Btor.Frame.Printable ⟨1, [], []⟩ :=
    ⟨by decide, List.forall_mem_nil _, List.forall_mem_nil _⟩
  have hframes := List.forall_mem_cons.mpr ⟨hfirst, List.forall_mem_singleton.mpr hsecond⟩
  have hw : Btor.Witness.Printable ⟨[.bad 0], [⟨0, [], as⟩, ⟨1, [], []⟩]⟩ :=
    ⟨by decide, by decide, hframes⟩
  have hframe : Btor.Witness.frame ⟨[.bad 0], [⟨0, [], as⟩, ⟨1, [], []⟩]⟩ 0 = some ⟨0, [], as⟩ :=
    rfl
  have hdecide : ∀ s, Text.Lined _ s [] → _ := fun s =>
    decide_witness hvalid hfits hw hframe hlists
      (.mk (.cons (.both _) (.cons (.inputs rfl) .nil)))
  rcases hdecide "; found\nsat\nb0\n#0\n@0\n1 1 in_b@0\n\n 0 101\n@1\n.\n".toList <|
    .silent "; found".toList (.comment [] _ (by decide)) (by decide) <|
    .line "sat".toList (by decide) (by decide) <|
    .line "b0".toList (by decide) (by decide) <|
    .line "#0".toList (by decide) (by decide) <|
    .line "@0".toList (by decide) (by decide) <|
    .line "1 1 in_b@0".toList (by decide) (by decide) <|
    .silent [] (.blank (by decide)) (by decide) <|
    .line " 0 101".toList (by decide) (by decide) <|
    .line "@1".toList (by decide) (by decide) <|
    .line ".".toList (by decide) (by decide) <| .nil _ with ⟨text, _, hrun⟩
  have htext : foundWitness.stdout.text =
      "; found\nsat\nb0\n#0\n@0\n1 1 in_b@0\n\n 0 101\n@1\n.\n".toList := by
    decide +kernel
  rcases hrun (hostOf foundWitness) rootSetup .empty _ _ (Prod.ext (start_hostOf _ _) rfl) rfl htext
    with ⟨model, hdecide, hmodel⟩
  exact ⟨model, congrArg (fun reply => reply.1.asked) hdecide, hmodel⟩

end External
end Solver
end BitEquiv
