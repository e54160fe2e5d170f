import BitEquiv.Proofs.Logic.Validation
import BitEquiv.Proofs.Program.Miter

/-!
# Queries that compare programs

The names of such a query are those of the programs behind a mark, so they have the form
that the formats of solvers ask for.
-/

namespace BitEquiv
namespace Program

open Logic

/-!
## Names
-/

def marks : List String := ["in_", "o_", "t_"]

/-- A mark, then letters, digits and underscores. -/
def Marked (x : String) : Prop :=
  ∃ mark ∈ marks, ∃ rest : List Char, x.toList = mark.toList ++ rest ∧
    ∀ c ∈ rest, c.isAlphanum = true ∨ c = '_'

theorem chars_of_marked {x : String} (h : Marked x) :
    ∀ c ∈ x.toList, c.isAlphanum = true ∨ c = '_' := by
  rcases h with ⟨mark, hmark, rest, hx, hrest⟩
  have hmarks : marks.all (fun mark => mark.toList.all fun c => c.isAlphanum || c == '_') = true :=
    by decide
  rw [hx, List.forall_mem_append]
  refine ⟨?_, hrest⟩
  intro c hc
  have hc := List.all_eq_true.mp (List.all_eq_true.mp hmarks mark hmark) c hc
  simpa using hc

theorem isAlphanum_of_identifier {s : List Char} (h : Identifier s) :
    ∀ c ∈ s, c.isAlphanum = true ∨ c = '_' := by
  have hword : ∀ c, Token.isWordChar c = true → c.isAlphanum = true ∨ c = '_' := by
    intro c hc
    simpa [Token.isWordChar] using hc
  cases s with
  | nil => exact h.elim
  | cons c s =>
      rcases h with ⟨hstart, hrest⟩
      refine List.forall_mem_cons.mpr ⟨?_, fun d hd => hword d (hrest d hd)⟩
      apply hword
      unfold Token.isWordStart at hstart
      unfold Token.isWordChar Char.isAlphanum
      rcases Bool.or_eq_true_iff.mp hstart with halpha | hmark
      · rw [halpha, Bool.true_or, Bool.true_or]
      · rw [hmark, Bool.or_true]

theorem marked_append {mark x : String} (hmark : mark ∈ marks) (hx : Identifier x.toList) :
    Marked (mark ++ x) :=
  ⟨mark, hmark, x.toList, String.toList_append, isAlphanum_of_identifier hx⟩

theorem marked_of_mem_definitionsOn {p : Program} (hp : p.Legible) {side : String}
    (hside : side ++ "_" ∈ marks) {d : Definition} (hd : d ∈ p.definitionsOn side) :
    Marked d.name := by
  rcases List.mem_map.mp hd with ⟨b, hb, rfl⟩
  exact marked_append hside (hp.bindings b hb).1

theorem marked_miter {p q : Program} (hp : p.Legible) (hq : q.Legible) :
    ∀ x ∈ (miter p q).names, Marked x := by
  intro x hx
  rcases List.mem_append.mp hx with hx | hx
  · rcases List.mem_map.mp hx with ⟨input, hinput, rfl⟩
    rcases exists_input_of_shared hinput with ⟨name, sort, hmem, rfl⟩
    exact marked_append (by decide) (hp.inputs (name, sort) hmem)
  · rcases List.mem_map.mp hx with ⟨d, hd, rfl⟩
    rcases List.mem_append.mp hd with hd | hd
    · exact marked_of_mem_definitionsOn hp (by decide) hd
    · exact marked_of_mem_definitionsOn hq (by decide) hd

theorem equivalenceQuery_wellFormed {s s' : List Char} {p p' : Program} {q : Query}
    (hp : load s = .ok p) (hp' : load s' = .ok p') (hq : equivalenceQuery p p' = .ok q) :
    q.WellFormed ∧ ∀ x ∈ q.names, Marked x := by
  have hlegible := load_legible hp
  have hlegible' := load_legible hp'
  unfold equivalenceQuery at hq
  cases hinterface : mismatch? p p' with
  | some m =>
      rw [hinterface] at hq
      cases hq
  | none =>
      rw [hinterface] at hq
      cases hq
      have hsame := (mismatch?_eq_none_iff (load_wellFormed hp)).mp hinterface
      have hvalid := validate_miter (load_wellFormed hp) (load_wellFormed hp') hsame
      exact ⟨Query.validate_eq_ok_iff.mp hvalid, marked_miter hlegible hlegible'⟩

end Program
end BitEquiv
