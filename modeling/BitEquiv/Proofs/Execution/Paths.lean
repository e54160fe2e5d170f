import BitEquiv.Proofs.Execution.Files
import BitEquiv.Proofs.Text.Blank

/-!
# Paths of entries

A name joined to a path is one more step at its end. In a tree the path then leads to the entry
of that name in the directory.
-/

namespace BitEquiv
namespace Execution

/-- A name that an entry of a directory can have. -/
def IsName (name : String) : Prop :=
  name ≠ "" ∧ name ≠ "." ∧ name ≠ ".." ∧ '/' ∉ name.toList

def steps (path : String) : List String :=
  (pathParts path).filter fun part => part ≠ "" ∧ part ≠ "."

theorem startsWith_slash_iff {s : String} :
    s.startsWith "/" = true ↔ s.toList.head? = some '/' := by
  rw [String.startsWith_string_iff]
  cases h : s.toList with
  | nil => simp
  | cons c rest => simp [List.cons_prefix_cons, eq_comm]

theorem endsWith_slash_iff {s : String} :
    s.endsWith "/" = true ↔ ∃ front, s.toList = front ++ ['/'] := by
  rw [← String.endsWith_toSlice, String.Slice.endsWith_string_iff, String.copy_toSlice]
  constructor
  · rintro ⟨front, hfront⟩
    exact ⟨front, hfront.symm⟩
  · rintro ⟨front, hfront⟩
    exact ⟨front, hfront.symm⟩

section Join

variable {root name : String}

theorem isRelative_of_not_mem (h : '/' ∉ name.toList) : name.startsWith "/" = false := by
  rw [← Bool.not_eq_true, startsWith_slash_iff]
  intro hhead
  exact h (List.mem_of_head? hhead)

theorem pathParts_of_not_mem (h : '/' ∉ name.toList) : pathParts name = [name] := by
  have hnone : ∀ c ∈ name.toList, (c == '/') = false := by
    intro c hc
    rw [beq_eq_false_iff_ne]
    rintro rfl
    exact h hc
  unfold pathParts
  rw [Text.splitBy_of_none hnone, List.map_singleton, String.ofList_toList]

theorem pathParts_append_slash (front : List Char) (h : '/' ∉ name.toList) :
    pathParts (String.ofList (front ++ '/' :: name.toList)) =
      pathParts (String.ofList front) ++ [name] := by
  have hname := pathParts_of_not_mem h
  unfold pathParts at hname ⊢
  rw [String.toList_ofList, String.toList_ofList, Text.splitBy_append_mark (by rfl),
    List.map_append, hname]

/-- The name is one more part, in the place of the empty part behind a slash at the end. -/
theorem pathParts_joinPath (h : '/' ∉ name.toList) :
    pathParts (joinPath root name) = pathParts root ++ [name] ∨
      ∃ front, pathParts root = front ++ [""] ∧
        pathParts (joinPath root name) = front ++ [name] := by
  unfold joinPath
  rw [isRelative_of_not_mem h, Bool.false_or]
  split
  · rename_i hempty
    rw [String.isEmpty_iff.mp hempty, pathParts_of_not_mem h]
    exact Or.inr ⟨[], by decide, rfl⟩
  · split
    · rename_i hslash
      obtain ⟨front, hfront⟩ := endsWith_slash_iff.mp hslash
      have hroot : root = String.ofList (front ++ '/' :: "".toList) := by
        rw [← String.ofList_toList (s := root), hfront]
        rfl
      have hjoined : root ++ name = String.ofList (front ++ '/' :: name.toList) := by
        rw [← String.toList_inj, String.toList_append, hfront]
        simp
      rw [hjoined, pathParts_append_slash front h]
      refine Or.inr ⟨_, ?_, rfl⟩
      rw [hroot, pathParts_append_slash front (by decide)]
    · have hjoined : root ++ "/" ++ name = String.ofList (root.toList ++ '/' :: name.toList) := by
        rw [← String.toList_inj]
        simp
      rw [hjoined, pathParts_append_slash _ h, String.ofList_toList]
      exact Or.inl rfl

theorem steps_joinPath (h : IsName name) : steps (joinPath root name) = steps root ++ [name] := by
  rcases h with ⟨hempty, hdot, _, hslash⟩
  unfold steps
  rcases pathParts_joinPath hslash with hparts | ⟨front, hroot, hparts⟩
  · rw [hparts]
    simp [hempty, hdot]
  · rw [hparts, hroot]
    simp [hempty, hdot]

theorem startsWith_joinPath (h : '/' ∉ name.toList) :
    (joinPath root name).startsWith "/" = root.startsWith "/" := by
  rw [Bool.eq_iff_iff, startsWith_slash_iff, startsWith_slash_iff]
  unfold joinPath
  rw [isRelative_of_not_mem h, Bool.false_or]
  split
  · rename_i hempty
    rw [String.isEmpty_iff.mp hempty, ← startsWith_slash_iff, isRelative_of_not_mem h]
    simp
  · rename_i hroot
    have hne : root.toList ≠ [] := by
      intro hnil
      exact hroot (String.isEmpty_iff.mpr (by rw [← String.ofList_toList (s := root), hnil]))
    split
    · rw [String.toList_append, List.head?_append_of_ne_nil _ hne]
    · rw [String.toList_append, String.toList_append, List.append_assoc,
        List.head?_append_of_ne_nil _ hne]

end Join

namespace Files

variable {files : Files}

theorem walk_append (start : Place) (front back : List String) :
    files.walk start (front ++ back) =
      match files.walk start front with
      | .error fault => .error fault
      | .ok place => files.walk place back := by
  induction front generalizing start with
  | nil => rfl
  | cons part front ih =>
      rw [List.cons_append, walk, walk]
      cases files.enter start with
      | error fault => rfl
      | ok u =>
          dsimp only
          split
          · exact ih start
          · split
            · exact ih _
            · exact ih _

/-- Where a path leads to a directory, the path with a name behind it leads to the entry of that
name. -/
theorem locate_joinPath {root name : String} {place : Place} (h : IsName name)
    (hroot : files.walk (files.start root) (pathParts root) = .ok place)
    (hplace : files.node? place = some .directory) :
    files.locate (joinPath root name) = .ok (place ++ [name]) := by
  have hsteps : steps (joinPath root name) = steps root ++ [name] := steps_joinPath h
  rcases h with ⟨hempty, hdot, hup, hslash⟩
  have hstart : files.start (joinPath root name) = files.start root := by
    unfold start
    rw [startsWith_joinPath hslash]
  have hlast : files.walk place [name] = .ok (place ++ [name]) := by
    rw [walk, enter_eq_ok_iff.mpr hplace]
    dsimp only
    rw [if_neg (by simp [hempty, hdot]), if_neg hup]
    rfl
  have hjoined : joinPath root name ≠ "" := by
    intro hnil
    rw [hnil, show steps "" = [] by decide] at hsteps
    simp at hsteps
  unfold locate
  rw [if_neg (by simpa using hjoined), hstart]
  rcases pathParts_joinPath hslash with hparts | ⟨front, hfront, hparts⟩
  · rw [hparts, walk_append, hroot]
    exact hlast
  · rw [hfront, walk_append] at hroot
    rw [hparts, walk_append]
    cases hwalk : files.walk (files.start root) front with
    | error fault =>
        rw [hwalk] at hroot
        cases hroot
    | ok middle =>
        -- The empty part at the end of the path leads nowhere.
        rw [hwalk] at hroot
        have hmiddle : middle = place := by
          cases henter : files.enter middle with
          | error fault => simp [walk, henter] at hroot
          | ok u => simpa [walk, henter] using hroot
        rw [hmiddle]
        exact hlast

end Files
end Execution
end BitEquiv
