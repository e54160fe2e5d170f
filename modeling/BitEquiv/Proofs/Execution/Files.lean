import BitEquiv.Execution.Files

/-!
# Files at paths

A walk needs directories only, so it leads to the same place in every tree that has them. A file
that was written is read at its path, and where a file was removed none is found.
-/

namespace BitEquiv
namespace Execution
namespace Files

variable {files files' : Files} {path : String} {place : Place}

/-!
## Nodes
-/

theorem lookup_filter (entries : List (Place × Node)) (p : Place → Bool) (place : Place) :
    (entries.filter fun e => p e.1).lookup place =
      if p place then entries.lookup place else none := by
  induction entries with
  | nil => simp
  | cons e entries ih =>
      rcases e with ⟨here, node⟩
      rw [List.filter_cons]
      by_cases hplace : place = here
      · subst hplace
        split
        · simp
        · rename_i hp
          rw [ih, if_neg hp]
      · have hne : (place == here) = false := beq_false_of_ne hplace
        split <;> simp [List.lookup_cons, hne, ih]

theorem node?_without (files : Files) (gone place : Place) (hplace : place ≠ []) :
    (files.without gone).node? place =
      if gone.isPrefixOf place then none else files.node? place := by
  have hlookup := lookup_filter files.entries (fun p => !gone.isPrefixOf p) place
  unfold node? without
  rw [if_neg hplace, if_neg hplace, hlookup]
  cases gone.isPrefixOf place <;> rfl

theorem node?_put (files : Files) (here place : Place) (node : Node) (hplace : place ≠ []) :
    (files.put here node).node? place =
      if place = here then some node else files.node? place := by
  have hlookup := lookup_filter files.entries (fun p => p ≠ here) place
  unfold node? put
  rw [if_neg hplace, if_neg hplace, List.lookup_cons, hlookup]
  by_cases h : place = here
  · simp [h]
  · simp [h, beq_false_of_ne h]

/-- The directories of a tree without a place were there before. -/
theorem directory_of_without {gone : Place}
    (h : (files.without gone).node? place = some .directory) :
    files.node? place = some .directory := by
  by_cases hroot : place = []
  · exact if_pos hroot
  · rw [node?_without files gone place hroot] at h
    split at h
    · cases h
    · exact h

theorem directory_put {here : Place} {node : Node} (hhere : files.node? here ≠ some .directory)
    (h : files.node? place = some .directory) :
    (files.put here node).node? place = some .directory := by
  by_cases hroot : place = []
  · exact if_pos hroot
  · rw [node?_put files here place node hroot, if_neg, h]
    rintro rfl
    exact hhere h

theorem ne_nil_of_file {bytes : Text.Bytes} (h : files.node? place = some (.file bytes)) :
    place ≠ [] := by
  rintro rfl
  cases h

/-!
## Walks
-/

theorem enter_eq_ok_iff : files.enter place = .ok () ↔ files.node? place = some .directory := by
  unfold enter
  split <;> simp_all

/-- A walk leads to the same place in every tree with the directories on its way. -/
theorem walk_of_directories
    (h : ∀ p, files.node? p = some .directory → files'.node? p = some .directory)
    {parts : List String} {start : Place} (hwalk : files.walk start parts = .ok place) :
    files'.walk start parts = .ok place := by
  induction parts generalizing start with
  | nil => exact hwalk
  | cons part parts ih =>
      rw [walk] at hwalk ⊢
      cases henter : files.enter start with
      | error fault =>
          rw [henter] at hwalk
          cases hwalk
      | ok u =>
          rw [henter] at hwalk
          rw [enter_eq_ok_iff.mpr (h start (enter_eq_ok_iff.mp henter))]
          dsimp only at hwalk ⊢
          split at hwalk
          · rename_i hpart
            rw [if_pos hpart]
            exact ih hwalk
          · rename_i hpart
            rw [if_neg hpart]
            split at hwalk
            · rename_i hup
              rw [if_pos hup]
              exact ih hwalk
            · rename_i hup
              rw [if_neg hup]
              exact ih hwalk

theorem locate_of_directories (hlocate : files.locate path = .ok place)
    (hcwd : files'.cwd = files.cwd)
    (h : ∀ p, files.node? p = some .directory → files'.node? p = some .directory) :
    files'.locate path = .ok place := by
  have hstart : files'.start path = files.start path := by
    unfold start
    rw [hcwd]
  unfold locate at hlocate ⊢
  split at hlocate
  · cases hlocate
  · rename_i hempty
    rw [if_neg hempty, hstart]
    exact walk_of_directories h hlocate

/-!
## Files
-/

theorem read?_eq_some_iff {bytes : Text.Bytes} : files.read? path = some bytes ↔
    ∃ place, files.locate path = .ok place ∧ files.node? place = some (.file bytes) := by
  unfold read? read
  cases hlocate : files.locate path with
  | error fault => simp [Except.toOption]
  | ok place =>
      cases hnode : files.node? place with
      | none => simp [Except.toOption, hnode]
      | some node => cases node <;> simp [Except.toOption, hnode]

theorem isFile_eq_true_iff : files.isFile path = true ↔
    ∃ place bytes, files.locate path = .ok place ∧ files.node? place = some (.file bytes) := by
  unfold isFile find? resolve
  cases hlocate : files.locate path with
  | error fault => simp [Except.toOption]
  | ok place =>
      cases hnode : files.node? place with
      | none => simp [Except.toOption, hnode]
      | some node => cases node <;> simp [Except.toOption, hnode]

theorem unlink_eq_ok_iff : files.unlink path = .ok files' ↔
    ∃ place bytes, files.locate path = .ok place ∧ files.node? place = some (.file bytes) ∧
      files' = files.without place := by
  unfold unlink
  cases hlocate : files.locate path with
  | error fault => simp
  | ok place =>
      cases hnode : files.node? place with
      | none => simp [hnode]
      | some node => cases node <;> simp [hnode, eq_comm]

theorem isFile_removeFile (files : Files) (path : String) :
    (files.removeFile path).isFile path = false := by
  rw [← Bool.not_eq_true, isFile_eq_true_iff]
  rintro ⟨place, bytes, hlocate, hnode⟩
  cases hunlink : files.unlink path with
  | error fault =>
      -- Nothing is removed only where no file was.
      have hsame : files.removeFile path = files := by
        simp [removeFile, hunlink, Except.toOption]
      rw [hsame] at hlocate hnode
      cases hunlink.symm.trans (unlink_eq_ok_iff.mpr ⟨place, bytes, hlocate, hnode, rfl⟩)
  | ok left =>
      obtain ⟨gone, old, hgone, hold, rfl⟩ := unlink_eq_ok_iff.mp hunlink
      have hleft : files.removeFile path = files.without gone := by
        simp [removeFile, hunlink, Except.toOption]
      rw [hleft] at hlocate hnode
      -- The path leads to the same place before and after, and that place is gone.
      have hbefore : files.locate path = .ok place :=
        locate_of_directories hlocate rfl fun _ hp => directory_of_without hp
      cases hgone.symm.trans hbefore
      rw [node?_without files place place (ne_nil_of_file hold)] at hnode
      simp at hnode

theorem of_target_eq_ok (h : files.target path = .ok place) :
    files.locate path = .ok place ∧ files.node? place ≠ some .directory := by
  unfold target at h
  cases hlocate : files.locate path with
  | error fault => simp [hlocate] at h
  | ok found =>
      cases hnode : files.node? found with
      | none =>
          simp only [hlocate, hnode] at h
          split at h
          · cases h
          · cases h
            exact ⟨rfl, by simp [hnode]⟩
      | some node =>
          cases node <;> simp only [hlocate, hnode] at h <;> cases h
          exact ⟨rfl, by simp [hnode]⟩

theorem write?_eq_some {bytes : Text.Bytes} (h : files.write path bytes = .ok files') :
    files.write? path bytes = some files' := by
  rw [write?, h]
  rfl

theorem write?_eq_none {bytes : Text.Bytes} {fault : FileFault}
    (h : files.write path bytes = .error fault) : files.write? path bytes = none := by
  rw [write?, h]
  rfl

theorem read?_of_write? {bytes : Text.Bytes} (h : files.write? path bytes = some files') :
    files'.read? path = some bytes := by
  unfold write? write at h
  cases htarget : files.target path with
  | error fault => simp [htarget, Except.map, Except.toOption] at h
  | ok place =>
      simp only [htarget, Except.map, Except.toOption, Option.some.injEq] at h
      subst h
      obtain ⟨hlocate, hnode⟩ := of_target_eq_ok htarget
      have hplace : place ≠ [] := by
        rintro rfl
        exact hnode (if_pos rfl)
      have hsame : (files.put place (.file bytes)).locate path = .ok place :=
        locate_of_directories hlocate rfl fun _ hp => directory_put hnode hp
      refine read?_eq_some_iff.mpr ⟨place, hsame, ?_⟩
      rw [node?_put files place place _ hplace, if_pos rfl]

theorem exists_write? {old : Text.Bytes} (h : files.read? path = some old) (bytes : Text.Bytes) :
    ∃ files', files.write? path bytes = some files' := by
  obtain ⟨place, hlocate, hnode⟩ := read?_eq_some_iff.mp h
  have htarget : files.target path = .ok place := by
    unfold target
    simp only [hlocate, hnode]
  exact ⟨files.put place (.file bytes), by
    simp [write?, write, htarget, Except.map, Except.toOption]⟩

end Files
end Execution
end BitEquiv
