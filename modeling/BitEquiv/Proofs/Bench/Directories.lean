import BitEquiv.Proofs.Execution.Paths
import BitEquiv.Bench.WorkDir

/-!
# Directories of cases

Whatever the name of a case is, the name of its directory is plain: small letters, digits,
hyphens and underscores. The directory lies right below the root of the run.
-/

namespace BitEquiv
namespace Bench

open Execution

/-!
## Plain names
-/

def isPlainChar (c : Char) : Bool := c.isLower || c.isDigit || c == '-' || c == '_'

/-- One or more plain characters, of which the first and the last are no underscores. -/
structure Tidy (name : String) : Prop where
  nonempty : name ≠ ""
  plain : ∀ c ∈ name.toList, isPlainChar c = true
  first : '_' ∉ name.toList.head?
  last : '_' ∉ name.toList.getLast?

theorem isPlainChar_toLower {c : Char} (h : c.isAlphanum = true) :
    isPlainChar c.toLower = true := by
  have hascii : ∀ n < 123, (Char.ofNat n).isAlphanum = true →
      isPlainChar (Char.ofNat n).toLower = true := by decide
  have hbound := (Text.toNat_of_isAlphanum h).2
  have hc := hascii c.toNat (by omega)
  rw [Char.ofNat_toNat] at hc
  exact hc h

theorem isPlainChar_of_mem {c d : Char} (h : d ∈ directoryChar c) : isPlainChar d = true := by
  unfold directoryChar at h
  split at h
  · rename_i hkept
    rw [List.mem_singleton.mp h]
    simp only [Bool.or_eq_true, decide_eq_true_eq] at hkept
    rcases hkept with (halphanum | rfl) | rfl
    · exact isPlainChar_toLower halphanum
    · decide
    · decide
  · split at h
    · rw [List.mem_singleton.mp h]
      decide
    · cases h

theorem toNat_of_isPlainChar {c : Char} (h : isPlainChar c = true) : c.toNat < 123 := by
  have halphanum : c.isLower = true ∨ c.isDigit = true → c.isAlphanum = true := by
    rintro (hlower | hdigit)
    · exact Bool.or_eq_true_iff.mpr (.inl (Bool.or_eq_true_iff.mpr (.inr hlower)))
    · exact Bool.or_eq_true_iff.mpr (.inr hdigit)
  unfold isPlainChar at h
  simp only [Bool.or_eq_true, beq_iff_eq] at h
  rcases h with (hc | rfl) | rfl
  · have hbound := (Text.toNat_of_isAlphanum (halphanum hc)).2
    omega
  · decide
  · decide

theorem directoryChar_of_isPlainChar {c : Char} (h : isPlainChar c = true) :
    directoryChar c = [c] := by
  have hascii : ∀ n < 123, isPlainChar (Char.ofNat n) = true →
      directoryChar (Char.ofNat n) = [Char.ofNat n] := by decide
  have hc := hascii c.toNat (toNat_of_isPlainChar h)
  rw [Char.ofNat_toNat] at hc
  exact hc h

theorem tidy_directoryName (name : String) : Tidy (directoryName name) := by
  unfold directoryName
  dsimp only
  split
  · exact ⟨by decide, List.all_eq_true.mp (by decide), by decide, by decide⟩
  · rename_i hkept
    refine ⟨?_, ?_, ?_, ?_⟩
    · intro hempty
      apply hkept
      rw [← String.toList_inj, String.toList_ofList] at hempty
      rw [hempty]
      rfl
    · intro c hc
      rw [String.toList_ofList] at hc
      obtain ⟨d, _, hd⟩ := List.mem_flatMap.mp (Text.mem_of_mem_trimBy hc)
      exact isPlainChar_of_mem hd
    · rw [String.toList_ofList]
      intro hfirst
      exact absurd (Text.head?_trimBy hfirst) (by decide)
    · rw [String.toList_ofList]
      intro hlast
      exact absurd (Text.getLast?_trimBy hlast) (by decide)

theorem Tidy.directoryName_eq {name : String} (h : Tidy name) : directoryName name = name := by
  have hkept : name.toList.flatMap directoryChar = name.toList := by
    have heach : name.toList.flatMap directoryChar = name.toList.flatMap fun c => [c] :=
      List.flatMap_congr fun c hc => directoryChar_of_isPlainChar (h.plain c hc)
    rw [heach, List.flatMap_singleton']
  have hends : ∀ {c : Char} {end? : Option Char}, '_' ∉ end? → c ∈ end? →
      isUnderscore c = false := by
    intro c end? hend hc
    refine decide_eq_false ?_
    rintro rfl
    exact hend hc
  unfold directoryName
  rw [hkept, Text.trimBy_of_ends (fun c hc => hends h.first hc) fun c hc => hends h.last hc]
  dsimp only
  rw [if_neg, String.ofList_toList]
  intro hempty
  exact h.nonempty (String.toList_eq_nil_iff.mp (List.isEmpty_iff.mp hempty))

/-!
## Directories
-/

theorem isPlainChar_digest {message : Text.Bytes} {c : Char}
    (h : c ∈ (Text.sha256 message).toList) :
    isPlainChar c = true := by
  have hdigit : ∀ d < 16, isPlainChar (Nat.digitChar d) = true := by decide
  unfold Text.sha256 Text.hex at h
  rw [String.toList_ofList] at h
  obtain ⟨b, _, hc⟩ := List.mem_flatMap.mp h
  have hbyte := b.toNat_lt
  rcases List.mem_pair.mp hc with rfl | rfl
  · exact hdigit _ (by omega)
  · exact hdigit _ (by omega)

theorem isName_of_plain {name : String} (h : ∀ c ∈ name.toList, isPlainChar c = true)
    (hhyphen : '-' ∈ name.toList) : IsName name := by
  refine ⟨?_, ?_, ?_, ?_⟩
  · rintro rfl
    cases hhyphen
  · rintro rfl
    exact absurd hhyphen (by decide)
  · rintro rfl
    exact absurd hhyphen (by decide)
  · intro hslash
    exact absurd (h '/' hslash) (by decide)

/-- The name of a directory is tidy, and naming a name again changes nothing. The directory of a
case is an entry of the root, in every tree in which the root is a directory. -/
theorem caseWorkDir_child (root id : String) :
    Tidy (directoryName id) ∧ directoryName (directoryName id) = directoryName id ∧
      ∃ child, IsName child ∧ steps (caseWorkDir root id) = steps root ++ [child] ∧
        (caseWorkDir root id).startsWith "/" = root.startsWith "/" ∧
        ∀ (files : Files) (place : Place),
          files.walk (files.start root) (pathParts root) = .ok place →
          files.node? place = some .directory →
          files.locate (caseWorkDir root id) = .ok (place ++ [child]) := by
  have htidy := tidy_directoryName id
  refine ⟨htidy, htidy.directoryName_eq,
    directoryName id ++ "-" ++ String.ofList ((hashOf id).toList.take 8), ?_⟩
  have hname : IsName (directoryName id ++ "-" ++ String.ofList ((hashOf id).toList.take 8)) := by
    apply isName_of_plain
    · simp only [String.toList_append, String.toList_ofList, List.forall_mem_append]
      refine ⟨⟨htidy.plain, List.all_eq_true.mp (by decide)⟩, ?_⟩
      intro c hc
      exact isPlainChar_digest (List.mem_of_mem_take hc)
    · simp
  refine ⟨hname, steps_joinPath hname, startsWith_joinPath hname.2.2.2, ?_⟩
  intro files place hroot hplace
  exact Files.locate_joinPath hname hroot hplace

/-- A name that leads upwards still has its directory below the root. -/
theorem caseWorkDir_child_upwards :
    let files : Files := ⟨[(["work"], .directory)], [], []⟩
    directoryName "../../É x/" = "x" ∧ files.node? ["work"] = some .directory ∧
      ∃ child, IsName child ∧
        files.locate (caseWorkDir "/work/" "../../É x/") = .ok (["work"] ++ [child]) := by
  intro files
  rcases caseWorkDir_child "/work/" "../../É x/" with ⟨_, _, child, hname, _, _, hlocate⟩
  have hroot : files.walk (files.start "/work/") (pathParts "/work/") = .ok ["work"] := by
    have hstart : files.start "/work/" = [] := if_pos (startsWith_slash_iff.mpr rfl)
    have hparts : pathParts "/work/" = ["", "work", ""] := by decide
    rw [hstart, hparts]
    rfl
  exact ⟨by decide, rfl, child, hname, hlocate files ["work"] hroot rfl⟩

end Bench
end BitEquiv
