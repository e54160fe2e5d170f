import BitEquiv.Execution.Outcome

/-!
# Captured streams

However a stream is cut into reads, a capture keeps its first bytes up to the cap, and tells
whether there were more.
-/

namespace BitEquiv
namespace Execution
namespace Capture

open Text (Bytes)

variable {cap : Nat}

/-- A stream as it is kept when it comes at once. -/
def whole (cap : Nat) (stream : Bytes) : Capture := ⟨stream.take cap, decide (cap < stream.length)⟩

/-- Nothing more is read: the reads are over, the next one fails, or it is empty. -/
def Ends : List (Option Bytes) → Prop
  | [] => True
  | none :: _ => True
  | some chunk :: _ => chunk = []

theorem whole_nil (cap : Nat) : whole cap [] = empty := by
  simp [whole, empty]

/-- A read is added to what was kept of the stream before it. -/
theorem absorb_whole (cap : Nat) (stream chunk : Bytes) :
    (whole cap stream).absorb cap chunk = whole cap (stream ++ chunk) := by
  have hroom : cap - (stream.take cap).length = cap - stream.length := by
    rw [List.length_take]
    omega
  have hbytes : stream.take cap ++ chunk.take (cap - stream.length) = (stream ++ chunk).take cap :=
    List.take_append.symm
  have htruncated : (decide (cap < stream.length) || decide (cap - stream.length < chunk.length)) =
      decide (cap < (stream ++ chunk).length) := by
    rw [← Bool.decide_or, decide_eq_decide, List.length_append]
    omega
  unfold absorb whole
  dsimp only
  rw [hroom, hbytes, htruncated]

theorem absorbAll_of_ends {reads : List (Option Bytes)} (h : Ends reads) (kept : Capture) :
    absorbAll cap kept reads = kept := by
  cases reads with
  | nil => rfl
  | cons read reads =>
      cases read with
      | none => rfl
      | some chunk =>
          cases (show chunk = [] from h)
          rfl

theorem absorbAll_append {chunks : List Bytes} (h : ∀ chunk ∈ chunks, chunk ≠ [])
    (stream : Bytes) (reads : List (Option Bytes)) :
    absorbAll cap (whole cap stream) (chunks.map some ++ reads) =
      absorbAll cap (whole cap (stream ++ chunks.flatten)) reads := by
  induction chunks generalizing stream with
  | nil => rw [List.map_nil, List.nil_append, List.flatten_nil, List.append_nil]
  | cons chunk chunks ih =>
      rcases List.forall_mem_cons.mp h with ⟨hchunk, hchunks⟩
      have hfull : chunk.isEmpty = false := List.isEmpty_eq_false_iff.mpr hchunk
      rw [List.map_cons, List.cons_append, absorbAll, hfull, if_neg Bool.false_ne_true,
        absorb_whole, ih hchunks, List.flatten_cons, List.append_assoc]

/-- A stream that comes in any non-empty reads is kept up to the cap, and it is marked as
truncated exactly when it is longer. -/
theorem ofReads_keeps (cap : Nat) {stream : Bytes} {chunks : List Bytes}
    (hstream : chunks.flatten = stream) (hchunks : ∀ chunk ∈ chunks, chunk ≠ [])
    {after : List (Option Bytes)} (hafter : Ends after) :
    (ofReads cap (chunks.map some ++ after)).bytes = stream.take cap ∧
      ((ofReads cap (chunks.map some ++ after)).truncated = true ↔ cap < stream.length) := by
  have hkept : ofReads cap (chunks.map some ++ after) = whole cap stream := by
    unfold ofReads
    rw [← whole_nil cap, absorbAll_append hchunks, absorbAll_of_ends hafter, List.nil_append,
      hstream]
  rw [hkept]
  exact ⟨rfl, decide_eq_true_iff⟩

/-- The second read goes over the cap, the third comes after it, and what follows the end of the
stream does not count. -/
theorem ofReads_keeps_straddling :
    let chunks : List Bytes := [[1, 2], [3, 4], [5]]
    let after : List (Option Bytes) := [some [], some [6]]
    (∀ chunk ∈ chunks, chunk ≠ []) ∧ Ends after ∧
      (ofReads 3 (chunks.map some ++ after)).bytes = [1, 2, 3] ∧
      (ofReads 3 (chunks.map some ++ after)).truncated = true := by
  have hchunks : ∀ chunk ∈ [[1, 2], [3, 4], ([5] : Bytes)], chunk ≠ [] := by decide
  have hafter : Ends [some [], some [6]] := rfl
  rcases ofReads_keeps 3 rfl hchunks hafter with ⟨hbytes, htruncated⟩
  exact ⟨hchunks, hafter, hbytes, htruncated.mpr (by decide)⟩

end Capture
end Execution
end BitEquiv
