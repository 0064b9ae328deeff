import SqlSchema.Batch
import SqlSchema.Proofs.Text.Trim

/-! The pieces of a batch. Putting texts together with semicolons puts their pieces together, and a list of pieces is
again cut into itself. -/
namespace SqlSchema.Batch
open Text

theorem pieces_append (first second : String) :
    pieces (first ++ ";" ++ second) = pieces first ++ pieces second := by
  have cut : (first ++ ";" ++ second).toList.splitOn ';' =
      first.toList.splitOn ';' ++ second.toList.splitOn ';' := by
    rw [String.toList_append, String.toList_append, List.append_assoc]
    exact List.splitOn_append_cons_self _ _
  simp only [pieces, cut, List.map_append, List.filter_append]

/-- What every piece of a batch is like. -/
structure IsPiece (piece : String) : Prop where
  filled : piece ≠ ""
  trimmed : trim piece.toList = piece.toList
  uncut : ';' ∉ piece.toList

theorem separator_not_mem_splitOn (cs part : List Char) (member : part ∈ cs.splitOn ';') : ';' ∉ part := by
  induction cs generalizing part with
  | nil => simp_all
  | cons c rest ih =>
    rw [List.splitOn_cons_eq_if_modifyHead] at member
    split at member
    next =>
      rcases List.mem_cons.mp member with rfl | later
      · simp
      · exact ih part later
    next other =>
      obtain ⟨head, more, parts⟩ := List.exists_cons_of_ne_nil (List.splitOn_ne_nil ';' rest)
      rw [parts] at ih member
      rcases List.mem_cons.mp member with rfl | later
      · have different : ';' ≠ c := fun equal => other (beq_iff_eq.mpr equal.symm)
        simpa [different] using ih head (by simp)
      · exact ih part (by simp [later])

theorem isPiece_of_mem_pieces (text piece : String) (member : piece ∈ pieces text) : IsPiece piece := by
  simp only [pieces, List.mem_map, List.mem_filter] at member
  obtain ⟨_, ⟨⟨part, cut, rfl⟩, filled⟩, rfl⟩ := member
  refine ⟨?_, ?_, ?_⟩
  · intro empty
    simp_all
  · rw [String.toList_ofList, trim_trim]
  · rw [String.toList_ofList]
    exact fun inside => separator_not_mem_splitOn _ part cut (mem_of_mem_trim part ';' inside)

/-- Pieces joined by semicolons are cut into the same pieces again. -/
theorem pieces_intercalate (parts : List String) (sound : ∀ part ∈ parts, IsPiece part) :
    pieces (";".intercalate parts) = parts := by
  by_cases none : parts = []
  · subst none
    rfl
  · have cut : (";".intercalate parts).toList.splitOn ';' = parts.map String.toList := by
      rw [String.toList_intercalate]
      refine List.splitOn_intercalate ';' ?_ (by simpa using none)
      intro cs member
      obtain ⟨part, inside, rfl⟩ := List.mem_map.mp member
      exact (sound part inside).uncut
    have kept : (parts.map String.toList).map trim = parts.map String.toList := by
      rw [List.map_map]
      exact List.map_congr_left fun part inside => (sound part inside).trimmed
    have whole : (parts.map String.toList).filter (!·.isEmpty) = parts.map String.toList := by
      refine List.filter_eq_self.mpr fun cs member => ?_
      obtain ⟨part, inside, rfl⟩ := List.mem_map.mp member
      simpa using (sound part inside).filled
    rw [pieces, cut, kept, whole, List.map_map]
    simp

end SqlSchema.Batch
