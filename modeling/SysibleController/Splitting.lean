import Mathlib.Data.List.DropRight

/-! The parts of a list between separators, and the list that is put together from parts. -/
namespace Splitting

variable {α : Type} {f : α → Bool} {l x part : List α} {parts : List (List α)} {a sep : α}

theorem not_sep_of_mem_splitOnP (h : x ∈ l.splitOnP f) : ∀ c ∈ x, f c = false := by
  induction l generalizing x with
  | nil =>
    obtain rfl := List.mem_singleton.mp h
    simp
  | cons a rest ih =>
    rw [List.splitOnP_cons_eq_if_modifyHead] at h
    split_ifs at h with ha
    · rcases List.mem_cons.mp h with rfl | h
      · simp
      · exact ih h
    · obtain ⟨hd, tl, htl⟩ := List.exists_cons_of_ne_nil (List.splitOnP_ne_nil f rest)
      rw [htl, List.modifyHead_cons] at h
      rcases List.mem_cons.mp h with rfl | h
      · intro c hc
        rcases List.mem_cons.mp hc with rfl | hc
        · simpa using ha
        · exact ih (by simp [htl]) c hc
      · exact ih (by simp [htl, h])

/-- A part does not hold the separator. -/
theorem sep_notMem [DecidableEq α] (h : part ∈ l.splitOn sep) : sep ∉ part := by
  intro hmem
  rw [List.splitOn_eq_splitOnP] at h
  exact absurd (not_sep_of_mem_splitOnP h sep hmem) (by simp)

theorem mem_intercalate (h : a ∈ [sep].intercalate parts) : a = sep ∨ ∃ x ∈ parts, a ∈ x := by
  induction parts with
  | nil => exact absurd h List.not_mem_nil
  | cons x parts ih =>
    by_cases hnil : parts = []
    · rw [hnil, List.intercalate_singleton] at h
      exact .inr ⟨x, List.mem_cons_self, h⟩
    · rw [List.intercalate_cons_of_ne_nil hnil, List.mem_append, List.mem_append,
        List.mem_singleton] at h
      rcases h with (h | h) | h
      · exact .inr ⟨x, List.mem_cons_self, h⟩
      · exact .inl h
      · exact (ih h).imp_right fun ⟨y, hy, hmem⟩ => ⟨y, List.mem_cons_of_mem x hy, hmem⟩

theorem subset_intercalate (h : part ∈ parts) : part ⊆ [sep].intercalate parts := by
  induction parts with
  | nil => exact absurd h List.not_mem_nil
  | cons x parts ih =>
    by_cases hnil : parts = []
    · rw [hnil, List.mem_singleton] at h
      rw [hnil, List.intercalate_singleton, h]
      exact List.Subset.refl x
    · rw [List.intercalate_cons_of_ne_nil hnil]
      rcases List.mem_cons.mp h with rfl | h
      · exact fun c hc => List.mem_append_left _ (List.mem_append_left _ hc)
      · exact fun c hc => List.mem_append_right _ (ih h hc)

/-- A part is taken from the list. -/
theorem subset_of_mem [DecidableEq α] (h : part ∈ l.splitOn sep) : part ⊆ l := by
  have hsub : part ⊆ [sep].intercalate (l.splitOn sep) := subset_intercalate h
  rwa [List.intercalate_splitOn] at hsub

end Splitting
