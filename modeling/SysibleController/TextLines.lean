import SysibleController.PathText

/-! The lines of a text: its parts between newlines. -/
namespace TextLines

open PathText

def lines (b : Text) : List Text := b.splitOn '\n'

def unlines (ls : List Text) : Text := ['\n'].intercalate ls

variable {b d key v x y : Text} {ls : List Text}

theorem newline_notMem (h : x ∈ lines b) : '\n' ∉ x := Splitting.sep_notMem h

theorem lines_ne_nil (b : Text) : lines b ≠ [] := List.splitOn_ne_nil _ _

theorem unlines_lines (b : Text) : unlines (lines b) = b := List.intercalate_splitOn '\n'

theorem lines_plain (h : '\n' ∉ v) : lines v = [v] := List.splitOn_eq_singleton h

theorem lines_append (x y : Text) : lines (x ++ '\n' :: y) = lines x ++ lines y :=
  List.splitOn_append_cons_self x y

theorem unlines_cons (h : ls ≠ []) : unlines (x :: ls) = x ++ '\n' :: unlines ls := by
  obtain ⟨y, rest, rfl⟩ := List.exists_cons_of_ne_nil h
  simp [unlines]

theorem lines_unlines (h : ls ≠ []) : lines (unlines ls) = ls.flatMap lines := by
  induction ls with
  | nil => exact absurd rfl h
  | cons x rest ih =>
    by_cases hrest : rest = []
    · subst hrest
      simp [unlines]
    · rw [unlines_cons hrest, lines_append, ih hrest, List.flatMap_cons]

/-- A text and a newline are its lines, each with its own. -/
theorem append_newline (b rest : Text) :
    b ++ '\n' :: rest = (lines b).flatMap (· ++ ['\n']) ++ rest := by
  have hjoin : ∀ ls : List Text, ls ≠ [] →
      unlines ls ++ '\n' :: rest = ls.flatMap (· ++ ['\n']) ++ rest := by
    intro ls hls
    induction ls with
    | nil => exact absurd rfl hls
    | cons x ls ih =>
      by_cases hrest : ls = []
      · subst hrest
        simp [unlines]
      · rw [unlines_cons hrest, List.flatMap_cons, List.append_assoc, List.cons_append,
          ih hrest]
        simp
  rw [← hjoin _ (lines_ne_nil b), unlines_lines]

theorem lines_prefixed (h : '\n' ∉ key) : lines (key ++ v) = (lines v).modifyHead (key ++ ·) := by
  induction key with
  | nil =>
    obtain ⟨hd, tl, htl⟩ := List.exists_cons_of_ne_nil (lines_ne_nil v)
    simp [htl]
  | cons c rest ih =>
    obtain ⟨hc, hrest⟩ : ¬ '\n' = c ∧ '\n' ∉ rest := by simpa using h
    have hne : (c == '\n') = false := beq_eq_false_iff_ne.mpr (Ne.symm hc)
    obtain ⟨hd, tl, htl⟩ := List.exists_cons_of_ne_nil (lines_ne_nil v)
    rw [List.cons_append, lines, List.splitOn_cons_eq_if_modifyHead, hne, if_neg (by simp),
      ← lines, ih hrest, htl]
    simp

/-- Behind a key that the line does not begin with, only a later line can be it. -/
theorem mem_lines_prefixed (h : '\n' ∉ key) (hd : ¬ key <+: d) :
    d ∈ lines (key ++ v) ↔ d ∈ (lines v).tail := by
  obtain ⟨hd', tl, htl⟩ := List.exists_cons_of_ne_nil (lines_ne_nil v)
  rw [lines_prefixed h, htl, List.modifyHead_cons, List.tail_cons, List.mem_cons]
  constructor
  · rintro (rfl | hmem)
    · exact absurd (List.prefix_append key hd') hd
    · exact hmem
  · exact Or.inr

theorem tail_lines_plain (h : '\n' ∉ v) : (lines v).tail = [] := by
  rw [lines_plain h]
  rfl

end TextLines
