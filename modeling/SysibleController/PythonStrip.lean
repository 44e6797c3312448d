import SysibleController.PythonText
import Mathlib.Data.List.DropRight

/-! What `str.strip` leaves: a part of the text that does not begin or end with a blank. -/
namespace PythonText

theorem strip_toList (text : String) :
    (strip text).toList = (text.toList.dropWhile isSpace).rdropWhile isSpace := by
  simp [strip, List.rdropWhile]

theorem dropWhile_rdropWhile {α : Type} (p : α → Bool) (l : List α) (h : l.dropWhile p = l) :
    (l.rdropWhile p).dropWhile p = l.rdropWhile p := by
  rw [List.dropWhile_eq_self_iff] at h ⊢
  intro hpos
  obtain ⟨rest, hrest⟩ := List.rdropWhile_prefix p l
  have hlen : 0 < l.length := by
    rw [← hrest, List.length_append]
    omega
  have hhead : (l.rdropWhile p)[0] = l[0] :=
    (List.prefix_iff_getElem.mp ⟨rest, hrest⟩).2 0 hpos
  rw [hhead]
  exact h hlen

@[simp] theorem strip_strip (text : String) : strip (strip text) = strip text := by
  apply String.toList_inj.mp
  rw [strip_toList, strip_toList, dropWhile_rdropWhile _ _ (List.dropWhile_idempotent _ _),
    List.rdropWhile_idempotent]

/-- The same on a list of characters. -/
def stripText (p : List Char) : List Char := (strip (String.ofList p)).toList

theorem stripText_eq (p : List Char) :
    stripText p = (p.dropWhile isSpace).rdropWhile isSpace := by
  rw [stripText, strip_toList, String.toList_ofList]

@[simp] theorem stripText_stripText (p : List Char) : stripText (stripText p) = stripText p := by
  simp [stripText]

theorem stripText_of_all {t : List Char} (h : ∀ c ∈ t, isSpace c = false) : stripText t = t := by
  have hfront : t.dropWhile isSpace = t := by
    rw [List.dropWhile_eq_self_iff]
    intro hpos
    simp [h _ (List.getElem_mem hpos)]
  have hback : t.rdropWhile isSpace = t := by
    rw [List.rdropWhile_eq_self_iff]
    intro hl
    simp [h _ (List.getLast_mem hl)]
  rw [stripText_eq, hfront, hback]

/-- A last blank goes. -/
theorem stripText_concat {t : List Char} {d : Char} (h : ∀ c ∈ t, isSpace c = false)
    (hd : isSpace d = true) : stripText (t ++ [d]) = t := by
  have hself := stripText_of_all h
  rw [stripText_eq] at hself ⊢
  cases t with
  | nil =>
    have hdrop : [d].dropWhile isSpace = [] := List.dropWhile_cons_of_pos hd
    rw [List.nil_append, hdrop]
    rfl
  | cons c rest =>
    have hc : ¬isSpace c = true := by simp [h c List.mem_cons_self]
    rw [List.dropWhile_cons_of_neg hc] at hself
    rw [List.cons_append, List.dropWhile_cons_of_neg hc, ← List.cons_append,
      List.rdropWhile_concat_pos _ _ _ hd, hself]

theorem mem_of_mem_stripText {p : List Char} {c : Char} (h : c ∈ stripText p) : c ∈ p := by
  rw [stripText_eq] at h
  exact (List.dropWhile_sublist _).subset ((List.rdropWhile_prefix _ _).subset h)

end PythonText
