import SysibleController.TextLines
import Mathlib.Data.List.Infix

/-! `grep -F`: the lines of a text that contain a fixed text. What a grep does is taken from
POSIX: nothing is said of a pattern that reads like an option, and nothing of a text with a
null character. -/
namespace FixedGrep

open PathText TextLines

/-- What follows the last line break. -/
def unended (c : Text) : Text := (lines c).getLast (lines_ne_nil c)

/-- The lines of a file; without a line break at its end, the last one counts as well. -/
def records (c : Text) : List Text :=
  (lines c).dropLast ++ if unended c = [] then [] else [unended c]

def terminated (ls : List Text) : Text := ls.flatMap fun l => l ++ ['\n']

def null : Char := '\x00'

structure Options where
  invert : Bool
  whole : Bool
  quiet : Bool
  /-- The pattern comes after `--`. -/
  ended : Bool

/-- A pattern for each line; an empty one is in every line. -/
def matchesLine (whole : Bool) (pattern line : Text) : Bool :=
  (lines pattern).any fun p => if whole then line = p else decide (p <:+: line)

def selected (o : Options) (pattern c : Text) : List Text :=
  (records c).filter fun l => matchesLine o.whole pattern l != o.invert

/-- What is written, and whether a line was selected. -/
abbrev Grep := Options → Text → Text → Text × Bool

def OptionLike (pattern : Text) : Prop := pattern.head? = some '-' ∧ pattern ≠ ['-']

instance (pattern : Text) : Decidable (OptionLike pattern) := inferInstanceAs (Decidable (_ ∧ _))

/-- The pattern is taken for one, after `--` or before, and the file is a text. -/
def Plain (ended : Bool) (pattern c : Text) : Prop :=
  (ended = true ∨ ¬OptionLike pattern) ∧ null ∉ pattern ∧ null ∉ c

instance (ended : Bool) (pattern c : Text) : Decidable (Plain ended pattern c) :=
  inferInstanceAs (Decidable (_ ∧ _))

def answer (o : Options) (pattern c : Text) : Text × Bool :=
  (if o.quiet then [] else terminated (selected o pattern c), !(selected o pattern c).isEmpty)

def Conforming (grep : Grep) : Prop :=
  ∀ o pattern c, Plain o.ended pattern c → grep o pattern c = answer o pattern c

/-- A grep that answers as it likes where nothing is said. -/
def wayward (other : Text × Bool) : Grep := fun o pattern c =>
  if Plain o.ended pattern c then answer o pattern c else other

theorem conforming_wayward (other : Text × Bool) : Conforming (wayward other) :=
  fun _ _ _ h => if_pos h

theorem wayward_of_not {other : Text × Bool} {o : Options} {pattern c : Text}
    (h : ¬Plain o.ended pattern c) : wayward other o pattern c = other := if_neg h

variable {c l line : Text} {ls : List Text}

theorem Plain.append {ended : Bool} {pattern x : Text} (h : Plain ended pattern c)
    (hx : null ∉ x) : Plain ended pattern (c ++ x) := by
  refine ⟨h.1, h.2.1, ?_⟩
  rw [List.mem_append]
  exact not_or.mpr ⟨h.2.2, hx⟩

theorem null_line (h : null ∉ line) : null ∉ line ++ ['\n'] := by
  rw [List.mem_append]
  exact not_or.mpr ⟨h, by simp [null]⟩

theorem lines_terminated (h : ∀ l ∈ ls, '\n' ∉ l) (l : Text) :
    lines (terminated ls ++ l) = ls ++ lines l := by
  induction ls with
  | nil => rfl
  | cons x xs ih =>
    have hsplit : terminated (x :: xs) ++ l = x ++ '\n' :: (terminated xs ++ l) := by
      simp [terminated]
    rw [hsplit, lines_append, lines_plain (h x List.mem_cons_self),
      ih fun y hy => h y (List.mem_cons_of_mem _ hy)]
    rfl

/-- Every text is some ended lines and what follows them. -/
theorem eq_terminated (c : Text) : c = terminated (lines c).dropLast ++ unended c := by
  have hjoin : ∀ ls : List Text, ∀ hne : ls ≠ [],
      unlines ls = terminated ls.dropLast ++ ls.getLast hne := by
    intro ls hne
    induction ls with
    | nil => exact absurd rfl hne
    | cons x xs ih =>
      cases xs with
      | nil => simp [unlines, terminated]
      | cons y ys =>
        rw [unlines_cons (by simp), ih (by simp)]
        simp [terminated]
  calc c = unlines (lines c) := (unlines_lines c).symm
    _ = _ := hjoin _ _

theorem newline_dropLast : ∀ x ∈ (lines c).dropLast, '\n' ∉ x := fun _ hx =>
  newline_notMem (List.mem_of_mem_dropLast hx)

theorem newline_unended : '\n' ∉ unended c := newline_notMem (List.getLast_mem _)

theorem unended_terminated (h : ∀ l ∈ ls, '\n' ∉ l) (hl : '\n' ∉ l) :
    unended (terminated ls ++ l) = l := by
  have hlines : lines (terminated ls ++ l) = ls ++ [l] := by rw [lines_terminated h, lines_plain hl]
  simp only [unended, hlines, List.getLast_concat]

theorem records_terminated (h : ∀ l ∈ ls, '\n' ∉ l) (hl : '\n' ∉ l) :
    records (terminated ls ++ l) = ls ++ if l = [] then [] else [l] := by
  have hlines : lines (terminated ls ++ l) = ls ++ [l] := by rw [lines_terminated h, lines_plain hl]
  rw [records, unended_terminated h hl, hlines, List.dropLast_concat]

theorem newline_records : ∀ x ∈ records c, '\n' ∉ x := by
  intro x hx
  rcases List.mem_append.mp hx with hx | hx
  · exact newline_dropLast x hx
  · split_ifs at hx with h
    · simp at hx
    · rw [List.mem_singleton.mp hx]
      exact newline_unended

/-- Ended lines are read back. -/
theorem records_terminated_nil (h : ∀ l ∈ ls, '\n' ∉ l) : records (terminated ls) = ls := by
  have := records_terminated h (l := []) (by simp)
  simpa using this

theorem records_filter (p : Text → Bool) :
    records (terminated ((records c).filter p)) = (records c).filter p :=
  records_terminated_nil fun l hl => newline_records l (List.mem_filter.mp hl).1

/-- After an ended text, lines are added. -/
theorem records_append (hc : unended c = []) (h : ∀ l ∈ ls, '\n' ∉ l) :
    records (c ++ terminated ls) = records c ++ ls := by
  have hc' := eq_terminated c
  rw [hc, List.append_nil] at hc'
  have hjoin : c ++ terminated ls = terminated ((lines c).dropLast ++ ls) := by
    conv_lhs => rw [hc']
    simp [terminated]
  rw [hjoin, records_terminated_nil, records, if_pos hc, List.append_nil]
  intro l hl
  rcases List.mem_append.mp hl with hl | hl
  · exact newline_dropLast l hl
  · exact h l hl

/-- A line that is appended goes on with the one that is not ended. -/
theorem records_append_line (hline : '\n' ∉ line) :
    records (c ++ (line ++ ['\n'])) = (lines c).dropLast ++ [unended c ++ line] := by
  have hjoin : c ++ (line ++ ['\n']) = terminated ((lines c).dropLast ++ [unended c ++ line]) := by
    conv_lhs => rw [eq_terminated c]
    simp [terminated]
  rw [hjoin, records_terminated_nil]
  intro l hl
  rcases List.mem_append.mp hl with hl | hl
  · exact newline_dropLast l hl
  · rw [List.mem_singleton.mp hl, List.mem_append]
    exact not_or.mpr ⟨newline_unended, hline⟩

/-- A pattern of one line. -/
theorem matchesLine_plain {pattern : Text} (h : '\n' ∉ pattern) (l : Text) :
    matchesLine false pattern l = decide (pattern <:+: l) := by
  simp [matchesLine, lines_plain h]

theorem matchesLine_whole {pattern : Text} (h : '\n' ∉ pattern) (l : Text) :
    matchesLine true pattern l = decide (l = pattern) := by
  simp [matchesLine, lines_plain h]

/-- The lines that do not contain the text. -/
def without (pattern c : Text) : List Text := (records c).filter fun l => !decide (pattern <:+: l)

/-- `grep -vF`. -/
def keep (ended : Bool) : Options := ⟨true, false, false, ended⟩

theorem selected_keep {pattern : Text} (ended : Bool) (h : '\n' ∉ pattern) (c : Text) :
    selected (keep ended) pattern c = without pattern c := by
  refine List.filter_congr fun l _ => ?_
  rw [keep, matchesLine_plain h, Bool.bne_true]

theorem answer_keep {pattern : Text} (ended : Bool) (h : '\n' ∉ pattern) (c : Text) :
    answer (keep ended) pattern c =
      (terminated (without pattern c), !(without pattern c).isEmpty) := by
  rw [answer, selected_keep ended h]
  rfl

/-- `grep -F`. -/
def find (ended : Bool) : Options := ⟨false, false, false, ended⟩

/-- Nothing is found exactly where everything is kept. -/
theorem selected_find_eq_nil {pattern : Text} {ended : Bool} {c : Text} :
    selected (find ended) pattern c = [] ↔ selected (keep ended) pattern c = records c := by
  simp [selected, find, keep, List.filter_eq_nil_iff, List.filter_eq_self]

/-- No line contains a text of several lines. -/
theorem without_of_newline {pattern : Text} (h : '\n' ∈ pattern) (c : Text) :
    without pattern c = records c := by
  rw [without, List.filter_eq_self]
  intro l hl
  have hnot : ¬pattern <:+: l := fun hin => newline_records l hl (hin.subset h)
  simpa using hnot

theorem count_terminated (h : ∀ l ∈ ls, '\n' ∉ l) : (terminated ls).count '\n' = ls.length := by
  induction ls with
  | nil => rfl
  | cons x xs ih =>
    have hx : x.count '\n' = 0 := List.count_eq_zero.mpr (h x List.mem_cons_self)
    have hsplit : terminated (x :: xs) = x ++ '\n' :: terminated xs := by simp [terminated]
    rw [hsplit, List.count_append, hx, List.count_cons_self,
      ih fun y hy => h y (List.mem_cons_of_mem _ hy), List.length_cons]
    omega

/-- `grep -qxF`. -/
def holds : Options := ⟨false, true, true, false⟩

theorem answer_holds {pattern : Text} (h : '\n' ∉ pattern) (c : Text) :
    answer holds pattern c = ([], decide (pattern ∈ records c)) := by
  have hselected : selected holds pattern c = (records c).filter fun l => decide (l = pattern) := by
    refine List.filter_congr fun l _ => ?_
    rw [holds, matchesLine_whole h, Bool.bne_false]
  rw [answer, hselected]
  refine Prod.ext rfl ?_
  by_cases hmem : pattern ∈ records c
  · simp [hmem]
  · have hnil : (records c).filter (fun l => decide (l = pattern)) = [] := by
      rw [List.filter_eq_nil_iff]
      intro l hl heq
      exact hmem (of_decide_eq_true heq ▸ hl)
    simp [hmem, hnil]

theorem without_terminated (pattern c : Text) :
    records (terminated (without pattern c)) = without pattern c := records_filter _

theorem without_without (pattern c : Text) :
    without pattern (terminated (without pattern c)) = without pattern c := by
  rw [without, without_terminated, without, List.filter_filter]
  simp

/-- Nothing but line breaks. -/
def blank (n : ℕ) : Text := List.replicate n '\n'

theorem blank_eq (n : ℕ) : blank n = terminated (List.replicate n []) := by
  rw [blank, terminated]
  induction n with
  | zero => rfl
  | succ n ih => simpa [List.replicate_succ] using ih

theorem null_blank (n : ℕ) : null ∉ blank n := fun h =>
  absurd (List.eq_of_mem_replicate h) (by simp [null])

theorem records_append_blank (c : Text) (n : ℕ) :
    records (c ++ blank (n + 1)) = lines c ++ List.replicate n [] := by
  have hend : c ++ ['\n'] = terminated (lines c) := by
    conv_lhs => rw [eq_terminated c]
    conv_rhs => rw [← List.dropLast_concat_getLast (lines_ne_nil c)]
    simp [terminated, unended]
  have hjoin : c ++ blank (n + 1) = terminated (lines c ++ List.replicate n []) := by
    have hcons : c ++ blank (n + 1) = (c ++ ['\n']) ++ blank n := by
      simp [blank, List.replicate_succ]
    rw [hcons, hend, blank_eq, terminated, terminated, terminated, List.flatMap_append]
  rw [hjoin, records_terminated_nil]
  intro l hl
  rcases List.mem_append.mp hl with hl | hl
  · exact newline_notMem hl
  · rw [List.eq_of_mem_replicate hl]
    simp

theorem length_without_le (pattern c : Text) : (without pattern c).length ≤ (records c).length :=
  List.length_filter_le _ _

/-- A file of so many lines, all of them without the text. -/
theorem le_length_without {pattern c : Text} (hp : pattern ≠ []) {before : List Text} {n : ℕ}
    (h : records c = before ++ List.replicate n []) : n ≤ (without pattern c).length := by
  have hfull : (List.replicate n ([] : Text)).filter (fun l => !decide (pattern <:+: l)) =
      List.replicate n [] := by
    rw [List.filter_eq_self]
    intro l hl
    rw [List.eq_of_mem_replicate hl]
    simpa using hp
  rw [without, h, List.filter_append, hfull, List.length_append, List.length_replicate]
  omega

theorem records_blank (n : ℕ) : records (blank n) = List.replicate n [] := by
  rw [blank_eq, records_terminated_nil]
  intro l hl
  rw [List.eq_of_mem_replicate hl]
  simp

/-- One line more than a file has is no selection of its lines. -/
theorem blank_ne_without {pattern : Text} (hp : pattern ≠ []) (c : Text) :
    without pattern (blank ((records c).length + 1)) ≠ without pattern c := by
  intro h
  have hblank : records (blank ((records c).length + 1)) =
      [] ++ List.replicate ((records c).length + 1) [] := records_blank _
  have hmany := le_length_without hp hblank
  have hfew := length_without_le pattern c
  rw [h] at hmany
  omega

end FixedGrep
