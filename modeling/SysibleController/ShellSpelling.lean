import SysibleController.ShellReader

/-! What a shell makes of the text of one word: events that spell the word, with quotes between
its characters. -/
namespace ShellReader

open PathText ShellQuote

/-- Events that spell a text: its characters, and quotes around any of them. -/
inductive Spelling : Text → List Event → Prop
  | nil : Spelling [] []
  | quote {x : Text} {es : List Event} : Spelling x es → Spelling x (.quote :: es)
  | char {x : Text} {es : List Event} {c : Char} : Spelling x es → Spelling (c :: x) (.char c :: es)

theorem spelling_chars (x : Text) : Spelling x (x.map .char) := by
  induction x with
  | nil => exact .nil
  | cons c x ih => exact .char ih

theorem read_within {x : Text} (h : ∀ c ∈ x, ordinary c = true) :
    read ⟨.word, [], []⟩ x = (⟨.word, [], []⟩, x.map .char) := by
  induction x with
  | nil => rfl
  | cons c rest ih =>
    have hstep : step ⟨.word, [], []⟩ c = (⟨.word, [], []⟩, [.char c]) := by
      rw [step_plain rfl, plain_ordinary (h c List.mem_cons_self)]
    rw [read, hstep, ih fun d hd => h d (List.mem_cons_of_mem c hd)]
    rfl

/-- Ordinary characters are a word, between words and within one. -/
theorem read_ordinary {m : Mode} {x : Text} (hm : m.isPlain = true) (hne : x ≠ [])
    (h : ∀ c ∈ x, ordinary c = true) : read ⟨m, [], []⟩ x = (⟨.word, [], []⟩, x.map .char) := by
  obtain ⟨c, rest, rfl⟩ := List.exists_cons_of_ne_nil hne
  have hstep : step ⟨m, [], []⟩ c = (⟨.word, [], []⟩, [.char c]) := by
    rw [step_plain hm, plain_ordinary (h c List.mem_cons_self)]
  have hrest := read_within fun d hd => h d (List.mem_cons_of_mem c hd)
  rw [read, hstep, hrest]
  rfl

theorem spelling_escaped (x : Text) : ∃ es, read ⟨.single, [], []⟩ (escaped x ++ ['\'']) =
    (⟨.word, [], []⟩, es) ∧ Spelling x es := by
  induction x with
  | nil => exact ⟨[], rfl, .nil⟩
  | cons c more ih =>
    obtain ⟨es, hread, hes⟩ := ih
    by_cases hc : c = '\''
    · have hsplit : escaped (c :: more) ++ ['\''] =
          "'\"'\"'".toList ++ (escaped more ++ ['\'']) := by
        simp [escaped, hc]
      have hmarks : read ⟨.single, [], []⟩ "'\"'\"'".toList =
          (⟨.single, [], []⟩, [.quote, .char '\'', .quote]) := by decide
      refine ⟨[.quote, .char '\'', .quote] ++ es, ?_, ?_⟩
      · rw [hsplit, read_append, hmarks, hread]
      · rw [hc]
        exact .quote (.char (.quote hes))
    · have hsplit : escaped (c :: more) ++ ['\''] = c :: (escaped more ++ ['\'']) := by
        simp [escaped, hc]
      have hstep : step ⟨.single, [], []⟩ c = (⟨.single, [], []⟩, [.char c]) := by
        simp [step, hc]
      refine ⟨.char c :: es, ?_, .char hes⟩
      rw [hsplit, read, hstep, hread]
      rfl

/-- A quoted text is read as events that spell it, between words and within one. -/
theorem spelling_quote {m : Mode} (hm : m.isPlain = true) (x : Text) :
    ∃ es, read ⟨m, [], []⟩ (quote x) = (⟨.word, [], []⟩, es) ∧ Spelling x es ∧ es ≠ [] := by
  have hmark : step ⟨m, [], []⟩ '\'' = (⟨.single, [], []⟩, [.quote]) := by
    rw [step_plain hm]
    rfl
  unfold quote
  split_ifs with hnil hsafe
  · subst hnil
    refine ⟨[.quote], ?_, .quote .nil, by simp⟩
    change read ⟨m, [], []⟩ ['\'', '\''] = _
    rw [read, hmark]
    rfl
  · have hordinary : ∀ c ∈ x, ordinary c = true := fun c hc =>
      ordinary_of_safe (List.all_eq_true.mp hsafe c hc)
    exact ⟨x.map .char, read_ordinary hm hnil hordinary, spelling_chars x, by simpa using hnil⟩
  · obtain ⟨es, hread, hes⟩ := spelling_escaped x
    refine ⟨.quote :: es, ?_, .quote hes, by simp⟩
    rw [List.cons_append, read, hmark, hread]
    rfl

end ShellReader
