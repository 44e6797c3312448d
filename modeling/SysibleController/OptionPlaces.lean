import SysibleController.ShellArgv

/-! The words of a command that an operator has a part in, and the place that a tool gives each of
them: where it still accepts options, as the value of the option before, or behind a `--`. -/
namespace OptionPlaces

open PathText ShellQuote
open ShellReader (word word_quote)

/-- A word of the program's own; one that is meant as an operand, of the operator's text between
the program's; the operator's text as the value of the option before; or such a value in one word
with its option. -/
inductive Word where
  | fixed (t : Text)
  | operand (front typed back : Text)
  | value (typed : Text)
  | attached (option typed : Text)
  deriving DecidableEq

/-- What the shell reads: the operator's text is in quotes. -/
def Word.text : Word → Text
  | .fixed t => t
  | .operand front typed back => front ++ word (quote typed) ++ back
  | .value typed => word (quote typed)
  | .attached option typed => option ++ word (quote typed)

/-- What a tool takes a word for. -/
inductive Taken where
  | option (t : Text)
  | value (t : Text)
  | operand (t : Text)
  deriving DecidableEq

def Word.meant : Word → Taken
  | .fixed t => .option t
  | .operand front typed back => .operand (front ++ typed ++ back)
  | .value typed => .value typed
  | .attached option typed => .option (option ++ typed)

def Word.isOperand : Word → Bool
  | .operand _ _ _ => true
  | _ => false

def Word.isValue : Word → Bool
  | .value _ => true
  | _ => false

def Word.isFixed : Word → Bool
  | .fixed _ => true
  | _ => false

inductive Place where
  | open
  | value
  | closed
  deriving DecidableEq

/-- A tool, by the options that take the next word for their value. -/
abbrev Tool := List Text

variable (tool : Tool)

def next (p : Place) (t : Text) : Place :=
  match p with
  | .closed => .closed
  | .value => .open
  | .open => if t = "--".toList then .closed else if t ∈ tool then .value else .open

def placed : Place → List Word → List (Place × Word)
  | _, [] => []
  | p, w :: rest => (p, w) :: placed (next tool p w.text) rest

/-- A dash alone is an operand. -/
def taken : Place → Text → Taken
  | .value, t => .value t
  | .closed, t => .operand t
  | .open, t => if t.head? = some '-' ∧ t ≠ ['-'] then .option t else .operand t

/-- The tool takes the word for what it is meant as, and where it accepts options the word does
not look like one. A word that brings its option along begins with the program's own dash. -/
structure Sound (pw : Place × Word) : Prop where
  undashed : pw.1 = .open → (pw.2.isOperand || pw.2.isValue) = true →
    pw.2.text.head? ≠ some '-'
  received : pw.2.isFixed = false → taken pw.1 pw.2.text = pw.2.meant

/-- The place after a word that is no option by accident. -/
def after (p : Place) : Word → Place
  | .fixed t => next tool p t
  | _ => .open

def fitsHere (p : Place) : Word → Bool
  | .fixed _ => true
  | .operand _ _ _ => p = .open
  | .value _ => p = .value
  | .attached option _ => p = .open && option.head? = some '-' && '=' ∈ option

/-- The program's own words put every other word where it is meant to be. -/
def fits : Place → List Word → Bool
  | _, [] => true
  | p, w :: rest => fitsHere p w && fits (after tool p w) rest

/-- The options have the looks of options. -/
def Proper : Prop := ∀ o ∈ tool, o.head? = some '-' ∧ '=' ∉ o

instance : Decidable (Proper tool) := inferInstanceAs (Decidable (∀ o ∈ tool, _))

variable {tool} {p : Place} {w : Word} {words : List Word} {t : Text}

theorem taken_open (h : t.head? ≠ some '-') : taken .open t = .operand t := by
  rw [taken, if_neg]
  intro ⟨hdash, _⟩
  exact h hdash

theorem next_open (htool : Proper tool) (h : t.head? ≠ some '-') : next tool .open t = .open := by
  have hend : t ≠ "--".toList := by
    rintro rfl
    exact h rfl
  have hoption : t ∉ tool := fun hmem => h (htool t hmem).1
  rw [next, if_neg hend, if_neg hoption]

theorem sound_fixed (p : Place) (t : Text) : Sound (p, .fixed t) := by
  constructor
  · intro _ h
    cases h
  · intro h
    cases h

theorem sound_value (typed : Text) : Sound (.value, .value typed) := by
  constructor
  · intro h
    cases h
  · intro _
    change Taken.value (word (quote typed)) = Taken.value typed
    rw [word_quote]

theorem sound_attached {option : Text} (hdash : option.head? = some '-') (heq : '=' ∈ option)
    (typed : Text) : Sound (.open, .attached option typed) := by
  constructor
  · intro _ h
    cases h
  · intro _
    have htext : (Word.attached option typed).text = option ++ typed := by
      rw [Word.text, word_quote]
    have hhead : (option ++ typed).head? = some '-' := by
      rw [List.head?_append, hdash, Option.some_or]
    have hne : option ++ typed ≠ ['-'] := by
      intro h
      have hmem : '=' ∈ option ++ typed := List.mem_append_left _ heq
      rw [h] at hmem
      exact absurd hmem (by decide)
    change taken .open (Word.attached option typed).text = _
    rw [htext, taken, if_pos ⟨hhead, hne⟩, Word.meant]

theorem sound_operand (front typed back : Text) : Sound (.open, .operand front typed back) ↔
    (Word.operand front typed back).text.head? ≠ some '-' := by
  constructor
  · intro h
    exact h.undashed rfl rfl
  · intro h
    refine ⟨fun _ _ => h, fun _ => ?_⟩
    change taken .open (Word.operand front typed back).text = _
    rw [taken_open h, Word.text, word_quote, Word.meant]

theorem sound_head (h : fitsHere p w = true) :
    Sound (p, w) ↔ (w.isOperand = true → w.text.head? ≠ some '-') := by
  cases w with
  | fixed t => exact iff_of_true (sound_fixed p t) fun h => by cases h
  | operand front typed back =>
    obtain rfl := of_decide_eq_true h
    rw [sound_operand]
    exact ⟨fun h _ => h, fun h => h rfl⟩
  | value typed =>
    obtain rfl := of_decide_eq_true h
    exact iff_of_true (sound_value typed) fun h => by cases h
  | attached option typed =>
    simp only [fitsHere, Bool.and_eq_true, decide_eq_true_eq] at h
    obtain ⟨⟨rfl, hdash⟩, heq⟩ := h
    exact iff_of_true (sound_attached hdash heq typed) fun h => by cases h

theorem next_eq_after (htool : Proper tool) (h : fitsHere p w = true)
    (hw : w.isOperand = true → w.text.head? ≠ some '-') :
    next tool p w.text = after tool p w := by
  cases w with
  | fixed t => rfl
  | operand front typed back =>
    obtain rfl := of_decide_eq_true h
    exact next_open htool (hw rfl)
  | value typed =>
    obtain rfl := of_decide_eq_true h
    rfl
  | attached option typed =>
    simp only [fitsHere, Bool.and_eq_true, decide_eq_true_eq] at h
    obtain ⟨⟨rfl, hdash⟩, heq⟩ := h
    have hmem : '=' ∈ (Word.attached option typed).text := List.mem_append_left _ heq
    have hend : (Word.attached option typed).text ≠ "--".toList := by
      intro h
      rw [h] at hmem
      exact absurd hmem (by decide)
    have hoption : (Word.attached option typed).text ∉ tool := fun h => (htool _ h).2 hmem
    rw [next, if_neg hend, if_neg hoption]
    rfl

/-- Where the words are put right, all that can go wrong is an operand that begins with a dash. -/
theorem sound_iff (htool : Proper tool) (h : fits tool p words = true) :
    (∀ pw ∈ placed tool p words, Sound pw) ↔
      ∀ w ∈ words, w.isOperand = true → w.text.head? ≠ some '-' := by
  induction words generalizing p with
  | nil => exact iff_of_true (fun _ h => by cases h) fun _ h => by cases h
  | cons w rest ih =>
    rw [fits, Bool.and_eq_true] at h
    rw [placed, List.forall_mem_cons, List.forall_mem_cons, sound_head h.1]
    apply and_congr_right
    intro hw
    rw [next_eq_after htool h.1 hw]
    exact ih h.2

end OptionPlaces
