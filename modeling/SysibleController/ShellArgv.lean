import SysibleController.ShellSpelling

/-! The words of the simple commands of a command line, as programs get them for arguments. -/
namespace ShellReader

open PathText ShellQuote

/-- The simple commands that are complete, and the words and the last word of the one that is being
read. A number right before a redirection is no word. -/
def progress (words : List Text) : Option Text → List Event →
    List (List Text) × List Text × Option Text
  | cur, [] => ([], words, cur)
  | cur, .char c :: rest => progress words (some (cur.getD [] ++ [c])) rest
  | cur, .quote :: rest => progress words (some (cur.getD [])) rest
  | cur, .gap :: rest => progress (words ++ cur.toList) none rest
  | cur, .sym c :: rest =>
    ((if (c = '<' ∨ c = '>') ∧ cur.any (·.all Char.isDigit) then words else words ++ cur.toList) ::
      (progress [] none rest).1, (progress [] none rest).2)
  | cur, _ :: rest => ((words ++ cur.toList) :: (progress [] none rest).1, (progress [] none rest).2)

/-- The simple commands, after some words. -/
def commandsFrom (words : List Text) (cur : Option Text) (es : List Event) : List (List Text) :=
  match progress words cur es with
  | (before, words, cur) => before ++ [words ++ cur.toList]

def commands (command : Text) : List (List Text) := commandsFrom [] none (read start command).2

/-- The arguments of the first simple command of a program. -/
def argvOf (program command : Text) : Option (List Text) :=
  (commands command).findSome? fun words =>
    match words with
    | [] => none
    | first :: args => if first = program then some args else none

variable {words : List Text} {x a program : Text} {c : Char} {es fs : List Event}

theorem commandsFrom_char (words : List Text) (cur : Option Text) (c : Char) (es : List Event) :
    commandsFrom words cur (.char c :: es) =
      commandsFrom words (some (cur.getD [] ++ [c])) es := rfl

theorem commandsFrom_quote (words : List Text) (cur : Option Text) (es : List Event) :
    commandsFrom words cur (.quote :: es) = commandsFrom words (some (cur.getD [])) es := rfl

theorem commandsFrom_gap (words : List Text) (cur : Option Text) (es : List Event) :
    commandsFrom words cur (.gap :: es) = commandsFrom (words ++ cur.toList) none es := rfl

theorem progress_append (words : List Text) (cur : Option Text) (es fs : List Event) :
    progress words cur (es ++ fs) =
      ((progress words cur es).1 ++
          (progress (progress words cur es).2.1 (progress words cur es).2.2 fs).1,
        (progress (progress words cur es).2.1 (progress words cur es).2.2 fs).2) := by
  induction es generalizing words cur with
  | nil => rfl
  | cons e rest ih =>
    cases e with
    | char c => exact ih _ _
    | quote => exact ih _ _
    | gap => exact ih _ _
    | _ =>
      change (_ :: (progress [] none (rest ++ fs)).1, (progress [] none (rest ++ fs)).2) = _
      rw [ih]
      rfl

theorem commandsFrom_append (words : List Text) (cur : Option Text) (es fs : List Event) :
    commandsFrom words cur (es ++ fs) = (progress words cur es).1 ++
      commandsFrom (progress words cur es).2.1 (progress words cur es).2.2 fs := by
  simp only [commandsFrom, progress_append, List.append_assoc]

/-- The text spells a word: from between two words to the end of that one. -/
def Spells (a x : Text) : Prop := ∃ es, read start a = (⟨.word, [], []⟩, es) ∧
  ∀ words rest, commandsFrom words none (es ++ rest) = commandsFrom words (some x) rest

theorem commandsFrom_spelling (h : Spelling x es) (words : List Text) (cur : Text)
    (rest : List Event) :
    commandsFrom words (some cur) (es ++ rest) = commandsFrom words (some (cur ++ x)) rest := by
  induction h generalizing cur with
  | nil => simp
  | quote _ ih => exact ih cur
  | @char x es c _ ih =>
    rw [List.cons_append, commandsFrom_char, Option.getD_some, ih, List.append_assoc,
      List.singleton_append]

theorem Spells.of_spelling (hread : read start a = (⟨.word, [], []⟩, es)) (h : Spelling x es)
    (hne : es ≠ []) : Spells a x := by
  refine ⟨es, hread, fun words rest => ?_⟩
  cases h with
  | nil => exact absurd rfl hne
  | quote h => exact commandsFrom_spelling h words [] rest
  | @char x es c h => exact commandsFrom_spelling h words [c] rest

/-- Ordinary characters spell themselves. -/
theorem spells_ordinary (hne : x ≠ []) (h : ∀ c ∈ x, ordinary c = true) : Spells x x :=
  .of_spelling (read_ordinary rfl hne h) (spelling_chars x) (by simpa using hne)

/-- A quoted text spells that text. -/
theorem spells_quote (x : Text) : Spells (quote x) x := by
  obtain ⟨es, hread, hes, hne⟩ := @spelling_quote start.mode rfl x
  exact .of_spelling hread hes hne

/-- The word that a text spells. -/
def word (a : Text) : Text := ((commands a).head?.bind List.head?).getD []

theorem word_quote (x : Text) : word (quote x) = x := by
  obtain ⟨es, hread, hwords⟩ := spells_quote x
  have hcommands : commands (quote x) = [[x]] := by
    have hone := hwords [] []
    rw [List.append_nil] at hone
    rw [commands, hread, hone]
    rfl
  rw [word, hcommands]
  rfl

/-- A word and a blank, before the rest of a command. -/
theorem commandsFrom_word (h : Spells a x) (words : List Text) (rest : Text) :
    commandsFrom words none (read start (a ++ ' ' :: rest)).2 =
      commandsFrom (words ++ [x]) none (read start rest).2 := by
  obtain ⟨es, hread, hwords⟩ := h
  have hgap : step ⟨.word, [], []⟩ ' ' = (start, [.gap]) := by decide
  rw [read_append, hread]
  simp only [read, hgap]
  rw [hwords, List.singleton_append, commandsFrom_gap]
  rfl

/-- Quoted words, each before a blank. -/
theorem commandsFrom_words (tokens words : List Text) (rest : Text) :
    commandsFrom words none (read start ((tokens.flatMap fun t => quote t ++ [' ']) ++ rest)).2 =
      commandsFrom (words ++ tokens) none (read start rest).2 := by
  induction tokens generalizing words with
  | nil => simp
  | cons t more ih =>
    have hsplit : ((t :: more).flatMap fun t => quote t ++ [' ']) ++ rest =
        quote t ++ ' ' :: ((more.flatMap fun t => quote t ++ [' ']) ++ rest) := by simp
    rw [hsplit, commandsFrom_word (spells_quote t), ih]
    simp

/-- A program with its first words, behind commands that are not its own. -/
theorem argvOf_of_progress {before : List (List Text)} {command : Text} {more : List (List Text)}
    {args : List Text} (hbefore : before.all (fun ws => ws.head? ≠ some program) = true)
    (h : commands command = before ++ (program :: args) :: more) :
    argvOf program command = some args := by
  have hnone : (before.findSome? fun words =>
      match words with
      | [] => none
      | first :: args => if first = program then some args else none) = none := by
    rw [List.findSome?_eq_none_iff]
    intro ws hws
    have hhead := List.all_eq_true.mp hbefore ws hws
    rw [decide_eq_true_eq] at hhead
    cases ws with
    | nil => rfl
    | cons first args => exact if_neg fun heq => hhead (by rw [heq]; rfl)
  rw [argvOf, h, List.findSome?_append, hnone, List.findSome?_cons]
  simp

end ShellReader
