import SysibleController.ShellArgv
import SysibleController.FixedGrep
import Mathlib.Logic.Function.Basic

/-! A file of assignments that a shell sources, of which the lines that assign one variable are
rewritten. What else the file holds is up to its author: of the shell it is known how it sets a
variable and that it runs complete commands one after another. -/
namespace SourcedFile

open PathText TextLines FixedGrep
open ShellReader (ordinary)

/-- A name that the shell takes for one. -/
def IsVariable (x : Text) : Prop :=
  (∃ c ∈ x.head?, c.isAlpha = true ∨ c = '_') ∧ ∀ c ∈ x, c.isAlphanum = true ∨ c = '_'

/-- A character that stands for itself in double quotes. -/
def inert (c : Char) : Bool := !(c = '"' || c = '\\' || c = '$' || c = '\x60' || c = '\n')

/-- A line that assigns a value and that no expansion changes. -/
inductive Assignment : Text → Text → Text → Prop where
  | quoted {x v : Text} (hx : IsVariable x) (h : ∀ c ∈ v, inert c = true) :
    Assignment (x ++ '=' :: '"' :: (v ++ ['"'])) x v
  | bare {x v : Text} (hx : IsVariable x) (h : ∀ c ∈ v, ordinary c = true ∧ c ≠ '~') :
    Assignment (x ++ '=' :: v) x v

/-- A shell. A variable is settable unless it is read-only or the shell has given up; lines are
complete when no command goes on behind them. What the shell counts by itself, such as `LINENO`,
is no variable here. -/
structure Shell where
  State : Type
  start : State
  var : State → Text → Option Text
  set : State → Text → Text → State
  settable : State → Text → Prop
  Complete : List Text → Prop
  source : State → List Text → State
  var_set : ∀ s x v, settable s x → var (set s x v) x = some v
  var_set_other : ∀ s x y v, y ≠ x → var (set s x v) y = var s y
  set_set : ∀ s x u v, set (set s x u) x v = set s x v
  settable_set : ∀ s x v, settable s x → settable (set s x v) x
  source_append : ∀ s a b, Complete a → source s (a ++ b) = source (source s a) b
  complete_assignment : ∀ line x v, Assignment line x v → Complete [line]
  source_assignment : ∀ s line x v, Assignment line x v → settable s x →
    source s [line] = set s x v

/-- A variable, the value it is to get, and the line that says so. -/
structure Setting where
  name : Text
  value : Text
  line : Text
  assignment : Assignment line name value

/-- How the lines begin that are rewritten. -/
def Setting.key (s : Setting) : Text := s.name ++ ['=']

def Setting.rewrite (s : Setting) (l : Text) : Text := if s.key <+: l then s.line else l

/-- `sed -i 's/^{key}.*/{line}/'`; a last line that is not ended stays so. -/
def Setting.sed (s : Setting) (c : Text) : Text := unlines ((lines c).map s.rewrite)

/-- `echo {line} >>` -/
def Setting.echo (s : Setting) (c : Text) : Text := c ++ (s.line ++ ['\n'])

variable (sh : Shell)

/-- The state after the file was sourced; one that is not there sets nothing. -/
def sourced (file : Option Text) : sh.State := sh.source sh.start (records (file.getD []))

/-- The variable has the value, and every other one what it had. -/
structure Stored (s : Setting) (before after : Option Text) : Prop where
  value : sh.var (sourced sh after) s.name = some s.value
  others : ∀ x, x ≠ s.name → sh.var (sourced sh after) x = sh.var (sourced sh before) x

/-! ### Files that can be changed -/

/-- The lines neither read the variable nor set it. -/
def Ignores (x : Text) (b : List Text) : Prop :=
  ∀ t u, sh.source (sh.set t x u) b = sh.set (sh.source t b) x u

/-- The lines set the variable whatever it was. -/
def Overrides (x : Text) (b : List Text) : Prop :=
  ∀ t u, sh.source (sh.set t x u) b = sh.source t b

/-- The lines do not make the variable read-only. -/
def KeepsSettable (x : Text) (b : List Text) : Prop :=
  ∀ t, sh.settable t x → sh.settable (sh.source t b) x

/-- The line is a whole command, which assigns the variable and does nothing else. -/
structure Assigns (x l : Text) : Prop where
  complete : sh.Complete [l]
  assigns : ∀ t, sh.settable t x → ∃ u, sh.source t [l] = sh.set t x u

/-- What may follow a line that is rewritten: other lines that are rewritten as well, and whole
commands in between that do not pass the old value on. The last ones leave the variable alone. -/
inductive Follows (s : Setting) : List Text → Prop where
  | last {b : List Text} (hb : ∀ l ∈ b, ¬s.key <+: l) (hignores : Ignores sh s.name b)
    (hkeeps : KeepsSettable sh s.name b) : Follows s b
  | more {b rest : List Text} {l : Text} (hb : ∀ l ∈ b, ¬s.key <+: l) (hcomplete : sh.Complete b)
    (hpast : Ignores sh s.name b ∨ Overrides sh s.name b) (hkeeps : KeepsSettable sh s.name b)
    (hl : s.key <+: l) (hassigns : Assigns sh s.name l) (hrest : Follows s rest) :
    Follows s (b ++ l :: rest)

/-- The file has lines to rewrite, the first of them behind whole commands. -/
structure Replaceable (s : Setting) (ls : List Text) : Prop where
  split : ∃ b l rest, ls = b ++ l :: rest ∧ (∀ x ∈ b, ¬s.key <+: x) ∧ sh.Complete b ∧
    sh.settable (sh.source sh.start b) s.name ∧ s.key <+: l ∧ Assigns sh s.name l ∧
    Follows sh s rest

/-- A line can be added: the last line is ended, and so is the last command. -/
structure Appendable (s : Setting) (c : Text) : Prop where
  ended : unended c = []
  complete : sh.Complete (records c)
  settable : sh.settable (sh.source sh.start (records c)) s.name

variable {sh} {s : Setting} {c l : Text} {b rest ls : List Text}

theorem name_newline {x : Text} (hx : IsVariable x) : '\n' ∉ x := by
  intro hmem
  rcases hx.2 _ hmem with h | h
  · exact absurd h (by decide)
  · exact absurd h (by decide)

theorem line_newline (s : Setting) : '\n' ∉ s.line := by
  obtain ⟨name, value, line, hassignment⟩ := s
  cases hassignment with
  | quoted hx h =>
    have hname := name_newline hx
    have hvalue : '\n' ∉ value := fun hmem => absurd (h _ hmem) (by decide)
    simp [hname, hvalue]
  | bare hx h =>
    have hname := name_newline hx
    have hvalue : '\n' ∉ value := fun hmem => absurd (h _ hmem).1 (by decide)
    simp [hname, hvalue]

theorem rewrite_key (h : s.key <+: l) : s.rewrite l = s.line := if_pos h

theorem rewrite_other (h : ¬s.key <+: l) : s.rewrite l = l := if_neg h

theorem map_rewrite (h : ∀ l ∈ b, ¬s.key <+: l) : b.map s.rewrite = b := by
  rw [List.map_congr_left fun l hl => rewrite_other (h l hl), List.map_id']

theorem line_ne_nil (s : Setting) : s.line ≠ [] := by
  obtain ⟨name, value, line, hassignment⟩ := s
  cases hassignment <;> simp

theorem rewrite_eq_nil : s.rewrite l = [] ↔ l = [] := by
  by_cases h : s.key <+: l
  · rw [rewrite_key h]
    refine iff_of_false (line_ne_nil s) ?_
    rintro rfl
    have hkey := List.prefix_nil.mp h
    simp [Setting.key] at hkey
  · rw [rewrite_other h]

theorem lines_sed (s : Setting) (c : Text) : lines (s.sed c) = (lines c).map s.rewrite := by
  have hne : (lines c).map s.rewrite ≠ [] := by simpa using lines_ne_nil c
  rw [Setting.sed, lines_unlines hne, List.flatMap_map]
  have hone : ∀ l ∈ lines c, lines (s.rewrite l) = [s.rewrite l] := by
    intro l hl
    apply lines_plain
    by_cases h : s.key <+: l
    · rw [rewrite_key h]
      exact line_newline s
    · rw [rewrite_other h]
      exact newline_notMem hl
  rw [List.flatMap_congr hone]
  exact List.flatMap_pure_eq_map _ _

/-- The lines are rewritten one by one. -/
theorem records_sed (s : Setting) (c : Text) : records (s.sed c) = (records c).map s.rewrite := by
  have hlast : unended (s.sed c) = s.rewrite (unended c) := by
    simp only [unended, lines_sed, List.getLast_map]
  rw [records, records, hlast, lines_sed, List.map_append, List.map_dropLast]
  by_cases h : unended c = []
  · rw [if_pos h, if_pos (rewrite_eq_nil.mpr h), List.map_nil]
  · rw [if_neg h, if_neg (rewrite_eq_nil.not.mpr h), List.map_singleton]

theorem follows_stored (h : Follows sh s rest) {t : sh.State} (hs : sh.settable t s.name)
    (u : Text) : ∃ t' w, sh.settable t' s.name ∧
      sh.source (sh.set t s.name u) rest = sh.set t' s.name w ∧
      sh.source (sh.set t s.name s.value) (rest.map s.rewrite) = sh.set t' s.name s.value := by
  induction h generalizing t u with
  | @last b hb hignores hkeeps =>
    refine ⟨sh.source t b, u, hkeeps t hs, hignores t u, ?_⟩
    rw [map_rewrite hb, hignores]
  | @more b rest l hb hcomplete hpast hkeeps hl hassigns hrest ih =>
    have hsb := hkeeps t hs
    -- the state behind `b`, in which the line assigns again
    have hafter : ∀ v, ∃ w, sh.source (sh.source (sh.set t s.name v) b) [l] =
        sh.set (sh.source t b) s.name w := by
      intro v
      rcases hpast with hignores | hoverrides
      · obtain ⟨w, hw⟩ := hassigns.assigns _ (sh.settable_set _ s.name v hsb)
        exact ⟨w, by rw [hignores, hw, sh.set_set]⟩
      · obtain ⟨w, hw⟩ := hassigns.assigns _ hsb
        exact ⟨w, by rw [hoverrides, hw]⟩
    have hrewritten : sh.source (sh.source (sh.set t s.name s.value) b) [s.line] =
        sh.set (sh.source t b) s.name s.value := by
      rcases hpast with hignores | hoverrides
      · rw [hignores, sh.source_assignment _ _ _ _ s.assignment (sh.settable_set _ _ _ hsb),
          sh.set_set]
      · rw [hoverrides, sh.source_assignment _ _ _ _ s.assignment hsb]
    obtain ⟨w, hw⟩ := hafter u
    obtain ⟨t', w', ht', hold, hnew⟩ := ih hsb w
    refine ⟨t', w', ht', ?_, ?_⟩
    · rw [sh.source_append _ _ _ hcomplete, ← List.singleton_append,
        sh.source_append _ _ _ hassigns.complete, hw, hold]
    · rw [List.map_append, List.map_cons, map_rewrite hb, rewrite_key hl,
        sh.source_append _ _ _ hcomplete, ← List.singleton_append,
        sh.source_append _ _ _ (sh.complete_assignment _ _ _ s.assignment), hrewritten, hnew]

theorem Stored.of_set {before after : Option Text} {t : sh.State} {w : Text}
    (hs : sh.settable t s.name) (hbefore : sourced sh before = sh.set t s.name w)
    (hafter : sourced sh after = sh.set t s.name s.value) : Stored sh s before after := by
  constructor
  · rw [hafter, sh.var_set _ _ _ hs]
  · intro x hx
    rw [hafter, hbefore, sh.var_set_other _ _ _ _ hx, sh.var_set_other _ _ _ _ hx]

theorem stored_sed (h : Replaceable sh s (records c)) :
    Stored sh s (some c) (some (s.sed c)) := by
  obtain ⟨b, l, rest, hsplit, hb, hcomplete, hs, hl, hassigns, hrest⟩ := h.split
  obtain ⟨u, hu⟩ := hassigns.assigns _ hs
  obtain ⟨t', w, ht', hold, hnew⟩ := follows_stored hrest hs u
  apply Stored.of_set ht'
  · rw [sourced, Option.getD_some, hsplit, sh.source_append _ _ _ hcomplete,
      ← List.singleton_append, sh.source_append _ _ _ hassigns.complete, hu, hold]
  · rw [sourced, Option.getD_some, records_sed, hsplit, List.map_append, List.map_cons,
      map_rewrite hb, rewrite_key hl, sh.source_append _ _ _ hcomplete,
      ← List.singleton_append, sh.source_append _ _ _ (sh.complete_assignment _ _ _ s.assignment),
      sh.source_assignment _ _ _ _ s.assignment hs, hnew]

theorem stored_echo {file : Option Text} (h : Appendable sh s (file.getD [])) :
    Stored sh s file (some (s.echo (file.getD []))) := by
  have hnew : sourced sh (some (s.echo (file.getD []))) =
      sh.set (sourced sh file) s.name s.value := by
    have hrecords : records (s.echo (file.getD [])) = records (file.getD []) ++ [s.line] := by
      have hone : s.line ++ ['\n'] = terminated [s.line] := by simp [terminated]
      rw [Setting.echo, hone]
      apply records_append h.ended
      intro l hl
      rw [List.mem_singleton.mp hl]
      exact line_newline s
    rw [sourced, Option.getD_some, hrecords, sh.source_append _ _ _ h.complete,
      sh.source_assignment _ _ _ _ s.assignment h.settable]
    rfl
  constructor
  · rw [hnew]
    exact sh.var_set _ _ _ h.settable
  · intro x hx
    rw [hnew, sh.var_set_other _ _ _ _ hx]

/-! ### A shell for files of plain assignments -/

theorem read_inert {v : Text} (h : ∀ c ∈ v, inert c = true) :
    ShellReader.read ⟨.double, [], []⟩ (v ++ ['"']) =
      (⟨.word, [], []⟩, v.map .char) := by
  induction v with
  | nil => rfl
  | cons c v ih =>
    have hc := h c List.mem_cons_self
    simp only [inert, Bool.not_eq_true', Bool.or_eq_false_iff, decide_eq_false_iff_not] at hc
    obtain ⟨⟨⟨⟨hquote, hback⟩, hdollar⟩, htick⟩, -⟩ := hc
    have hstep : ShellReader.step ⟨.double, [], []⟩ c = (⟨.double, [], []⟩, [.char c]) := by
      simp [ShellReader.step, ShellReader.dquoted, hquote, hback, hdollar, htick]
    simp only [List.cons_append, ShellReader.read, hstep, List.map_cons]
    rw [ih fun d hd => h d (List.mem_cons_of_mem _ hd)]
    rfl

theorem word_of_spells {a x : Text} (h : ShellReader.Spells a x) : ShellReader.word a = x := by
  obtain ⟨es, hread, hwords⟩ := h
  have hcommands : ShellReader.commands a = [[x]] := by
    have hone := hwords [] []
    rw [List.append_nil] at hone
    rw [ShellReader.commands, hread, hone]
    rfl
  rw [ShellReader.word, hcommands]
  rfl

theorem word_quoted {v : Text} (h : ∀ c ∈ v, inert c = true) :
    ShellReader.word ('"' :: (v ++ ['"'])) = v := by
  apply word_of_spells
  apply @ShellReader.Spells.of_spelling v _ (.quote :: v.map .char)
  · have hstep : ShellReader.step ShellReader.start '"' = (⟨.double, [], []⟩, [.quote]) := by decide
    simp only [ShellReader.read, hstep]
    rw [read_inert h]
    rfl
  · exact .quote (ShellReader.spelling_chars v)
  · exact List.cons_ne_nil _ _

theorem word_bare {v : Text} (h : ∀ c ∈ v, ordinary c = true ∧ c ≠ '~') :
    ShellReader.word v = v := by
  by_cases hv : v = []
  · rw [hv]
    decide
  · exact word_of_spells (ShellReader.spells_ordinary hv fun c hc => (h c hc).1)

/-- What a line assigns, where it is nothing but an assignment of a text. -/
def plainLine (m : Text → Option Text) (l : Text) : Text → Option Text :=
  match l.dropWhile (· ≠ '=') with
  | [] => m
  | _ :: v => Function.update m (l.takeWhile (· ≠ '=')) (some (ShellReader.word v))

theorem plainLine_eq {m : Text → Option Text} {x v : Text} (hx : IsVariable x) :
    plainLine m (x ++ '=' :: v) = Function.update m x (some (ShellReader.word v)) := by
  have hall : ∀ c ∈ x, decide (c ≠ '=') = true := by
    intro c hc
    rw [decide_eq_true_eq]
    rintro rfl
    rcases hx.2 _ hc with h | h
    · exact absurd h (by decide)
    · exact absurd h (by decide)
  rw [plainLine, List.dropWhile_append_of_pos hall, List.takeWhile_append_of_pos hall]
  simp

/-- It does what a shell does with files of such lines. -/
def plainShell : Shell where
  State := Text → Option Text
  start := fun _ => none
  var := fun m x => m x
  set := fun m x v => Function.update m x (some v)
  settable := fun _ _ => True
  Complete := fun _ => True
  source := fun m ls => ls.foldl plainLine m
  var_set := fun _ _ _ _ => Function.update_self ..
  var_set_other := fun _ _ _ _ h => Function.update_of_ne h ..
  set_set := fun _ _ _ _ => Function.update_idem ..
  settable_set := fun _ _ _ _ => trivial
  source_append := fun _ _ _ _ => List.foldl_append
  complete_assignment := fun _ _ _ _ => trivial
  source_assignment := by
    intro m line x v h _
    cases h with
    | quoted hx h => exact (plainLine_eq hx).trans (by rw [word_quoted h])
    | bare hx h => exact (plainLine_eq hx).trans (by rw [word_bare h])

end SourcedFile
