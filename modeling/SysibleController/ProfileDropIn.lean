import SysibleController.EarlyExit
import SysibleController.FixedGrep
import SysibleController.HeredocBuilders
import SysibleController.ShellArgv

/-! The drop-in files of `/etc/profile.d`, one of environment variables and one of aliases: each
is changed line by line and read by a login shell. -/
namespace ProfileDropIn

open PathText TextLines ShellQuote FixedGrep PythonText EarlyExit
open ShellReader

/-- What sets the two files apart. -/
structure DropIn where
  keyword : Text
  aliases : Bool
  nameChar : Char → Bool
  badName : String

def env : DropIn where
  keyword := "export".toList
  aliases := false
  nameChar c := c.isAlphanum || c = '_'
  badName := "Environment variable name must start with a letter or underscore and " ++
    "contain only letters, digits, and underscores."

def aliases : DropIn where
  keyword := "alias".toList
  aliases := true
  nameChar c := c.isAlphanum || c = '_' || c = '-'
  badName := "Alias name must start with a letter or underscore and contain only " ++
    "letters, digits, underscores, or hyphens."

/-- `_validate_env_key` and `_validate_alias_name`. -/
def validateName (d : DropIn) (name : Text) : Except String Text :=
  let name := stripText name
  match name with
  | [] => .error d.badName
  | c :: rest =>
    if (c.isAlpha || c = '_') && rest.all d.nameChar then .ok name else .error d.badName

def definition (d : DropIn) (name : Text) : Text := d.keyword ++ ' ' :: (name ++ ['='])

/-- `export {key}={shlex.quote(value)}`. -/
def line (d : DropIn) (name value : Text) : Text := definition d name ++ quote value

/-- `sed -i '/^{start}/d'`, for a start without signs of a pattern. -/
def sedDelete (start c : Text) : Text :=
  terminated ((lines c).dropLast.filter fun l => !decide (start <+: l)) ++
    if start <+: unended c then [] else unended c

def setScript (d : DropIn) (name value : Text) (file : Option Text) : Option Text :=
  -- touch {f} && chmod 644 {f}; sed -i '/^export {key}=/d' {f}; printf '%s\n' {line} >> {f}
  some (sedDelete (definition d name) (file.getD []) ++
    (word (quote (line d name value)) ++ ['\n']))

def unsetScript (d : DropIn) (name : Text) (file : Option Text) : Option Text :=
  file.map (sedDelete (definition d name))

/-- `cmd_set_env_var` and `cmd_set_alias`; an alias may not be blank. -/
def cmdSet (d : DropIn) (name value : Text) : Except String (Option Text → Option Text) := do
  let name ← validateName d name
  HeredocBuilders.rejectNewlines (if d.aliases then "command" else "value") value
  if d.aliases ∧ stripText value = [] then .error "Alias command cannot be empty."
  else .ok (setScript d name value)

/-- `cmd_unset_env_var` and `cmd_remove_alias`. -/
def cmdUnset (d : DropIn) (name : Text) : Except String (Option Text → Option Text) := do
  let name ← validateName d name
  .ok (unsetScript d name)

inductive Op where
  | set (name value : Text)
  | unset (name : Text)

def Op.command (d : DropIn) : Op → Except String (Option Text → Option Text)
  | .set name value => cmdSet d name value
  | .unset name => cmdUnset d name

/-- The file after some commands, on a host that starts without it. -/
def run (d : DropIn) (ops : List Op) : Except String (Option Text) :=
  ops.foldlM (fun file op => (op.command d).map fun script => script file) none

abbrev Definitions := Text → Option Text

def Op.apply (m : Definitions) : Op → Definitions
  | .set name value => Function.update m (stripText name) (some value)
  | .unset name => Function.update m (stripText name) none

/-- The names whose last operation was a set, with the values last set. -/
def last (ops : List Op) : Definitions := ops.foldl Op.apply fun _ => none

/-- A POSIX shell: the variables that it sets on its own, and what any command that defines
nothing by itself does to the definitions. -/
structure Shell where
  own : Text → Bool
  astray : Definitions → List Text → Definitions

/-- A definition takes effect unless its keyword is an alias or its variable the shell's own. -/
def sourceStep (d : DropIn) (shell : Shell) (m : Definitions) (words : List Text) : Definitions :=
  match words with
  | [] => m
  | [keyword, arg] =>
    if keyword ≠ d.keyword ∨ '=' ∉ arg ∨ (d.aliases ∧ (m keyword).isSome) ∨
        (¬d.aliases ∧ shell.own (arg.takeWhile (· ≠ '='))) then
      shell.astray m words
    else Function.update m (arg.takeWhile (· ≠ '=')) (some ((arg.dropWhile (· ≠ '=')).drop 1))
  | _ => shell.astray m words

/-- Sourcing the file, line after line. -/
def source (d : DropIn) (shell : Shell) (file : Option Text) : Definitions :=
  (commands (file.getD [])).foldl (sourceStep d shell) fun _ => none

/-- No alias is called `alias`, and no variable is the shell's own. -/
def Tame (d : DropIn) (shell : Shell) : Op → Prop
  | .set name _ =>
    if d.aliases then stripText name ≠ d.keyword else shell.own (stripText name) = false
  | .unset _ => True

variable {d : DropIn} {shell : Shell} {name value opening c : Text} {ls : List Text}
  {m : Definitions} {entries : List (Text × Text)}

/-! ### The words of a line -/

theorem spelling_append {x y : Text} {es : List Event} (h : Spelling y es) :
    Spelling (x ++ y) (x.map .char ++ es) := by
  induction x with
  | nil => exact h
  | cons c x ih => exact .char ih

/-- An ordinary opening and a quoted text make one word. -/
theorem spells_opening_quote (hne : opening ≠ []) (h : ∀ c ∈ opening, ordinary c = true)
    (x : Text) : Spells (opening ++ quote x) (opening ++ x) := by
  have hopening : ShellReader.read start opening = (⟨.word, [], []⟩, opening.map .char) :=
    read_ordinary rfl hne h
  obtain ⟨es, hread, hes, -⟩ := @spelling_quote .word rfl x
  have hboth : ShellReader.read start (opening ++ quote x) =
      (⟨.word, [], []⟩, opening.map .char ++ es) := by
    rw [read_append, hopening, hread]
  exact .of_spelling hboth (spelling_append hes) (by simp [hne])

/-- A word at the end of a line is the last one of its command. -/
theorem commandsFrom_line {a x : Text} (h : Spells a x) (words : List Text) (rest : Text) :
    commandsFrom words none (ShellReader.read start (a ++ '\n' :: rest)).2 =
      (words ++ [x]) :: commands rest := by
  obtain ⟨es, hread, hwords⟩ := h
  have hend : step ⟨.word, [], []⟩ '\n' = (start, [.newline]) := by decide
  rw [read_append, hread]
  simp only [ShellReader.read, hend]
  rw [hwords, List.singleton_append]
  rfl

structure GoodName (d : DropIn) (name : Text) : Prop where
  nonempty : name ≠ []
  ordinary : ∀ c ∈ name, ordinary c = true
  equals : '=' ∉ name
  newline : '\n' ∉ name

/-- The keyword is a word of its own. -/
structure GoodKeyword (d : DropIn) : Prop where
  nonempty : d.keyword ≠ []
  ordinary : ∀ c ∈ d.keyword, ordinary c = true
  newline : '\n' ∉ d.keyword

/-- The entries of a file, as they stand in it. -/
def render (d : DropIn) (entries : List (Text × Text)) : Text :=
  terminated (entries.map fun e => line d e.1 e.2)

theorem commands_render (hd : GoodKeyword d) (h : ∀ e ∈ entries, GoodName d e.1) :
    commands (render d entries) =
      entries.map (fun e => [d.keyword, e.1 ++ '=' :: e.2]) ++ [[]] := by
  induction entries with
  | nil => rfl
  | cons e rest ih =>
    have hname := h e List.mem_cons_self
    have hsplit : render d (e :: rest) =
        d.keyword ++ ' ' :: ((e.1 ++ ['='] ++ quote e.2) ++ '\n' :: render d rest) := by
      simp [render, terminated, line, definition]
    have hword : Spells (e.1 ++ ['='] ++ quote e.2) (e.1 ++ ['='] ++ e.2) := by
      refine spells_opening_quote (by simp) ?_ e.2
      intro c hc
      rcases List.mem_append.mp hc with hc | hc
      · exact hname.ordinary c hc
      · rw [List.mem_singleton.mp hc]
        decide
    rw [commands, hsplit, commandsFrom_word (spells_ordinary hd.nonempty hd.ordinary),
      commandsFrom_line hword, ih fun e he => h e (List.mem_cons_of_mem _ he)]
    simp

/-! ### One entry for each name -/

/-- A definition opens the lines of its own name only. -/
theorem definition_prefix {n : Text} (hname : '=' ∉ name) (hn : '=' ∉ n) :
    definition d name <+: line d n value ↔ n = name := by
  constructor
  · intro h
    simp only [definition, line, List.append_assoc, List.cons_append,
      List.prefix_append_right_inj, List.cons_prefix_cons, true_and, List.nil_append] at h
    obtain ⟨rest, hrest⟩ := h
    have htake := congrArg (List.takeWhile (· ≠ '=')) hrest
    have hall : ∀ t : Text, '=' ∉ t → ∀ c ∈ t, decide (c ≠ '=') = true := fun t ht c hc => by
      simpa using fun heq : c = '=' => ht (heq ▸ hc)
    rw [List.append_assoc, List.takeWhile_append_of_pos (hall name hname),
      List.takeWhile_append_of_pos (hall n hn)] at htake
    simpa using htake.symm
  · rintro rfl
    exact List.prefix_append _ _

theorem newline_line (hd : GoodKeyword d) (hname : GoodName d name) (hvalue : '\n' ∉ value) :
    '\n' ∉ line d name value := by
  have hquote : '\n' ∉ quote value := newline_notMem_quote hvalue
  simp only [line, definition, List.mem_append, List.mem_cons, not_or, List.not_mem_nil]
  exact ⟨⟨hd.newline, by decide, hname.newline, by decide, not_false⟩, hquote⟩

structure GoodEntries (d : DropIn) (entries : List (Text × Text)) : Prop where
  name : ∀ e ∈ entries, GoodName d e.1
  value : ∀ e ∈ entries, '\n' ∉ e.2

theorem newline_render (hd : GoodKeyword d) (h : GoodEntries d entries) :
    ∀ l ∈ entries.map (fun e => line d e.1 e.2), '\n' ∉ l := by
  intro l hl
  obtain ⟨e, he, rfl⟩ := List.mem_map.mp hl
  exact newline_line hd (h.name e he) (h.value e he)

/-- Deleting takes away the entries of the name. -/
theorem sedDelete_render (hd : GoodKeyword d) (h : GoodEntries d entries) (hname : '=' ∉ name) :
    sedDelete (definition d name) (render d entries) =
      render d (entries.filter fun e => e.1 ≠ name) := by
  have hlines := newline_render hd h
  have hend : unended (render d entries) = [] := by
    have := unended_terminated hlines (l := []) (by simp)
    rwa [List.append_nil] at this
  have hall : (lines (render d entries)).dropLast = entries.map fun e => line d e.1 e.2 := by
    have := lines_terminated hlines []
    rw [List.append_nil] at this
    rw [render, this]
    exact List.dropLast_concat
  rw [sedDelete, hend, hall, ite_self, List.append_nil, render, List.filter_map]
  congr 2
  refine List.filter_congr fun e he => ?_
  have hstart : definition d name <+: line d e.1 e.2 ↔ e.1 = name :=
    definition_prefix hname (h.name e he).equals
  simp [hstart]

/-- The file holds the definitions, one entry for each name. -/
def Keeps (d : DropIn) (file : Option Text) (m : Definitions) : Prop :=
  ∃ entries, file.getD [] = render d entries ∧ GoodEntries d entries ∧
    ∀ k v, (k, v) ∈ entries ↔ m k = some v

theorem keeps_none : Keeps d none fun _ => none := ⟨[], rfl, ⟨by simp, by simp⟩, by simp⟩

theorem Keeps.unset {file : Option Text} (hd : GoodKeyword d) (h : Keeps d file m)
    (hname : '=' ∉ name) :
    Keeps d (unsetScript d name file) (Function.update m name none) := by
  obtain ⟨entries, hfile, hgood, hmem⟩ := h
  refine ⟨entries.filter fun e => e.1 ≠ name, ?_, ?_, ?_⟩
  · rw [← sedDelete_render hd hgood hname, ← hfile]
    cases file with
    | none =>
      have hend : unended (Option.getD none []) = [] := rfl
      rw [sedDelete, hend, ite_self]
      rfl
    | some c => rfl
  · exact ⟨fun e he => hgood.name e (List.mem_filter.mp he).1,
      fun e he => hgood.value e (List.mem_filter.mp he).1⟩
  · intro k v
    by_cases hk : k = name
    · simp [hk]
    · simp [hk, hmem]

theorem Keeps.set {file : Option Text} (hd : GoodKeyword d) (h : Keeps d file m)
    (hname : GoodName d name) (hvalue : '\n' ∉ value) :
    Keeps d (setScript d name value file) (Function.update m name (some value)) := by
  obtain ⟨entries, hfile, hgood, hmem⟩ := h
  refine ⟨(entries.filter fun e => e.1 ≠ name) ++ [(name, value)], ?_, ?_, ?_⟩
  · rw [setScript, Option.getD_some, hfile, sedDelete_render hd hgood hname.equals, word_quote]
    simp [render, terminated]
  · refine ⟨fun e he => ?_, fun e he => ?_⟩
    · rcases List.mem_append.mp he with he | he
      · exact hgood.name e (List.mem_filter.mp he).1
      · rw [List.mem_singleton.mp he]
        exact hname
    · rcases List.mem_append.mp he with he | he
      · exact hgood.value e (List.mem_filter.mp he).1
      · rw [List.mem_singleton.mp he]
        exact hvalue
  · intro k v
    by_cases hk : k = name
    · subst hk
      simp [eq_comm]
    · simp [hk, hmem]

/-! ### Sourcing the entries -/

theorem sourceStep_entry (hname : '=' ∉ name) (hword : d.aliases = true → m d.keyword = none)
    (hown : d.aliases = false → shell.own name = false) :
    sourceStep d shell m [d.keyword, name ++ '=' :: value] =
      Function.update m name (some value) := by
  have hall : ∀ c ∈ name, decide (c ≠ '=') = true := fun c hc => by
    simpa using fun heq : c = '=' => hname (heq ▸ hc)
  have htake : (name ++ '=' :: value).takeWhile (· ≠ '=') = name := by
    rw [List.takeWhile_append_of_pos hall]
    simp
  have hdrop : ((name ++ '=' :: value).dropWhile (· ≠ '=')).drop 1 = value := by
    rw [List.dropWhile_append_of_pos hall]
    simp
  rw [sourceStep, htake, hdrop, if_neg]
  rintro (h | h | ⟨h, hsome⟩ | ⟨h, hshell⟩)
  · exact h rfl
  · simp at h
  · rw [hword h] at hsome
    simp at hsome
  · rw [hown (by simpa using h)] at hshell
    cases hshell

def assign (m : Definitions) (e : Text × Text) : Definitions := Function.update m e.1 (some e.2)

/-- Each name is left with one of its values, and a name without an entry as it was. -/
theorem foldl_entries (k : Text) :
    ∀ (entries : List (Text × Text)) (m : Definitions),
      (∃ v, (k, v) ∈ entries ∧
          entries.foldl assign m k = some v) ∨
        ((∀ v, (k, v) ∉ entries) ∧
          entries.foldl assign m k = m k)
  | [], m => .inr ⟨by simp, rfl⟩
  | e :: rest, m => by
    rcases foldl_entries k rest (assign m e) with ⟨v, hv, heq⟩ | ⟨hno, heq⟩
    · exact .inl ⟨v, List.mem_cons_of_mem _ hv, heq⟩
    · by_cases hk : k = e.1
      · subst hk
        refine .inl ⟨e.2, List.mem_cons_self, ?_⟩
        rw [List.foldl_cons, heq, assign, Function.update_self]
      · refine .inr ⟨fun v hv => ?_, by rw [List.foldl_cons, heq, assign, Function.update_of_ne hk]⟩
        rcases List.mem_cons.mp hv with rfl | hv
        · exact hk rfl
        · exact hno v hv

theorem foldl_sourceStep (h : ∀ e ∈ entries, '=' ∉ e.1)
    (hwords : d.aliases = true → ∀ e ∈ entries, e.1 ≠ d.keyword)
    (hown : d.aliases = false → ∀ e ∈ entries, shell.own e.1 = false) :
    ∀ m : Definitions, (d.aliases = true → m d.keyword = none) →
      (entries.map fun e => [d.keyword, e.1 ++ '=' :: e.2]).foldl (sourceStep d shell) m =
        entries.foldl assign m := by
  induction entries with
  | nil => exact fun m _ => rfl
  | cons e rest ih =>
    intro m hm
    rw [List.map_cons, List.foldl_cons, List.foldl_cons,
      sourceStep_entry (h e List.mem_cons_self) hm fun hd => hown hd e List.mem_cons_self]
    refine ih (fun e he => h e (List.mem_cons_of_mem _ he))
      (fun hd e he => hwords hd e (List.mem_cons_of_mem _ he))
      (fun hd e he => hown hd e (List.mem_cons_of_mem _ he)) _ fun hd => ?_
    rw [Function.update_of_ne (hwords hd e List.mem_cons_self).symm, hm hd]

/-- A file is read as the definitions it holds, where none of them is out of the way. -/
theorem source_keeps {file : Option Text} (hd : GoodKeyword d) (h : Keeps d file m)
    (hwords : d.aliases = true → m d.keyword = none)
    (hown : d.aliases = false → ∀ k, (m k).isSome = true → shell.own k = false) :
    source d shell file = m := by
  obtain ⟨entries, hfile, hgood, hmem⟩ := h
  have hword : d.aliases = true → ∀ e ∈ entries, e.1 ≠ d.keyword := by
    intro haliases e he heq
    have := (hmem e.1 e.2).mp he
    rw [heq, hwords haliases] at this
    cases this
  have hours : d.aliases = false → ∀ e ∈ entries, shell.own e.1 = false := by
    intro henv e he
    refine hown henv e.1 ?_
    rw [(hmem e.1 e.2).mp he]
    rfl
  rw [source, hfile, commands_render hd hgood.name, List.foldl_append,
    foldl_sourceStep (fun e he => (hgood.name e he).equals) hword hours _ fun _ => rfl]
  funext k
  change entries.foldl assign (fun _ => none) k = m k
  rcases foldl_entries k entries fun _ => none with ⟨v, hv, heq⟩ | ⟨hno, heq⟩
  · rw [heq, (hmem k v).mp hv]
  · rw [heq]
    cases hk : m k with
    | none => rfl
    | some v => exact absurd ((hmem k v).mpr hk) (hno v)

/-! ### Runs of commands -/

/-- The two files of the controller. -/
structure Proper (d : DropIn) : Prop where
  keyword : GoodKeyword d
  nameChar : ∀ c, d.nameChar c = true → ordinary c = true ∧ c ≠ '=' ∧ c ≠ '\n'
  first : ∀ c : Char, (c.isAlpha || c = '_') = true → d.nameChar c = true

theorem ordinary_alphanum {c : Char} (h : (c.isAlphanum || c = '_' || c = '-') = true) :
    ordinary c = true ∧ c ≠ '=' ∧ c ≠ '\n' := by
  refine ⟨ordinary_of_safe ?_, ?_, ?_⟩
  · simp only [safe, Bool.or_eq_true, decide_eq_true_eq] at h ⊢
    rcases h with (h | h) | h
    · exact .inl (.inl h)
    · exact .inl (.inr h)
    · rw [h]
      exact .inr (by decide)
  · rintro rfl
    exact absurd h (by decide)
  · rintro rfl
    exact absurd h (by decide)

theorem isAlphanum_of_isAlpha {c : Char} (h : c.isAlpha = true) : c.isAlphanum = true := by
  rw [Char.isAlphanum, h, Bool.true_or]

theorem proper_env : Proper env where
  keyword := ⟨by decide, List.all_eq_true.mp (by decide), by decide⟩
  nameChar c h := ordinary_alphanum (Bool.or_eq_true_iff.mpr (.inl h))
  first c h := by
    change (c.isAlphanum || decide (c = '_')) = true
    rw [Bool.or_eq_true] at h ⊢
    exact h.imp_left isAlphanum_of_isAlpha

theorem proper_aliases : Proper aliases where
  keyword := ⟨by decide, List.all_eq_true.mp (by decide), by decide⟩
  nameChar c h := ordinary_alphanum h
  first c h := by
    change (c.isAlphanum || decide (c = '_') || decide (c = '-')) = true
    rw [Bool.or_eq_true] at h
    rw [Bool.or_eq_true, Bool.or_eq_true]
    exact .inl (h.imp_left isAlphanum_of_isAlpha)

theorem validateName_ok (hd : Proper d) {n : Text} (h : validateName d name = .ok n) :
    n = stripText name ∧ GoodName d n := by
  rw [validateName] at h
  cases hname : stripText name with
  | nil => simp [hname] at h
  | cons c rest =>
    simp only [hname] at h
    split_ifs at h with hok
    obtain rfl := Except.ok.inj h
    rw [Bool.and_eq_true] at hok
    have hall : ∀ x ∈ c :: rest, d.nameChar x = true := by
      intro x hx
      rcases List.mem_cons.mp hx with rfl | hx
      · exact hd.first _ hok.1
      · exact List.all_eq_true.mp hok.2 x hx
    exact ⟨rfl, by simp, fun x hx => (hd.nameChar x (hall x hx)).1,
      fun hx => (hd.nameChar _ (hall _ hx)).2.1 rfl, fun hx => (hd.nameChar _ (hall _ hx)).2.2 rfl⟩

/-- A command keeps the file and its definitions together. -/
theorem keeps_command (hd : Proper d) {op : Op} {script : Option Text → Option Text}
    {file : Option Text} (hop : op.command d = .ok script) (h : Keeps d file m) :
    Keeps d (script file) (op.apply m) := by
  cases op with
  | set name value =>
    rw [Op.command, cmdSet] at hop
    obtain ⟨n, hn, hop⟩ := bind_ok hop
    obtain ⟨⟨⟩, hvalue, hop⟩ := bind_ok hop
    obtain ⟨-, hop⟩ := guard_ok hop
    obtain ⟨hvalue, -⟩ := guard_ok hvalue
    obtain ⟨heq, hgood⟩ := validateName_ok hd hn
    obtain rfl := Except.ok.inj hop
    rw [Op.apply, ← heq]
    exact h.set hd.keyword hgood fun hmem => hvalue (.inl hmem)
  | unset name =>
    rw [Op.command, cmdUnset] at hop
    obtain ⟨n, hn, hop⟩ := bind_ok hop
    obtain ⟨heq, hgood⟩ := validateName_ok hd hn
    obtain rfl := Except.ok.inj hop
    rw [Op.apply, ← heq]
    exact h.unset hd.keyword hgood.equals

/-- The definitions stay out of the way of their own file. -/
def Clear (d : DropIn) (shell : Shell) (m : Definitions) : Prop :=
  (d.aliases = true → m d.keyword = none) ∧
    (d.aliases = false → ∀ k, (m k).isSome = true → shell.own k = false)

theorem clear_apply {op : Op} (hop : Tame d shell op) (h : Clear d shell m) :
    Clear d shell (op.apply m) := by
  cases op with
  | set name value =>
    refine ⟨fun haliases => ?_, fun henv k hk => ?_⟩
    · rw [Tame, if_pos haliases] at hop
      rw [Op.apply, Function.update_of_ne (Ne.symm hop), h.1 haliases]
    · rw [Tame, if_neg (by simp [henv])] at hop
      by_cases heq : k = stripText name
      · rw [heq, hop]
      · rw [Op.apply, Function.update_of_ne heq] at hk
        exact h.2 henv k hk
  | unset name =>
    refine ⟨fun haliases => ?_, fun henv k hk => ?_⟩
    · by_cases heq : d.keyword = stripText name
      · rw [Op.apply, heq, Function.update_self]
      · rw [Op.apply, Function.update_of_ne heq, h.1 haliases]
    · by_cases heq : k = stripText name
      · rw [Op.apply, heq, Function.update_self] at hk
        cases hk
      · rw [Op.apply, Function.update_of_ne heq] at hk
        exact h.2 henv k hk

theorem keeps_run (hd : Proper d) {ops : List Op} {file file' : Option Text}
    (h : Keeps d file m) (hclear : Clear d shell m) (htame : ∀ op ∈ ops, Tame d shell op)
    (hrun : ops.foldlM (fun file op => (op.command d).map fun script => script file) file =
      .ok file') : Keeps d file' (ops.foldl Op.apply m) ∧ Clear d shell (ops.foldl Op.apply m) := by
  induction ops generalizing file m with
  | nil =>
    obtain rfl := Except.ok.inj hrun
    exact ⟨h, hclear⟩
  | cons op rest ih =>
    rw [List.foldlM_cons] at hrun
    obtain ⟨next, hnext, hrun⟩ := bind_ok hrun
    cases hop : op.command d with
    | error e => simp [hop, Except.map] at hnext
    | ok script =>
      rw [hop] at hnext
      obtain rfl := Except.ok.inj hnext
      exact ih (keeps_command hd hop h) (clear_apply (htame op List.mem_cons_self) hclear)
        (fun op hop => htame op (List.mem_cons_of_mem _ hop)) hrun

/-- After any commands that keep clear of the shell, the file is read as the map they ask for. -/
theorem source_run {ops : List Op} {file : Option Text} (hd : d = env ∨ d = aliases)
    (shell : Shell) (hrun : run d ops = .ok file) (htame : ∀ op ∈ ops, Tame d shell op) :
    source d shell file = last ops := by
  have hproper : Proper d := by
    rcases hd with rfl | rfl
    · exact proper_env
    · exact proper_aliases
  have hclear : Clear d shell fun _ => none := ⟨fun _ => rfl, fun _ k hk => by cases hk⟩
  obtain ⟨hkeeps, hwords, hown⟩ := keeps_run hproper keeps_none hclear htame hrun
  exact source_keeps hproper.keyword hkeeps hwords hown

/-- A shell for which `LINENO` is its own, and whose other commands define nothing. -/
def plainShell : Shell := ⟨fun name => name = "LINENO".toList, fun m _ => m⟩

def aliasedAlias : List Op :=
  [.set "alias".toList "ls".toList, .set "ll".toList "ls -l".toList]

def aliasFile : Option Text := some "alias alias=ls\nalias ll='ls -l'\n".toList

/-- An alias that is called `alias` takes the later lines of the file away. -/
theorem alias_lost : run aliases aliasedAlias = .ok aliasFile ∧
    source aliases plainShell aliasFile ≠ last aliasedAlias := by
  refine ⟨by rfl, ?_⟩
  intro h
  have hll := congrFun h "ll".toList
  have hlast : last aliasedAlias "ll".toList = some "ls -l".toList := by rfl
  have hsource : source aliases plainShell aliasFile "ll".toList = none := by rfl
  rw [hlast, hsource] at hll
  cases hll

def editorOps : List Op := [.set "EDITOR".toList "vi".toList, .set "EDITOR2".toList "it's".toList,
  .unset "EDITOR".toList]

theorem editor_sourced :
    source env plainShell (some "export EDITOR2='it'\"'\"'s'\n".toList) = last editorOps :=
  source_run (.inl rfl) plainShell (by rfl) (by
    intro op hop
    simp only [editorOps, List.mem_cons, List.not_mem_nil, or_false] at hop
    rcases hop with rfl | rfl | rfl
    · exact (show plainShell.own (stripText "EDITOR".toList) = false by rfl)
    · exact (show plainShell.own (stripText "EDITOR2".toList) = false by rfl)
    · trivial)

end ProfileDropIn
