import SysibleController.ShellQuote
import SysibleController.TextLines
import Mathlib.Data.List.Basic

/-! How a POSIX shell reads a command: quotes, words, operators and here-documents, one character
at a time. What it recognises comes out as events; the words are not expanded. -/
namespace ShellReader

open PathText TextLines

/-- A here-document that is announced: its delimiter, and whether tabs before a line go. -/
structure Here where
  delim : Text
  tabs : Bool
  deriving DecidableEq

inductive Mode where
  | blank
  | word
  | single
  | double
  | escape (quoted : Bool)
  | dollar
  | comment
  | less
  | here
  | hereTabs
  | hereWord (delim : Text) (tabs : Bool)
  | hereQuoted (delim : Text) (tabs : Bool) (mark : Char)
  | body (line : Text)
  deriving DecidableEq

/-- Where the reader is: its mode, the depth of brackets in each command substitution that began
within double quotes, and the here-documents still to come. -/
structure State where
  mode : Mode
  subs : List ℕ
  pending : List Here
  deriving DecidableEq

inductive Event where
  | char (c : Char)
  | quote
  | gap
  | newline
  | sym (c : Char)
  | tick
  | opensub
  | closesub
  | line (text : Text)
  | close
  deriving DecidableEq

def start : State := ⟨.blank, [], []⟩

/-- What ends a word and is no blank. -/
def isOperator (c : Char) : Bool := ";&|<>()\n".toList.contains c

def operator (s : State) (c : Char) : State × List Event :=
  if c = '\n' then
    if s.pending = [] then ({ s with mode := .blank }, [.newline])
    else ({ s with mode := .body [] }, [.newline])
  else if c = '<' then ({ s with mode := .less }, [.sym c])
  else if c = '(' then
    ({ s with mode := .blank, subs := s.subs.modifyHead (· + 1) }, [.sym c])
  else if c = ')' then
    match s.subs with
    | 0 :: rest => ({ s with mode := .double, subs := rest }, [.closesub])
    | _ => ({ s with mode := .blank, subs := s.subs.modifyHead (· - 1) }, [.sym c])
  else ({ s with mode := .blank }, [.sym c])

/-- A character outside quotes. -/
def plain (s : State) (c : Char) : State × List Event :=
  if c = ' ' ∨ c = '\t' then ({ s with mode := .blank }, [.gap])
  else if isOperator c then operator s c
  else if c = '\'' then ({ s with mode := .single }, [.quote])
  else if c = '"' then ({ s with mode := .double }, [.quote])
  else if c = '\\' then ({ s with mode := .escape false }, [])
  else if c = '\x60' then ({ s with mode := .word }, [.tick])
  else if c = '#' ∧ s.mode = .blank then ({ s with mode := .comment }, [])
  else ({ s with mode := .word }, [.char c])

/-- A character within double quotes. -/
def dquoted (s : State) (c : Char) : State × List Event :=
  if c = '"' then ({ s with mode := .word }, [])
  else if c = '\\' then ({ s with mode := .escape true }, [])
  else if c = '$' then ({ s with mode := .dollar }, [])
  else if c = '\x60' then ({ s with mode := .double }, [.tick])
  else ({ s with mode := .double }, [.char c])

/-- The delimiter is complete at a character that ends a word. -/
def announce (s : State) (delim : Text) (tabs : Bool) : State :=
  { s with mode := .blank, pending := s.pending ++ [⟨delim, tabs⟩] }

def endsLine (h : Here) (line : Text) : Bool :=
  (if h.tabs then line.dropWhile (· = '\t') else line) = h.delim

/-- The end of a line within here-documents. -/
def endLine (s : State) (line : Text) : State × List Event :=
  match s.pending with
  | h :: rest =>
    if endsLine h line then
      ({ s with mode := if rest = [] then .blank else .body [], pending := rest }, [.close])
    else ({ s with mode := .body [] }, [.line line])
  | [] => ({ s with mode := .blank }, [])

def step (s : State) (c : Char) : State × List Event :=
  match s.mode with
  | .blank | .word => plain s c
  | .single =>
    if c = '\'' then ({ s with mode := .word }, []) else (s, [.char c])
  | .double => dquoted s c
  | .escape true =>
    ({ s with mode := .double },
      if "$\x60\"\\".toList.contains c then [.char c]
      else if c = '\n' then [] else [.char '\\', .char c])
  | .escape false =>
    if c = '\n' then ({ s with mode := .word }, []) else ({ s with mode := .word }, [.char c])
  | .dollar =>
    if c = '(' then ({ s with mode := .blank, subs := 0 :: s.subs }, [.opensub])
    else ((dquoted s c).1, .char '$' :: (dquoted s c).2)
  | .comment => if c = '\n' then operator s c else (s, [])
  | .less =>
    if c = '<' then ({ s with mode := .here }, [.sym c]) else plain { s with mode := .blank } c
  | .here | .hereTabs =>
    let tabs := decide (s.mode = .hereTabs)
    if c = ' ' ∨ c = '\t' then (s, [])
    else if c = '-' ∧ tabs = false then ({ s with mode := .hereTabs }, [])
    else if isOperator c then operator { s with mode := .blank } c
    else if c = '\'' ∨ c = '"' then ({ s with mode := .hereQuoted [] tabs c }, [])
    else ({ s with mode := .hereWord [c] tabs }, [])
  | .hereWord delim tabs =>
    if c = ' ' ∨ c = '\t' ∨ isOperator c then plain (announce s delim tabs) c
    else if c = '\'' ∨ c = '"' then ({ s with mode := .hereQuoted delim tabs c }, [])
    else ({ s with mode := .hereWord (delim ++ [c]) tabs }, [])
  | .hereQuoted delim tabs mark =>
    if c = mark then ({ s with mode := .hereWord delim tabs }, [])
    else ({ s with mode := .hereQuoted (delim ++ [c]) tabs mark }, [])
  | .body line => if c = '\n' then endLine s line else ({ s with mode := .body (line ++ [c]) }, [])

def read (s : State) : Text → State × List Event
  | [] => (s, [])
  | c :: rest => ((read (step s c).1 rest).1, (step s c).2 ++ (read (step s c).1 rest).2)

/-- The bodies of the here-documents that are closed, each by its lines. -/
def bodies (lines : List Text) : List Event → List (List Text)
  | [] => []
  | .line l :: rest => bodies (lines ++ [l]) rest
  | .close :: rest => lines :: bodies [] rest
  | _ :: rest => bodies lines rest

/-- The bodies that a shell takes from a command. -/
def heredocs (command : Text) : List (List Text) := bodies [] (read start command).2

/-! ### Reading in parts -/

variable {s t u : State} {a b x delim : Text} {c : Char} {es fs : List Event} {m : Mode}

theorem read_append (s : State) (a b : Text) : read s (a ++ b) =
    ((read (read s a).1 b).1, (read s a).2 ++ (read (read s a).1 b).2) := by
  induction a generalizing s with
  | nil => rfl
  | cons c rest ih => simp [read, ih]

/-- Neither a line of a here-document nor its end. -/
def Event.quiet : Event → Bool
  | line _ | close => false
  | _ => true

theorem bodies_quiet (lines : List Text) (h : es.all Event.quiet = true) :
    bodies lines (es ++ fs) = bodies lines fs := by
  induction es with
  | nil => rfl
  | cons e rest ih =>
    simp only [List.all_cons, Bool.and_eq_true] at h
    cases e with
    | line l | close => exact nomatch h.1
    | _ => exact ih h.2

/-- The part leads from one state to another without a here-document ending in it. -/
def Quiet (s : State) (a : Text) (t : State) : Prop :=
  (read s a).1 = t ∧ (read s a).2.all Event.quiet = true

/-- The same as a single pass over the part. -/
def quietTo (t : State) : State → Text → Bool
  | s, [] => s = t
  | s, c :: rest =>
    match step s c with
    | (s', es) => es.all Event.quiet && quietTo t s' rest

theorem quietTo_iff : quietTo t s a = true ↔ Quiet s a t := by
  induction a generalizing s with
  | nil => simp [quietTo, Quiet, read]
  | cons c rest ih =>
    simp only [quietTo, Bool.and_eq_true, ih, Quiet, read, List.all_append]
    tauto

instance : Decidable (Quiet s a t) := decidable_of_iff _ quietTo_iff

theorem quiet_of_bytes {a : String} (h : ShellQuote.oneByte a ∧ Quiet s (ShellQuote.ofBytes a) t) :
    Quiet s a.toList t :=
  ShellQuote.toList_of_oneByte h.1 ▸ h.2

theorem Quiet.append (h : Quiet s a t) (k : Quiet t b u) : Quiet s (a ++ b) u := by
  obtain ⟨hstate, hquiet⟩ := h
  rw [Quiet, read_append, hstate]
  exact ⟨k.1, by rw [List.all_append, hquiet, k.2]; rfl⟩

theorem Quiet.nil : Quiet s [] s := ⟨rfl, rfl⟩

theorem Quiet.cons (hc : (step s c).1 = t) (he : (step s c).2.all Event.quiet = true)
    (h : Quiet t a u) : Quiet s (c :: a) u := by
  rw [Quiet, read, hc]
  exact ⟨h.1, by rw [List.all_append, he, h.2]; rfl⟩

theorem bodies_of_quiet (lines : List Text) (h : Quiet s a t) :
    bodies lines (read s (a ++ b)).2 = bodies lines (read t b).2 := by
  rw [read_append, h.1, bodies_quiet lines h.2]

theorem bodies_end (lines : List Text) (h : Quiet s a t) : bodies lines (read s a).2 = [] := by
  have := @bodies_of_quiet s t a [] lines h
  rwa [List.append_nil] at this

/-! ### Quoted words -/

/-- A character that is itself in any place of a word. -/
def ordinary (c : Char) : Bool :=
  !(c = ' ' || c = '\t' || isOperator c || c = '\'' || c = '"' || c = '\\' || c = '#' || c = '$' ||
    c = '\x60')

theorem plain_ordinary (h : ordinary c = true) :
    plain s c = ({ s with mode := .word }, [.char c]) := by
  simp only [ordinary, Bool.not_eq_true', Bool.or_eq_false_iff, decide_eq_false_iff_not] at h
  obtain ⟨⟨⟨⟨⟨⟨⟨⟨h1, h2⟩, h3⟩, h4⟩, h5⟩, h6⟩, h7⟩, -⟩, h9⟩ := h
  simp [plain, h1, h2, h3, h4, h5, h6, h7, h9]

theorem special_of_not_ordinary (h : ¬ordinary c = true) :
    c ∈ " \t;&|<>()\n'\"\\#$\x60".toList := by
  simp only [ordinary, Bool.not_eq_true', Bool.not_eq_false, Bool.or_eq_true, decide_eq_true_eq,
    isOperator, List.contains_iff_mem] at h
  rcases h with (((((((rfl | rfl) | hop) | rfl) | rfl) | rfl) | rfl) | rfl) | rfl
  · decide
  · decide
  · revert hop
    simp only [String.reduceToList, List.mem_cons, List.not_mem_nil, or_false]
    tauto
  all_goals decide

theorem ordinary_of_safe (h : ShellQuote.safe c = true) : ordinary c = true := by
  by_contra hno
  have hall : (" \t;&|<>()\n'\"\\#$\x60".toList.all fun d => !ShellQuote.safe d) = true := by
    decide
  have hsafe := List.all_eq_true.mp hall c (special_of_not_ordinary hno)
  rw [h] at hsafe
  exact absurd hsafe (by decide)

/-- A place outside quotes. -/
def Mode.isPlain : Mode → Bool
  | blank | word => true
  | _ => false

theorem step_plain (h : s.mode.isPlain = true) : step s c = plain s c := by
  match hm : s.mode, h with
  | .blank, _ | .word, _ => simp only [step, hm]

/-- Ordinary characters outside quotes are a word. -/
theorem ordinary_quiet (h : s.mode.isPlain = true) (hx : ∀ c ∈ x, ordinary c = true)
    (hne : x ≠ []) : Quiet s x { s with mode := .word } := by
  induction x generalizing s with
  | nil => exact absurd rfl hne
  | cons c rest ih =>
    have hstep : step s c = ({ s with mode := .word }, [.char c]) := by
      rw [step_plain h, plain_ordinary (hx c List.mem_cons_self)]
    refine .cons (congrArg Prod.fst hstep) (by simp [hstep, Event.quiet]) ?_
    by_cases hrest : rest = []
    · rw [hrest]
      exact .nil
    · exact ih (s := { s with mode := .word }) rfl
        (fun d hd => hx d (List.mem_cons_of_mem c hd)) hrest

/-- Within single quotes, up to the last one. -/
theorem single_quiet (hx : s.mode = .single) :
    Quiet s (ShellQuote.escaped x ++ ['\'']) { s with mode := .word } := by
  obtain ⟨mode, subs, pending⟩ := s
  obtain rfl : mode = .single := hx
  induction x with
  | nil => exact ⟨rfl, rfl⟩
  | cons c rest ih =>
    by_cases hc : c = '\''
    · have hesc : ShellQuote.escaped (c :: rest) ++ ['\''] =
          "'\"'\"'".toList ++ (ShellQuote.escaped rest ++ ['\'']) := by
        simp [ShellQuote.escaped, hc]
      rw [hesc]
      exact Quiet.append (t := ⟨.single, subs, pending⟩) ⟨rfl, rfl⟩ ih
    · have hesc : ShellQuote.escaped (c :: rest) ++ ['\''] =
          c :: (ShellQuote.escaped rest ++ ['\'']) := by
        simp [ShellQuote.escaped, hc]
      have hstep : step ⟨.single, subs, pending⟩ c = (⟨.single, subs, pending⟩, [.char c]) := by
        simp [step, hc]
      rw [hesc]
      exact .cons (congrArg Prod.fst hstep) (by simp [hstep, Event.quiet]) ih

/-- A quoted text is read as a word, whatever it is. -/
theorem quote_quiet (h : s.mode.isPlain = true) (x : Text) :
    Quiet s (ShellQuote.quote x) { s with mode := .word } := by
  have hmark : step s '\'' = ({ s with mode := .single }, [.quote]) := by
    rw [step_plain h]
    rfl
  unfold ShellQuote.quote
  split_ifs with hnil hsafe
  · have hmarks : "''".toList = ['\'', '\''] := by decide
    rw [hmarks]
    exact .cons (congrArg Prod.fst hmark) (by simp [hmark, Event.quiet]) ⟨rfl, rfl⟩
  · exact ordinary_quiet h (fun c hc => ordinary_of_safe (List.all_eq_true.mp hsafe c hc)) hnil
  · rw [List.cons_append]
    exact .cons (congrArg Prod.fst hmark) (by simp [hmark, Event.quiet])
      (single_quiet (s := { s with mode := .single }) rfl)

/-! ### Here-documents -/

theorem read_line (subs : List ℕ) (pending : List Here) (acc : Text) (hx : '\n' ∉ x) :
    read ⟨.body acc, subs, pending⟩ x = (⟨.body (acc ++ x), subs, pending⟩, []) := by
  induction x generalizing acc with
  | nil => simp [read]
  | cons c rest ih =>
    obtain ⟨hc, hrest⟩ : ¬ '\n' = c ∧ '\n' ∉ rest := by simpa using hx
    have hstep : step ⟨.body acc, subs, pending⟩ c = (⟨.body (acc ++ [c]), subs, pending⟩, []) := by
      simp [step, Ne.symm hc]
    rw [read, hstep, ih (acc ++ [c]) hrest]
    simp

/-- Within the only here-document that is announced. -/
def inBody (subs : List ℕ) (delim : Text) : State := ⟨.body [], subs, [⟨delim, false⟩]⟩

theorem read_inBody (subs : List ℕ) (hx : '\n' ∉ x) :
    read (inBody subs delim) (x ++ ['\n']) =
      if x = delim then (⟨.blank, subs, []⟩, [.close]) else (inBody subs delim, [.line x]) := by
  rw [read_append, inBody, read_line subs _ [] hx]
  by_cases h : x = delim <;> simp [read, step, endLine, endsLine, h]

/-- The lines of a here-document are those before the first that is its delimiter. -/
theorem bodies_inBody (subs : List ℕ) (acc ls : List Text) (rest : Text)
    (hls : ∀ x ∈ ls, '\n' ∉ x) :
    bodies acc (read (inBody subs delim) (ls.flatMap (· ++ ['\n']) ++ rest)).2 =
      if delim ∈ ls then
        (acc ++ ls.takeWhile (· ≠ delim)) :: bodies [] (read ⟨.blank, subs, []⟩
          ((ls.dropWhile (· ≠ delim)).tail.flatMap (· ++ ['\n']) ++ rest)).2
      else bodies (acc ++ ls) (read (inBody subs delim) rest).2 := by
  induction ls generalizing acc with
  | nil => simp
  | cons x ls ih =>
    have hx := hls x List.mem_cons_self
    rw [List.flatMap_cons, List.append_assoc, read_append, read_inBody subs hx]
    by_cases h : x = delim
    · subst h
      simp [bodies]
    · have hne : ¬ delim = x := fun he => h he.symm
      have hmem : delim ∈ x :: ls ↔ delim ∈ ls := by simp [hne]
      simp only [if_neg h, List.singleton_append, bodies,
        ih (acc ++ [x]) fun y hy => hls y (List.mem_cons_of_mem x hy), hmem]
      split_ifs <;> simp [h]

/-- A here-document is taken as it was formed exactly if none of its lines is the delimiter. -/
theorem heredoc_cons_iff (subs : List ℕ) (b post : Text) (formed : List (List Text))
    (hd : '\n' ∉ delim) :
    bodies [] (read (inBody subs delim) (b ++ '\n' :: (delim ++ '\n' :: post))).2 =
        lines b :: formed ↔
      delim ∉ lines b ∧ bodies [] (read ⟨.blank, subs, []⟩ post).2 = formed := by
  rw [append_newline, bodies_inBody subs [] _ _ fun x hx => newline_notMem hx]
  by_cases hmem : delim ∈ lines b
  · rw [if_pos hmem]
    refine iff_of_false (fun h => ?_) fun h => h.1 hmem
    have htake : (lines b).takeWhile (· ≠ delim) = lines b := by
      simpa using (List.cons.inj h).1
    have hall := List.takeWhile_eq_self_iff.mp htake delim hmem
    simp at hall
  · have hline : delim ++ '\n' :: post = (delim ++ ['\n']) ++ post := by simp
    rw [if_neg hmem, hline, read_append, read_inBody subs hd, if_pos rfl]
    simp [bodies, hmem]

end ShellReader
