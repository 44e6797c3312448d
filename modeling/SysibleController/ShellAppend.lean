import SysibleController.ShellSpelling

/-! The simple commands of a command line whose output goes to the end of a file. -/
namespace ShellReader

open PathText ShellQuote

/-- The words of a simple command as it is read, the word that is being read, how many `>` came
right before, and the commands that append to the file. -/
structure Appending where
  words : List Text
  cur : Option Text
  marks : ℕ
  found : List (List Text)
  deriving DecidableEq

namespace Appending

def init : Appending := ⟨[], none, 0, []⟩

/-- The end of a word, which is the target of a redirection or an argument. -/
def endWord (file : Text) (s : Appending) : Appending :=
  match s.cur with
  | none => s
  | some w =>
    if s.marks = 0 then { s with words := s.words ++ [w], cur := none }
    else if s.marks = 2 ∧ w = file then
      { s with cur := none, marks := 0, found := s.found ++ [s.words] }
    else { s with cur := none, marks := 0 }

/-- A number right before a redirection is no word. -/
def mark (file : Text) (s : Appending) : Appending :=
  if s.marks = 0 ∧ s.cur.any (·.all Char.isDigit) then { s with cur := none, marks := 1 }
  else { s.endWord file with marks := (s.endWord file).marks + 1 }

def event (file : Text) (s : Appending) : Event → Appending
  | .char c => { s with cur := some (s.cur.getD [] ++ [c]) }
  | .quote => { s with cur := some (s.cur.getD []) }
  | .gap => s.endWord file
  | .sym c =>
    if c = '>' then s.mark file
    else if c = '&' ∧ s.cur = none ∧ s.marks = 1 then s
    else { s.endWord file with words := [], marks := 0 }
  | _ => { s.endWord file with words := [], marks := 0 }

def events (file : Text) (s : Appending) (es : List Event) : Appending := es.foldl (event file) s

end Appending

/-- The words of the commands that append to the file. -/
def appenders (file command : Text) : List (List Text) :=
  ((Appending.init.events file (read start command).2).endWord file).found

example : appenders "f".toList "a 2>&1 >> f && b 'c d' >>'f' > f; e >> g".toList =
    [["a".toList], ["b".toList, "c d".toList]] := by decide

namespace Appending

variable {file x a b : Text} {s t u : Appending} {m n : Mode}

/-- Reading the part takes one state to another, of the reader and of the commands. -/
def Leads (file : Text) (m : Mode) (s : Appending) (a : Text) (n : Mode) (t : Appending) : Prop :=
  (read ⟨m, [], []⟩ a).1 = ⟨n, [], []⟩ ∧ s.events file (read ⟨m, [], []⟩ a).2 = t

theorem Leads.append {k : Mode} (h : Leads file m s a n t) (h' : Leads file n t b k u) :
    Leads file m s (a ++ b) k u := by
  obtain ⟨hstate, hevents⟩ := h
  obtain ⟨hstate', hevents'⟩ := h'
  rw [Leads, read_append, hstate]
  refine ⟨hstate', ?_⟩
  change List.foldl _ _ _ = _
  rw [List.foldl_append]
  change events file (events file s _) _ = _
  rw [hevents, hevents']

theorem events_spelling {es : List Event} (h : Spelling x es) (hne : es ≠ [] ∨ s.cur.isSome) :
    s.events file es = { s with cur := some (s.cur.getD [] ++ x) } := by
  induction h generalizing s with
  | nil =>
    obtain ⟨w, hw⟩ := Option.isSome_iff_exists.mp (hne.resolve_left (by simp))
    obtain ⟨words, cur, marks, found⟩ := s
    obtain rfl : cur = some w := hw
    simp [Appending.events]
  | quote _ ih => exact ih (.inr rfl)
  | @char x _ c _ ih =>
    have hword : s.cur.getD [] ++ c :: x = s.cur.getD [] ++ [c] ++ x := by simp
    rw [hword]
    exact ih (.inr rfl)

theorem leads_quote (hm : m.isPlain = true) (x : Text) :
    Leads file m s (quote x) .word { s with cur := some (s.cur.getD [] ++ x) } := by
  obtain ⟨es, hread, hes, hne⟩ := spelling_quote hm x
  rw [Leads, hread]
  exact ⟨rfl, events_spelling hes (.inl hne)⟩

/-- Not within a redirection, and within a word only where the reader is. -/
structure Idle (m : Mode) (s : Appending) : Prop where
  marks : s.marks = 0
  cur : m = .blank → s.cur = none

/-- The part holds no command that appends, whatever it follows. -/
def Keeps (file : Text) (m : Mode) (a : Text) (n : Mode) : Prop :=
  ∀ s, Idle m s → ∃ t, Idle n t ∧ t.found = s.found ∧ Leads file m s a n t

theorem Keeps.append {k : Mode} (h : Keeps file m a n) (h' : Keeps file n b k) :
    Keeps file m (a ++ b) k := by
  intro s hs
  obtain ⟨t, ht, hfound, hleads⟩ := h s hs
  obtain ⟨u, hu, hfound', hleads'⟩ := h' t ht
  exact ⟨u, hu, hfound'.trans hfound, hleads.append hleads'⟩

theorem keeps_quote (hm : m.isPlain = true) (x : Text) : Keeps file m (quote x) .word :=
  fun s hs =>
    ⟨{ s with cur := some (s.cur.getD [] ++ x) }, ⟨hs.marks, nofun⟩, rfl, leads_quote hm x⟩

/-- The same word and redirection, and some commands found before. -/
structure Alike (fs : List (List Text)) (s t : Appending) : Prop where
  cur : s.cur = t.cur
  marks : s.marks = t.marks
  count : s.found.length = fs.length + t.found.length
  before : fs <+: s.found

theorem Alike.endWord {fs : List (List Text)} (h : Alike fs s t) :
    Alike fs (s.endWord file) (t.endWord file) := by
  obtain ⟨words, cur, marks, found⟩ := s
  obtain ⟨words', cur', marks', found'⟩ := t
  obtain ⟨hcur, hmarks, hcount, hbefore⟩ := h
  obtain rfl : cur = cur' := hcur
  obtain rfl : marks = marks' := hmarks
  cases cur with
  | none => exact ⟨rfl, rfl, hcount, hbefore⟩
  | some w =>
    simp only [Appending.endWord]
    split_ifs with hzero happend
    · exact ⟨rfl, rfl, hcount, hbefore⟩
    · refine ⟨rfl, rfl, ?_, hbefore.trans (List.prefix_append _ _)⟩
      simp only [List.length_append, List.length_singleton] at hcount ⊢
      omega
    · exact ⟨rfl, rfl, hcount, hbefore⟩

theorem Alike.mark {fs : List (List Text)} (h : Alike fs s t) :
    Alike fs (s.mark file) (t.mark file) := by
  have hend : Alike fs (s.endWord file) (t.endWord file) := h.endWord
  unfold Appending.mark
  rw [h.cur, h.marks]
  split_ifs
  · exact ⟨rfl, rfl, h.count, h.before⟩
  · exact ⟨hend.cur, congrArg (· + 1) hend.marks, hend.count, hend.before⟩

theorem Alike.event {fs : List (List Text)} (h : Alike fs s t) (e : Event) :
    Alike fs (s.event file e) (t.event file e) := by
  have hend : Alike fs (s.endWord file) (t.endWord file) := h.endWord
  cases e with
  | char c =>
    exact ⟨congrArg (fun w => some (Option.getD w [] ++ [c])) h.cur, h.marks, h.count, h.before⟩
  | quote => exact ⟨congrArg (fun w => some (Option.getD w [])) h.cur, h.marks, h.count, h.before⟩
  | gap => exact hend
  | sym c =>
    change Alike fs (if c = '>' then s.mark file else if c = '&' ∧ s.cur = none ∧ s.marks = 1 then s
        else { s.endWord file with words := [], marks := 0 })
      (if c = '>' then t.mark file else if c = '&' ∧ t.cur = none ∧ t.marks = 1 then t
        else { t.endWord file with words := [], marks := 0 })
    rw [h.cur, h.marks]
    split_ifs
    · exact h.mark
    · exact h
    · exact ⟨hend.cur, rfl, hend.count, hend.before⟩
  | _ => exact ⟨hend.cur, rfl, hend.count, hend.before⟩

theorem Alike.events {fs : List (List Text)} (h : Alike fs s t) (es : List Event) :
    Alike fs (s.events file es) (t.events file es) := by
  induction es generalizing s t with
  | nil => exact h
  | cons e es ih => exact ih (h.event e)

/-- What a fixed part does between two words is seen from its own events. -/
theorem keeps_blank (h : Leads file .blank .init a n t ∧ Idle n t ∧ t.found = []) :
    Keeps file .blank a n := by
  obtain ⟨⟨hstate, hevents⟩, ht, hfound⟩ := h
  intro s hs
  have halike : Alike s.found s .init := ⟨hs.cur rfl, hs.marks, rfl, List.prefix_rfl⟩
  have h : Alike s.found (s.events file (read ⟨.blank, [], []⟩ a).2) t :=
    hevents ▸ halike.events (read ⟨.blank, [], []⟩ a).2
  refine ⟨_, ⟨h.marks.trans ht.marks, fun hn => h.cur.trans (ht.cur hn)⟩, ?_, hstate, rfl⟩
  have hcount := h.count
  rw [hfound, List.length_nil, Nat.add_zero] at hcount
  exact (h.before.eq_of_length hcount.symm).symm

/-- With no redirection open, the end of a word finds nothing. -/
theorem endWord_idle (hs : s.marks = 0) : (s.endWord file).marks = 0 ∧
    (s.endWord file).cur = none ∧ (s.endWord file).found = s.found := by
  obtain ⟨words, cur, marks, found⟩ := s
  obtain rfl : marks = 0 := hs
  cases cur <;> simp [endWord]

/-- A word ends at a blank or at the end of its command. -/
theorem keeps_word {c : Char} (hc : c = ' ' ∨ c = ';') (h : Keeps file .blank a n) :
    Keeps file .word (c :: a) n := by
  intro s hs
  obtain ⟨hmarks, hcur, hfound⟩ : (s.endWord file).marks = 0 ∧ (s.endWord file).cur = none ∧
      (s.endWord file).found = s.found := endWord_idle hs.marks
  have hchar : ∃ t, Leads file .word s [c] .blank t ∧ Idle .blank t ∧ t.found = s.found := by
    rcases hc with rfl | rfl
    · exact ⟨s.endWord file, ⟨rfl, rfl⟩, ⟨hmarks, fun _ => hcur⟩, hfound⟩
    · exact ⟨{ s.endWord file with words := [], marks := 0 }, ⟨rfl, rfl⟩, ⟨rfl, fun _ => hcur⟩,
        hfound⟩
  obtain ⟨t, ht, hidle, hfound⟩ := hchar
  obtain ⟨u, hu, hfound', hleads⟩ := h t hidle
  exact ⟨u, hu, hfound'.trans hfound, ht.append hleads⟩

/-- Whether a fixed text between two words holds no command that appends. -/
def quietBlank (file : Text) (n : Mode) (a : Text) : Bool :=
  let r := read ⟨.blank, [], []⟩ a
  let t := Appending.init.events file r.2
  r.1 = ⟨n, [], []⟩ && t.marks = 0 && t.found = [] && (n ≠ .blank || t.cur = none)

def quietText (file : Text) (m n : Mode) (a : Text) : Bool :=
  match m, a with
  | .blank, a => quietBlank file n a
  | .word, c :: rest => (c = ' ' || c = ';') && quietBlank file n rest
  | _, _ => false

theorem keeps_of_quietBlank (h : quietBlank file n a = true) : Keeps file .blank a n := by
  simp only [quietBlank, Bool.and_eq_true, decide_eq_true_eq, Bool.or_eq_true] at h
  obtain ⟨⟨⟨hstate, hmarks⟩, hfound⟩, hcur⟩ := h
  exact keeps_blank ⟨⟨hstate, rfl⟩, ⟨hmarks, fun hn => hcur.resolve_left (absurd hn)⟩, hfound⟩

theorem keeps_text {parts : List String}
    (h : parts.all oneByte = true ∧ quietText file m n (parts.flatMap ofBytes) = true) :
    Keeps file m (text parts) n := by
  refine text_of_bytes (P := (Keeps file m · n)) ⟨h.1, ?_⟩
  have hquiet := h.2
  generalize parts.flatMap ofBytes = a at hquiet ⊢
  unfold quietText at hquiet
  split at hquiet
  · exact keeps_of_quietBlank hquiet
  · rw [Bool.and_eq_true, Bool.or_eq_true, decide_eq_true_eq, decide_eq_true_eq] at hquiet
    exact keeps_word hquiet.1 (keeps_of_quietBlank hquiet.2)
  · cases hquiet

/-- After an operator a command begins anew. -/
theorem leads_operator {c : Char} {rest : Text} (hc : c = '|' ∨ c = '&') (hs : Idle .blank s)
    (hfound : s.found = []) (h : Leads file .blank .init (c :: rest) n t) :
    Leads file .blank s (c :: rest) n t := by
  have hevent : event file s (.sym c) = event file .init (.sym c) := by
    obtain ⟨words, cur, marks, found⟩ := s
    obtain rfl : marks = 0 := hs.marks
    obtain rfl : cur = none := hs.cur rfl
    obtain rfl : found = [] := hfound
    rcases hc with rfl | rfl <;> rfl
  have hstep : step ⟨.blank, [], []⟩ c = (⟨.blank, [], []⟩, [.sym c]) := by
    rcases hc with rfl | rfl <;> rfl
  rw [Leads, read, hstep] at h ⊢
  refine ⟨h.1, ?_⟩
  change events file (event file s (.sym c)) _ = _
  rw [hevent]
  exact h.2

theorem leads_redirect (hfile : quote file = file) (ws : List Text) (w : Text) :
    Leads file .word ⟨ws, some w, 0, []⟩ (" >> ".toList ++ file) .word
      ⟨ws ++ [w], some file, 2, []⟩ := by
  have hmarks : Leads file .word ⟨ws, some w, 0, []⟩ " >> ".toList .blank
      ⟨ws ++ [w], none, 2, []⟩ := ⟨by decide, rfl⟩
  have hname : Leads file .blank ⟨ws ++ [w], none, 2, []⟩ (quote file) .word
      ⟨ws ++ [w], some file, 2, []⟩ := leads_quote rfl file
  rw [hfile] at hname
  exact hmarks.append hname

theorem leads_found {sep : Text} (hsep : sep = " ".toList ∨ sep = ";".toList) (ws : List Text) :
    ∃ t, Idle .blank t ∧ t.found = [ws] ∧ Leads file .word ⟨ws, some file, 2, []⟩ sep .blank t := by
  have hend : endWord file ⟨ws, some file, 2, []⟩ = ⟨ws, none, 0, [ws]⟩ := by simp [endWord]
  rcases hsep with rfl | rfl
  · exact ⟨⟨ws, none, 0, [ws]⟩, ⟨rfl, fun _ => rfl⟩, rfl, rfl, hend⟩
  · refine ⟨⟨[], none, 0, [ws]⟩, ⟨rfl, fun _ => rfl⟩, rfl, rfl, ?_⟩
    change ({ endWord file ⟨ws, some file, 2, []⟩ with words := [], marks := 0 } : Appending) = _
    rw [hend]

/-- A command that begins after an operator, ends in a quoted argument and appends to the file is
the only one that does when what comes before and after it holds none. -/
theorem appenders_single {pre program sep post : Text} {ws : List Text} (hfile : quote file = file)
    (hpre : Keeps file .blank pre .blank)
    (hop : program.head? = some '|' ∨ program.head? = some '&')
    (hprogram : Leads file .blank .init program .blank ⟨ws, none, 0, []⟩)
    (hsep : sep = " ".toList ∨ sep = ";".toList) (hpost : Keeps file .blank post n) (line : Text) :
    appenders file
      (pre ++ (program ++ (quote line ++ (" >> ".toList ++ (file ++ (sep ++ post)))))) =
      [ws ++ [line]] := by
  obtain ⟨c, rest, rfl⟩ : ∃ c rest, program = c :: rest := by
    refine List.exists_cons_of_ne_nil fun hnil => ?_
    simp [hnil] at hop
  have hc : c = '|' ∨ c = '&' := hop.imp Option.some.inj Option.some.inj
  obtain ⟨s, hs, hnone, hleads⟩ := hpre .init ⟨rfl, fun _ => rfl⟩
  obtain ⟨t, ht, hfound, hmark⟩ := @leads_found file sep hsep (ws ++ [line])
  obtain ⟨u, hu, hkept, hrest⟩ := hpost t ht
  have hline : Leads file .blank ⟨ws, none, 0, []⟩ (quote line) .word ⟨ws, some line, 0, []⟩ :=
    leads_quote rfl line
  have hall := hleads.append ((leads_operator hc hs hnone hprogram).append
    (hline.append ((leads_redirect hfile ws line).append (hmark.append hrest))))
  rw [List.append_assoc " >> ".toList] at hall
  rw [appenders, show start = ⟨.blank, [], []⟩ from rfl, hall.2, (endWord_idle hu.marks).2.2, hkept,
    hfound]

end Appending

end ShellReader
