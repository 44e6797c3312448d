import SysibleController.ShellReader

/-! The simple commands of a command line: where its words and its operators stand, not what the
words are. Two texts that are alike in a place can be exchanged there. -/
namespace ShellReader

open PathText ShellQuote

/-- What an event follows. -/
inductive Before where
  | nothing
  | word
  | operator
  deriving DecidableEq

/-- A word, an operator character with whether it continues an operator, and the other tokens. -/
inductive Token where
  | word
  | sym (c : Char) (joined : Bool)
  | newline
  | tick
  | opensub
  | closesub
  | body
  deriving DecidableEq

def tokens : Before → Event → Before × List Token
  | .word, .char _ | .word, .quote => (.word, [])
  | _, .char _ | _, .quote => (.word, [.word])
  | _, .gap => (.nothing, [])
  | b, .sym c => (.operator, [.sym c (b = .operator)])
  | _, .newline => (.nothing, [.newline])
  | _, .tick => (.word, [.tick])
  | _, .opensub => (.nothing, [.opensub])
  | _, .closesub => (.word, [.closesub])
  | _, .line _ | _, .close => (.nothing, [.body])

def tokensOf : Before → List Event → Before × List Token
  | b, [] => (b, [])
  | b, e :: rest =>
    match tokens b e with
    | (b', ts) => ((tokensOf b' rest).1, ts ++ (tokensOf b' rest).2)

/-- A place in a command: where the reader is, and what it has seen last. -/
abbrev Place := State × Before

def scan (σ : Place) (a : Text) : Place × List Token :=
  match read σ.1 a with
  | (s, es) => ((s, (tokensOf σ.2 es).1), (tokensOf σ.2 es).2)

/-- No quote, substitution or here-document is left open. -/
def State.complete (s : State) : Bool :=
  (match s.mode with
    | .blank | .word | .comment | .less => true
    | _ => false) && s.subs.isEmpty && s.pending.isEmpty

/-- The tokens of the rest of a command, and whether it is complete. -/
def parseFrom (σ : Place) (a : Text) : List Token × Bool :=
  ((scan σ a).2, (scan σ a).1.1.complete)

def parse (command : Text) : List Token × Bool := parseFrom (start, .nothing) command

theorem parse_fst (command : Text) : (parse command).1 = (scan (start, .nothing) command).2 := rfl

variable {σ τ υ : Place} {a b c d x y : Text} {es fs : List Event}

theorem tokensOf_append (p : Before) (es fs : List Event) : tokensOf p (es ++ fs) =
    ((tokensOf (tokensOf p es).1 fs).1, (tokensOf p es).2 ++ (tokensOf (tokensOf p es).1 fs).2) := by
  induction es generalizing p with
  | nil => rfl
  | cons e rest ih => simp [tokensOf, ih]

theorem scan_append (σ : Place) (a b : Text) : scan σ (a ++ b) =
    ((scan (scan σ a).1 b).1, (scan σ a).2 ++ (scan (scan σ a).1 b).2) := by
  simp [scan, read_append, tokensOf_append]

/-- Two texts lead from one place to the same place, with the same tokens. -/
def Alike (σ : Place) (a b : Text) (τ : Place) : Prop := scan σ a = scan σ b ∧ (scan σ a).1 = τ

theorem Alike.append (h : Alike σ a b τ) (k : Alike τ c d υ) : Alike σ (a ++ c) (b ++ d) υ := by
  obtain ⟨hab, hτ⟩ := h
  obtain ⟨hcd, hυ⟩ := k
  refine ⟨?_, ?_⟩
  · rw [scan_append, scan_append, ← hab, hτ, hcd]
  · rw [scan_append, hτ]
    exact hυ

theorem Alike.parse (h : Alike (start, .nothing) a b τ) : parse a = parse b := by
  rw [ShellReader.parse, ShellReader.parse, parseFrom, parseFrom, h.1]

/-- The rest decides, behind texts that are alike. -/
theorem Alike.parseFrom_iff (h : Alike σ a b τ) :
    parseFrom σ (a ++ c) = parseFrom σ (b ++ d) ↔ parseFrom τ c = parseFrom τ d := by
  obtain ⟨hab, hτ⟩ := h
  simp only [parseFrom, scan_append, ← hab, hτ, Prod.mk.injEq, List.append_cancel_left_eq]

/-- The place that a fixed text leads to, in one pass. -/
def leadsTo (τ : Place) : Place → Text → Bool
  | σ, [] => σ = τ
  | (s, p), ch :: rest =>
    match step s ch with
    | (s', es) =>
      match tokensOf p es with
      | (p', _) => leadsTo τ (s', p') rest

theorem leadsTo_iff : leadsTo τ σ a = true ↔ (scan σ a).1 = τ := by
  induction a generalizing σ with
  | nil => simp [leadsTo, scan, read, tokensOf]
  | cons ch rest ih =>
    obtain ⟨s, p⟩ := σ
    simp only [leadsTo, ih]
    simp [scan, read, tokensOf_append]

/-- A fixed text is alike itself. -/
theorem Alike.fixed (h : leadsTo τ σ a = true) : Alike σ a a τ := ⟨rfl, leadsTo_iff.mp h⟩

theorem Alike.fixed_text {parts : List String}
    (h : parts.all ShellQuote.oneByte ∧ leadsTo τ σ (parts.flatMap ShellQuote.ofBytes) = true) :
    Alike σ (ShellQuote.text parts) (ShellQuote.text parts) τ :=
  .fixed (ShellQuote.text_of_bytes (P := (leadsTo τ σ · = true)) h)

/-! ### Parts of a word -/

/-- Inside a word outside quotes, and inside single quotes. -/
def inWord : Place := (⟨.word, [], []⟩, .word)

def inSingle : Place := (⟨.single, [], []⟩, .word)

/-- The text adds nothing but characters to the word that it is in. -/
def Within (σ : Place) (x : Text) : Prop := scan σ x = (σ, [])

instance : Decidable (Within σ x) := inferInstanceAs (Decidable (_ = _))

theorem Within.alike (hx : Within σ x) (hy : Within σ y) : Alike σ x y σ :=
  ⟨hx.trans hy.symm, by rw [show scan σ x = (σ, []) from hx]⟩

theorem Within.append (hx : Within σ x) (hy : Within σ y) : Within σ (x ++ y) := by
  rw [Within, scan_append, show scan σ x = (σ, []) from hx, show scan σ y = (σ, []) from hy]
  rfl

theorem within_cons {ch : Char} (h : scan σ [ch] = (σ, [])) (hx : Within σ x) :
    Within σ (ch :: x) :=
  Within.append h hx

theorem within_word (hx : ∀ ch ∈ x, ordinary ch = true) : Within inWord x := by
  induction x with
  | nil => rfl
  | cons ch rest ih =>
    refine within_cons ?_ (ih fun c hc => hx c (List.mem_cons_of_mem ch hc))
    have hstep : step inWord.1 ch = (inWord.1, [.char ch]) := by
      rw [step_plain rfl, plain_ordinary (hx ch List.mem_cons_self)]
      rfl
    simp only [scan, read, hstep]
    rfl

/-- Ordinary characters between two words are a word of their own. -/
theorem scan_ordinary (hx : ∀ ch ∈ x, ordinary ch = true) (hne : x ≠ []) :
    scan (start, .nothing) x = (inWord, [.word]) := by
  obtain ⟨ch, rest, rfl⟩ := List.exists_cons_of_ne_nil hne
  have hfirst : scan (start, .nothing) [ch] = (inWord, [.word]) := by
    have hstep : step start ch = (inWord.1, [.char ch]) := by
      rw [step_plain rfl, plain_ordinary (hx ch List.mem_cons_self)]
      rfl
    simp only [scan, read, hstep]
    rfl
  have hrest := within_word fun c hc => hx c (List.mem_cons_of_mem ch hc)
  have hcons : ch :: rest = [ch] ++ rest := rfl
  rw [hcons, scan_append, hfirst, show scan inWord rest = (inWord, []) from hrest]
  rfl

theorem within_single (hx : '\'' ∉ x) : Within inSingle x := by
  induction x with
  | nil => rfl
  | cons ch rest ih =>
    obtain ⟨hch, hrest⟩ : ¬ '\'' = ch ∧ '\'' ∉ rest := by simpa using hx
    refine within_cons ?_ (ih hrest)
    have hstep : step inSingle.1 ch = (inSingle.1, [.char ch]) := by
      simp [step, inSingle, Ne.symm hch]
    simp only [scan, read, hstep]
    rfl

theorem scan_escaped (x : Text) : scan inSingle (escaped x ++ ['\'']) = (inWord, []) := by
  induction x with
  | nil => rfl
  | cons ch rest ih =>
    by_cases hc : ch = '\''
    · have hesc : escaped (ch :: rest) ++ ['\''] =
          "'\"'\"'".toList ++ (escaped rest ++ ['\'']) := by
        simp [escaped, hc]
      have hmarks : scan inSingle "'\"'\"'".toList = (inSingle, []) := by decide
      rw [hesc, scan_append, hmarks, ih]
      rfl
    · have hesc : escaped (ch :: rest) ++ ['\''] = [ch] ++ (escaped rest ++ ['\'']) := by
        simp [escaped, hc]
      have hchar : scan inSingle [ch] = (inSingle, []) :=
        within_single (by simpa using Ne.symm hc)
      rw [hesc, scan_append, hchar, ih]
      rfl

/-- A quoted text inside a word is a part of it. -/
theorem within_quote (x : Text) : Within inWord (quote x) := by
  unfold quote
  split_ifs with hnil hsafe
  · exact (by decide : scan inWord "''".toList = (inWord, []))
  · exact within_word fun c hc => ordinary_of_safe (List.all_eq_true.mp hsafe c hc)
  · have hmark : scan inWord ['\''] = (inSingle, []) := by decide
    have hcons : '\'' :: escaped x ++ ['\''] = ['\''] ++ (escaped x ++ ['\'']) := rfl
    rw [Within, hcons, scan_append, hmark, scan_escaped]
    rfl

end ShellReader
