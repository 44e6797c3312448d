import SysibleController.FixedGrep
import Mathlib.Data.List.DropRight

/-! How `sshd` reads its configuration: the options that hold for every connection, over the main
file and the files that it includes. Of several lines for one keyword the first counts, and what
stands under a `Match` is not among them. -/
namespace SshdConfig

open PathText TextLines FixedGrep

def isBlank (c : Char) : Bool := c = ' ' || c = '\t' || c = '\r'

/-- What ends a keyword. -/
def isDelimiter (c : Char) : Bool := isBlank c || c = '=' || c = '"'

/-- Keywords are the same in letters of either case. -/
def fold (t : Text) : Text := t.map Char.toLower

/-- Blanks, with at most one sign of equality among them, are dropped. -/
def separator (t : Text) : Text :=
  let t := t.dropWhile isBlank
  if t.head? = some '=' then t.tail.dropWhile isBlank else t

/-- The word at the start of a text, where a part of it may be quoted, and what follows. -/
def word (t : Text) : Option (Text × Text) :=
  let head := t.takeWhile fun c => !isDelimiter c
  match t.dropWhile fun c => !isDelimiter c with
  | '"' :: rest =>
    if '"' ∈ rest then
      some (head ++ rest.takeWhile (· ≠ '"'), (rest.dropWhile (· ≠ '"')).tail.dropWhile isBlank)
    else none
  | rest => some (head, separator rest)

/-- The keyword of a line, and its arguments as they stand there. -/
def directive (l : Text) : Option (Text × Text) :=
  match word (separator l) with
  | none => none
  | some (k, rest) =>
    if k = [] ∨ k.head? = some '#' then none
    else some (fold k, rest.rdropWhile fun c => isBlank c || c = '\x0c')

def keyword (l : Text) : Option Text := (directive l).map Prod.fst

def matchWord : Text := "match".toList

def includeWord : Text := "include".toList

/-- A line that sets an option, and whether it stands in a file that is edited. -/
structure Occurrence where
  line : Text
  edited : Bool

structure File where
  text : Text
  edited : Bool

/-- A `Match` holds up to the end of its file. -/
def matched (inMatch : Bool) (l : Text) : Bool := inMatch || keyword l = some matchWord

/-- The options that a line sets for every connection. -/
def options (included : Text → List Occurrence) (edited inMatch : Bool) (l : Text) :
    List Occurrence :=
  match directive l with
  | none => []
  | some (k, arguments) =>
    if matched inMatch l then []
    else if k = includeWord then included arguments
    else [⟨l, edited⟩]

def scan (included : Text → List Occurrence) (edited : Bool) : Bool → List Text → List Occurrence
  | _, [] => []
  | inMatch, l :: rest =>
    options included edited inMatch l ++ scan included edited (matched inMatch l) rest

/-- The options of the files that an `Include` stands for, and of those that they include in turn,
down to a depth. -/
def included (expand : Text → List Text) (file : Text → File) : ℕ → Text → List Occurrence
  | 0, _ => []
  | n + 1, arguments => (expand arguments).flatMap fun p =>
      scan (included expand file n) (file p).edited false (lines (file p).text)

/-- The arguments of the first line for a keyword. -/
def value (k : Text) (os : List Occurrence) : Option Text :=
  (os.find? fun o => keyword o.line = some k).bind fun o => (directive o.line).map Prod.snd

/-- The keywords of `sshd` are letters and digits. -/
def IsKeyword (k : Text) : Prop := ∀ c ∈ k, c.isAlphanum = true

variable {incl : Text → List Occurrence} {edited b : Bool} {ls ms : List Text} {k l x : Text}
  {os ps : List Occurrence} {o : Occurrence} {c d : Char}

theorem scan_append : scan incl edited b (ls ++ ms) =
    scan incl edited b ls ++ scan incl edited (ls.foldl matched b) ms := by
  induction ls generalizing b with
  | nil => rfl
  | cons l rest ih => simp only [List.cons_append, scan, ih, List.append_assoc, List.foldl_cons]

theorem options_of_none (h : directive l = none) : options incl edited b l = [] := by
  rw [options, h]

theorem matched_of_none (h : directive l = none) : matched b l = b := by
  simp [matched, keyword, h]

theorem directive_blank (h : l.all isBlank = true) : directive l = none := by
  have hdrop : l.dropWhile isBlank = [] := List.dropWhile_eq_nil_iff.mpr (List.all_eq_true.mp h)
  simp [directive, separator, hdrop, word]

theorem value_append : value k (os ++ ps) = (value k os).or (value k ps) := by
  rw [value, List.find?_append, value]
  cases hfind : os.find? fun o => keyword o.line = some k with
  | none => rfl
  | some o =>
    have hk : keyword o.line = some k := by simpa using List.find?_some hfind
    obtain ⟨y, hy, -⟩ := Option.map_eq_some_iff.mp hk
    simp [hy]

theorem value_singleton {a : Text} (h : directive l = some (k, a)) :
    value k [⟨l, edited⟩] = some a := by
  simp [value, keyword, h]

theorem value_singleton_ne {w a : Text} (h : directive l = some (w, a)) (hne : w ≠ k) :
    value k [⟨l, edited⟩] = none := by
  simp [value, keyword, h, hne]

theorem value_nil : value k [] = none := rfl

/-- Lines that are not of the keyword do not count for it. -/
theorem value_filter {keep : Occurrence → Bool}
    (h : ∀ o ∈ os, keep o = false → keyword o.line ≠ some k) :
    value k (os.filter keep) = value k os := by
  have hfind : (os.filter keep).find? (fun o => keyword o.line = some k) =
      os.find? fun o => keyword o.line = some k := by
    induction os with
    | nil => rfl
    | cons o rest ih =>
      have hrest := ih fun o ho => h o (List.mem_cons_of_mem _ ho)
      cases hkeep : keep o with
      | true => rw [List.filter_cons_of_pos hkeep, List.find?_cons, List.find?_cons, hrest]
      | false =>
        rw [List.filter_cons_of_neg (by simp [hkeep]), hrest, List.find?_cons_of_neg]
        simpa using h o List.mem_cons_self hkeep
  rw [value, value, hfind]

/-- No option is called `Match` or `Include`. -/
def Proper (o : Occurrence) : Prop :=
  keyword o.line ≠ some matchWord ∧ keyword o.line ≠ some includeWord

theorem proper_of_mem_options (hincl : ∀ a, ∀ o ∈ incl a, Proper o)
    (h : o ∈ options incl edited b l) : Proper o := by
  unfold options at h
  cases hdir : directive l with
  | none => simp [hdir] at h
  | some y =>
    simp only [hdir] at h
    split_ifs at h with hmatch hinclude
    · simp at h
    · exact hincl _ o h
    · obtain rfl := List.mem_singleton.mp h
      rw [matched, Bool.or_eq_true, not_or, decide_eq_true_eq] at hmatch
      refine ⟨hmatch.2, ?_⟩
      simpa [keyword, hdir] using hinclude

theorem proper_of_mem_scan (hincl : ∀ a, ∀ o ∈ incl a, Proper o)
    (h : o ∈ scan incl edited b ls) : Proper o := by
  induction ls generalizing b with
  | nil => simp [scan] at h
  | cons l rest ih =>
    rcases List.mem_append.mp h with h | h
    · exact proper_of_mem_options hincl h
    · exact ih h

theorem proper_of_mem_included {expand : Text → List Text} {file : Text → File} {n : ℕ} :
    ∀ a, ∀ o ∈ included expand file n a, Proper o := by
  induction n with
  | zero => exact fun a o h => by simp [included] at h
  | succ n ih =>
    intro a o h
    obtain ⟨p, -, hp⟩ := List.mem_flatMap.mp h
    exact proper_of_mem_scan ih hp

theorem value_eq_none (h : ∀ o ∈ os, Proper o) (hk : k = matchWord ∨ k = includeWord) :
    value k os = none := by
  have hfind : os.find? (fun o => keyword o.line = some k) = none := by
    rw [List.find?_eq_none]
    intro o ho
    rcases hk with rfl | rfl
    · simpa using (h o ho).1
    · simpa using (h o ho).2
  rw [value, hfind]
  rfl

/-! ### Keywords -/

theorem toLower_eq_iff (hd : d.isAlpha = false) : c.toLower = d ↔ c = d := by
  rw [show d.isAlpha = (d.isUpper || d.isLower) from rfl, Bool.or_eq_false_iff] at hd
  unfold Char.toLower
  split_ifs with h
  · constructor
    · rintro rfl
      have h1 := UInt32.le_iff_toNat_le.mp h.1
      have h2 := UInt32.le_iff_toNat_le.mp h.2
      have hlower := hd.2
      rw [show ∀ c : Char, c.isLower = (decide ('a'.val ≤ c.val) && decide (c.val ≤ 'z'.val)) from
        fun _ => rfl] at hlower
      simp only [Bool.and_eq_false_iff, decide_eq_false_iff_not,
        UInt32.le_iff_toNat_le, UInt32.toNat_add] at hlower
      simp at h1 h2 hlower
      omega
    · rintro rfl
      have hupper : c.isUpper = true := decide_eq_true h
      rw [hupper] at hd
      exact absurd hd.1 (by decide)
  · rfl

theorem isDelimiter_toLower : isDelimiter c.toLower = isDelimiter c := by
  have hspace : c.toLower = ' ' ↔ c = ' ' := toLower_eq_iff (by decide)
  have htab : c.toLower = '\t' ↔ c = '\t' := toLower_eq_iff (by decide)
  have hreturn : c.toLower = '\r' ↔ c = '\r' := toLower_eq_iff (by decide)
  have hequals : c.toLower = '=' ↔ c = '=' := toLower_eq_iff (by decide)
  have hquote : c.toLower = '"' ↔ c = '"' := toLower_eq_iff (by decide)
  simp only [isDelimiter, isBlank, hspace, htab, hreturn, hequals, hquote]

theorem not_delimiter_of_fold (h : ∀ c ∈ k, isDelimiter c = false) (hx : fold x = fold k) :
    ∀ c ∈ x, isDelimiter c = false := by
  intro c hc
  have hmem : c.toLower ∈ fold k := hx ▸ List.mem_map_of_mem hc
  obtain ⟨d, hd, heq⟩ := List.mem_map.mp hmem
  rw [← isDelimiter_toLower, ← heq, isDelimiter_toLower]
  exact h d hd

theorem notMem_of_fold (hd : d.isAlpha = false) (h : d ∉ k) (hx : fold x = fold k) : d ∉ x := by
  intro hmem
  have hfold : d.toLower ∈ fold k := hx ▸ List.mem_map_of_mem hmem
  obtain ⟨c, hc, heq⟩ := List.mem_map.mp hfold
  rw [(toLower_eq_iff hd).mpr rfl] at heq
  exact h ((toLower_eq_iff hd).mp heq ▸ hc)

theorem separator_eq {t : Text} (hb : x.all isBlank = true) (hc : isDelimiter c = false) :
    separator (x ++ c :: t) = c :: t := by
  simp only [isDelimiter, Bool.or_eq_false_iff, decide_eq_false_iff_not] at hc
  have hdrop : (x ++ c :: t).dropWhile isBlank = c :: t := by
    rw [List.dropWhile_append_of_pos (List.all_eq_true.mp hb),
      List.dropWhile_cons_of_neg (by simp [hc.1.1])]
  simp [separator, hdrop, hc.1.2]

/-- A keyword with a blank behind it. -/
theorem word_eq {t : Text} (hk : ∀ c ∈ k, isDelimiter c = false) (hd : isBlank d = true) :
    word (k ++ d :: t) = some (k, separator (d :: t)) := by
  have hpos : ∀ c ∈ k, (!isDelimiter c) = true := fun c hc => by simp [hk c hc]
  have hneg : ¬ (!isDelimiter d) = true := by simp [isDelimiter, hd]
  have hquote : d ≠ '"' := by
    rintro rfl
    exact absurd hd (by decide)
  have htake : (d :: t).takeWhile (fun c => !isDelimiter c) = [] := List.takeWhile_cons_of_neg hneg
  have hdrop : (d :: t).dropWhile (fun c => !isDelimiter c) = d :: t :=
    List.dropWhile_cons_of_neg hneg
  rw [word, List.takeWhile_append_of_pos hpos, List.dropWhile_append_of_pos hpos, htake, hdrop,
    List.append_nil]
  split
  · next heq => exact absurd (List.cons.inj heq).1 hquote
  · rfl

/-- What may be a keyword of a file that is edited. -/
structure Plain (k : Text) : Prop where
  nonempty : k ≠ []
  delimiter : ∀ c ∈ k, isDelimiter c = false
  hash : '#' ∉ k

theorem directive_eq {t : Text} (hk : Plain k) (hb : x.all isBlank = true) (hd : isBlank d = true) :
    directive (x ++ (k ++ d :: t)) =
      some (fold k, (separator (d :: t)).rdropWhile fun c => isBlank c || c = '\x0c') := by
  obtain ⟨c, rest, rfl⟩ := List.exists_cons_of_ne_nil hk.nonempty
  have hsep := separator_eq (t := rest ++ d :: t) hb (hk.delimiter c List.mem_cons_self)
  have hhash : ¬ some c = some '#' := by
    rintro ⟨⟩
    exact hk.hash List.mem_cons_self
  rw [directive, List.cons_append, hsep, ← List.cons_append, word_eq hk.delimiter hd]
  simp [hhash]

/-- The word of a line begins with the characters up to the first delimiter. -/
theorem mem_keyword {a w : Text} (h : directive l = some (w, a)) (hd : isDelimiter c = false)
    (hx : ∀ c ∈ x, isDelimiter c = false) {t : Text} (hl : separator l = x ++ c :: t) :
    c.toLower ∈ w := by
  have hpos : ∀ c ∈ x, (!isDelimiter c) = true := fun c hc => by simp [hx c hc]
  have hhead : c ∈ (x ++ c :: t).takeWhile fun c => !isDelimiter c := by
    rw [List.takeWhile_append_of_pos hpos, List.takeWhile_cons_of_pos (by simp [hd])]
    simp
  rw [directive, hl] at h
  cases hword : word (x ++ c :: t) with
  | none => simp [hword] at h
  | some y =>
    simp only [hword] at h
    split_ifs at h
    obtain ⟨rfl, -⟩ := Prod.mk.inj (Option.some.inj h)
    apply List.mem_map_of_mem
    unfold word at hword
    split at hword
    · split_ifs at hword
      obtain rfl := Option.some.inj hword
      exact List.mem_append_left _ hhead
    · obtain rfl := Option.some.inj hword
      exact hhead

end SshdConfig
