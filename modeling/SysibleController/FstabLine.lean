import SysibleController.CriticalPaths

/-! A line of `/etc/fstab` as the programs that mount read it: fields between blanks and tabs, with
octal escapes in them, and comments. -/
namespace FstabLine

open PathText
open CriticalPaths (isOctal)

def isSeparator (c : Char) : Bool := c = ' ' || c = '\t'

/-- A backslash and three octal digits are the number of a byte. -/
def decode : Text → Text
  | '\\' :: a :: b :: c :: rest =>
    if isOctal a ∧ isOctal b ∧ isOctal c then
      Char.ofNat ((CriticalPaths.octal [a, b, c]).toNat % 256) :: decode rest
    else '\\' :: decode (a :: b :: c :: rest)
  | c :: rest => c :: decode rest
  | [] => []

def fields (line : Text) : List Text := (line.splitOnP isSeparator).filter (· ≠ [])

structure Entry where
  source : Text
  target : Text
  fstype : Text
  options : Text
  deriving DecidableEq

def Entry.fields (e : Entry) : List Text := [e.source, e.target, e.fstype, e.options]

/-- Something holds of every field. -/
def Entry.All (P : Text → Prop) (e : Entry) : Prop :=
  P e.source ∧ P e.target ∧ P e.fstype ∧ P e.options

theorem Entry.all_iff {P : Text → Prop} {e : Entry} : e.All P ↔ ∀ x ∈ e.fields, P x := by
  simp [Entry.All, Entry.fields]

/-- The fields that say what is mounted. What comes first begins a comment with `#`. -/
def parse (line : Text) : Option Entry :=
  match fields line with
  | source :: target :: fstype :: options :: _ =>
    if source.head? = some '#' then none
    else some ⟨decode source, decode target, decode fstype, decode options⟩
  | _ => none

example : parse "/dev/sdb1\t/mnt/my\\040data ext4  defaults 0 2".toList =
    some ⟨"/dev/sdb1".toList, "/mnt/my data".toList, "ext4".toList, "defaults".toList⟩ := by decide

/-! ### Escapes -/

def threeDigits : Text → Bool
  | a :: b :: c :: _ => isOctal a && isOctal b && isOctal c
  | _ => false

def hasEscape : Text → Bool
  | [] => false
  | c :: rest => (c = '\\' && threeDigits rest) || hasEscape rest

variable {x y p rest : Text} {c d : Char}

theorem decode_escape (h : threeDigits rest = true) :
    ∃ d, decode ('\\' :: rest) = d :: decode (rest.drop 3) := by
  unfold threeDigits at h
  split at h
  · rw [Bool.and_eq_true, Bool.and_eq_true, and_assoc] at h
    exact ⟨_, by rw [decode, if_pos h]; rfl⟩
  · cases h

theorem decode_cons (h : (c = '\\' && threeDigits rest) = false) :
    decode (c :: rest) = c :: decode rest := by
  rw [Bool.and_eq_false_iff] at h
  by_cases hc : c = '\\'
  · subst hc
    have hdigits := h.resolve_left (by decide)
    rcases rest with _ | ⟨a, _ | ⟨b, _ | ⟨c, more⟩⟩⟩
    · rfl
    · rfl
    · rfl
    · have hnot : ¬(isOctal a = true ∧ isOctal b = true ∧ isOctal c = true) := by
        simpa [threeDigits] using hdigits
      rw [decode, if_neg hnot]
  · rw [decode]
    exact fun _ _ _ _ hcons _ => hc hcons

theorem length_decode_le (x : Text) : (decode x).length ≤ x.length := by
  induction h : x.length using Nat.strong_induction_on generalizing x with
  | _ n ih =>
    cases x with
    | nil => exact Nat.zero_le _
    | cons c rest =>
      subst h
      cases hescape : (c = '\\' && threeDigits rest) with
      | false =>
        rw [decode_cons hescape, List.length_cons, List.length_cons]
        exact Nat.succ_le_succ (ih rest.length (by simp) rest rfl)
      | true =>
        obtain ⟨hc, hdigits⟩ := Bool.and_eq_true_iff.mp hescape
        obtain rfl := of_decide_eq_true hc
        obtain ⟨d, hd⟩ := decode_escape hdigits
        have hlen : (rest.drop 3).length ≤ rest.length := by simp
        have hrest := ih (rest.drop 3).length (Nat.lt_succ_of_le hlen) (rest.drop 3) rfl
        rw [hd, List.length_cons, List.length_cons]
        omega

/-- Only a text without escapes is what it stands for: an escape is longer than its character. -/
theorem decode_eq_self_iff (x : Text) : decode x = x ↔ hasEscape x = false := by
  induction x with
  | nil => exact iff_of_true rfl rfl
  | cons c rest ih =>
    cases hescape : (c = '\\' && threeDigits rest) with
    | false => rw [decode_cons hescape, List.cons_inj_right, ih, hasEscape, hescape, Bool.false_or]
    | true =>
      refine iff_of_false (fun heq => ?_) (by simp [hasEscape, hescape])
      obtain ⟨hc, hdigits⟩ := Bool.and_eq_true_iff.mp hescape
      obtain rfl := of_decide_eq_true hc
      obtain ⟨d, hd⟩ := decode_escape hdigits
      have hlen := congrArg List.length heq
      have hshort := length_decode_le (rest.drop 3)
      have hlong : 3 ≤ rest.length := by
        unfold threeDigits at hdigits
        split at hdigits
        · simp
        · cases hdigits
      rw [hd, List.length_cons, List.length_cons] at hlen
      rw [List.length_drop] at hshort
      omega

/-- Read as it is written. -/
def Clean (x : Text) : Prop := (∀ c ∈ x, isSeparator c = false) ∧ hasEscape x = false

theorem hasEscape_append_left (h : '\\' ∉ p) : hasEscape (p ++ x) = hasEscape x := by
  induction p with
  | nil => rfl
  | cons c p ih =>
    have hc : c ≠ '\\' := fun hc => h (hc ▸ List.mem_cons_self)
    rw [List.cons_append, hasEscape, ih fun hmem => h (List.mem_cons_of_mem c hmem)]
    simp [hc]

theorem threeDigits_append (hd : isOctal d = false) :
    threeDigits (x ++ d :: y) = threeDigits x := by
  rcases x with _ | ⟨a, _ | ⟨b, _ | ⟨c, more⟩⟩⟩
  · rcases y with _ | ⟨b, _ | ⟨c, more⟩⟩ <;> simp [threeDigits, hd]
  · rcases y with _ | ⟨c, more⟩ <;> simp [threeDigits, hd]
  · simp [threeDigits, hd]
  · rfl

/-- No escape runs across a character that is not a digit. -/
theorem hasEscape_append (hd : isOctal d = false) :
    hasEscape (x ++ d :: y) = (hasEscape x || hasEscape (d :: y)) := by
  induction x with
  | nil => rfl
  | cons c x ih =>
    rw [List.cons_append, hasEscape, threeDigits_append hd, ih, ← Bool.or_assoc]
    rfl

theorem clean_append_left (h : '\\' ∉ p) (hp : ∀ c ∈ p, isSeparator c = false) :
    Clean (p ++ x) ↔ Clean x := by
  unfold Clean
  rw [hasEscape_append_left h]
  simp only [List.mem_append, or_imp, forall_and]
  exact ⟨fun hx => ⟨hx.1.2, hx.2⟩, fun hx => ⟨⟨hp, hx.1⟩, hx.2⟩⟩

theorem clean_append (hd : isOctal d = false) : Clean (x ++ d :: y) ↔ Clean x ∧ Clean (d :: y) := by
  unfold Clean
  rw [hasEscape_append hd, Bool.or_eq_false_iff]
  simp only [List.mem_append, or_imp, forall_and]
  tauto

theorem clean_plain (h : ∀ c ∈ x, isSeparator c = false) (hx : '\\' ∉ x) : Clean x :=
  ⟨h, by simpa [hasEscape] using hasEscape_append_left (x := []) hx⟩

theorem threeDigits_append_of (h : threeDigits x = true) : threeDigits (x ++ y) = true := by
  rcases x with _ | ⟨a, _ | ⟨b, _ | ⟨c, more⟩⟩⟩
  · cases h
  · cases h
  · cases h
  · exact h

theorem hasEscape_left (h : hasEscape x = true) : hasEscape (x ++ y) = true := by
  induction x with
  | nil => cases h
  | cons c x ih =>
    rw [hasEscape, Bool.or_eq_true, Bool.and_eq_true] at h
    rw [List.cons_append, hasEscape, Bool.or_eq_true, Bool.and_eq_true]
    exact h.imp (fun ⟨hc, hx⟩ => ⟨hc, threeDigits_append_of hx⟩) ih

theorem hasEscape_right (h : hasEscape x = true) : hasEscape (p ++ x) = true := by
  induction p with
  | nil => exact h
  | cons c p ih =>
    rw [List.cons_append, hasEscape, Bool.or_eq_true]
    exact .inr ih

theorem Clean.part (h : Clean (p ++ x ++ y)) : Clean x := by
  refine ⟨fun c hc => h.1 c (by simp [hc]), Bool.eq_false_iff.mpr fun hx => ?_⟩
  have hall := hasEscape_left (y := y) (hasEscape_right (p := p) hx)
  rw [h.2] at hall
  cases hall

/-- Characters that are put in the place of others. -/
theorem hasEscape_map {f : Char → Char} (hslash : ∀ c, f c = '\\' ↔ c = '\\')
    (hoctal : ∀ c, isOctal (f c) = isOctal c) : hasEscape (x.map f) = hasEscape x := by
  have hdigits : ∀ x : Text, threeDigits (x.map f) = threeDigits x := by
    intro x
    rcases x with _ | ⟨a, _ | ⟨b, _ | ⟨c, more⟩⟩⟩ <;> simp [threeDigits, hoctal]
  induction x with
  | nil => rfl
  | cons c x ih =>
    rw [List.map_cons, hasEscape, hdigits, ih, hasEscape]
    simp only [hslash c]

/-- Without separators and backslashes. -/
def plainText (x : Text) : Bool := x.all fun c => !isSeparator c && c != '\\'

theorem of_plainText (h : plainText x = true) : (∀ c ∈ x, isSeparator c = false) ∧ '\\' ∉ x := by
  have hall : ∀ c ∈ x, isSeparator c = false ∧ c ≠ '\\' := by
    intro c hc
    simpa using List.all_eq_true.mp h c hc
  exact ⟨fun c hc => (hall c hc).1, fun hmem => (hall _ hmem).2 rfl⟩

theorem clean_plainText (h : plainText x = true) : Clean x :=
  clean_plain (of_plainText h).1 (of_plainText h).2

theorem clean_after (h : plainText p = true) : Clean (p ++ x) ↔ Clean x :=
  clean_append_left (of_plainText h).2 (of_plainText h).1

/-! ### Fields -/

theorem fields_first (hx : x ≠ []) (h : ∀ c ∈ x, isSeparator c = false)
    (hc : isSeparator c = true) : fields (x ++ c :: rest) = x :: fields rest := by
  rw [fields, List.splitOnP_append_cons_of_forall_mem h c hc,
    List.filter_cons_of_pos (by simpa using hx)]
  rfl

/-- What does not begin with a blank begins with a field, and that is all of it only where it has
no blank. -/
theorem fields_head (hx : ∃ c ∈ x.head?, isSeparator c = false)
    (hsep : ∃ d ∈ x, isSeparator d = true) :
    ∃ f more, fields (x ++ c :: rest) = f :: more ∧ f.length < x.length := by
  have hsplit := List.takeWhile_append_dropWhile (p := fun d => !isSeparator d) (l := x)
  obtain ⟨d, y, hy⟩ : ∃ d y, x.dropWhile (fun d => !isSeparator d) = d :: y := by
    refine List.exists_cons_of_ne_nil fun hnil => ?_
    obtain ⟨d, hd, hdsep⟩ := hsep
    have := List.dropWhile_eq_nil_iff.mp hnil d hd
    simp [hdsep] at this
  have hd : isSeparator d = true := by
    have := List.head_dropWhile_not (fun d => !isSeparator d) (l := x) (by simp [hy])
    simpa [hy] using this
  have hne : x.takeWhile (fun d => !isSeparator d) ≠ [] := by
    obtain ⟨e, he, hplain⟩ := hx
    cases x with
    | nil => cases he
    | cons e' x =>
      obtain rfl := Option.some.inj he
      simp [hplain]
  have hlen := congrArg List.length hsplit
  rw [hy] at hsplit hlen
  rw [List.length_append, List.length_cons] at hlen
  have hfields : fields (x ++ c :: rest) =
      x.takeWhile (fun d => !isSeparator d) :: fields (y ++ c :: rest) := by
    conv_lhs => rw [← hsplit, List.append_assoc, List.cons_append]
    exact fields_first hne (fun c hc => by simpa using List.mem_takeWhile_imp hc) hd
  exact ⟨_, _, hfields, by omega⟩

/-- Words with a separator after each are the first fields exactly when they are clean. -/
theorem prefix_fields_iff {xs : List Text}
    (hxs : ∀ x ∈ xs, ∃ d ∈ x.head?, isSeparator d = false) (hc : isSeparator c = true) :
    xs <+: (fields (xs.flatMap (· ++ [c]) ++ rest)).map decode ↔ ∀ x ∈ xs, Clean x := by
  induction xs with
  | nil => simp
  | cons x xs ih =>
    have ih := ih fun y hy => hxs y (List.mem_cons_of_mem x hy)
    have hsplit : (x :: xs).flatMap (· ++ [c]) ++ rest =
        x ++ c :: (xs.flatMap (· ++ [c]) ++ rest) := by simp
    have hx := hxs x List.mem_cons_self
    rw [hsplit, List.forall_mem_cons]
    by_cases hsep : ∃ d ∈ x, isSeparator d = true
    · obtain ⟨f, more, hfields, hlen⟩ := fields_head hx hsep
      have hdecode := length_decode_le f
      obtain ⟨d, hd, hdsep⟩ := hsep
      refine iff_of_false (fun hfront => ?_) fun hclean => ?_
      · rw [hfields, List.map_cons, List.cons_prefix_cons] at hfront
        rw [hfront.1] at hlen
        omega
      · rw [hclean.1.1 d hd] at hdsep
        cases hdsep
    · push Not at hsep
      have hplain : ∀ d ∈ x, isSeparator d = false := fun d hd => by simpa using hsep d hd
      have hne : x ≠ [] := by
        rintro rfl
        obtain ⟨d, hd, -⟩ := hx
        cases hd
      rw [fields_first hne hplain hc, List.map_cons, List.cons_prefix_cons, ih, eq_comm,
        decode_eq_self_iff]
      exact and_congr_left fun _ => ⟨fun h => ⟨hplain, h⟩, And.right⟩

theorem parse_iff (line : Text) (e : Entry) : parse line = some e ↔
    e.fields <+: (fields line).map decode ∧ (fields line).head?.bind List.head? ≠ some '#' := by
  unfold parse
  split
  · rename_i source target fstype options more hfields
    rw [hfields]
    by_cases hcomment : source.head? = some '#'
    · simp [hcomment]
    · rw [if_neg hcomment, Option.some.injEq]
      cases e
      simp [hcomment, Entry.fields, List.cons_prefix_cons, eq_comm]
  · rename_i hshort
    refine iff_of_false (fun h => by cases h) fun ⟨hfront, _⟩ => ?_
    have hlen := hfront.length_le
    rw [List.length_map] at hlen
    rcases hfields : fields line with _ | ⟨s, _ | ⟨t, _ | ⟨f, _ | ⟨o, more⟩⟩⟩⟩
    · simp [hfields, Entry.fields] at hlen
    · simp [hfields, Entry.fields] at hlen
    · simp [hfields, Entry.fields] at hlen
    · simp [hfields, Entry.fields] at hlen
    · exact hshort s t f o more hfields

/-- The entry as a line, and what comes after its fields. -/
def Entry.line (sep : Char) (e : Entry) (rest : Text) : Text :=
  e.fields.flatMap (· ++ [sep]) ++ rest

/-- Does not begin with a blank. -/
def Begins (x : Text) : Prop := ∃ d ∈ x.head?, isSeparator d = false

/-- The line of an entry is read as that entry exactly when the fields are clean and the first does
not begin a comment. -/
theorem parse_line_iff {e : Entry} (hc : isSeparator c = true) (he : e.All Begins) :
    parse (e.line c rest) = some e ↔ e.All Clean ∧ e.source.head? ≠ some '#' := by
  rw [Entry.line, parse_iff, prefix_fields_iff (Entry.all_iff.mp he) hc, ← Entry.all_iff]
  refine and_congr_right fun hclean => ?_
  have hfirst : fields (e.fields.flatMap (· ++ [c]) ++ rest) =
      e.source :: fields ([e.target, e.fstype, e.options].flatMap (· ++ [c]) ++ rest) := by
    have hne : e.source ≠ [] := by
      intro hnil
      obtain ⟨d, hd, -⟩ := he.1
      rw [hnil] at hd
      cases hd
    rw [← fields_first hne hclean.1.1 hc]
    simp [Entry.fields]
  rw [hfirst]
  rfl

end FstabLine
