import SysibleController.Splitting

/-! Paths as texts: what Python's `posixpath` computes with them, and when the path of a name in
a directory is in normal form. -/
namespace PathText

abbrev Text := List Char

instance lawfulBEq_text : LawfulBEq Text := List.instLawfulBEq

def Absolute (p : Text) : Prop := p.head? = some '/'

instance (p : Text) : Decidable (Absolute p) := inferInstanceAs (Decidable (_ = _))

def join (a b : Text) : Text :=
  if Absolute b then b
  else if a = [] ∨ a.getLast? = some '/' then a ++ b
  else a ++ '/' :: b

/-- Exactly two leading slashes stay two, any other number becomes one. -/
def initialSlashes (p : Text) : ℕ :=
  let k := (p.takeWhile (· = '/')).length
  if k = 2 then 2 else min k 1

def normStep (rooted : Bool) (comps : List Text) (comp : Text) : List Text :=
  if comp = [] ∨ comp = ['.'] then comps
  else if comp ≠ ['.', '.'] ∨ (rooted = false ∧ comps = []) ∨ comps.getLast? = some ['.', '.'] then
    comps ++ [comp]
  else comps.dropLast

def normComps (k : ℕ) (p : Text) : List Text :=
  (p.splitOn '/').foldl (normStep (decide (k ≠ 0))) []

def normpath (p : Text) : Text :=
  let k := initialSlashes p
  let path := List.replicate k '/' ++ ['/'].intercalate (normComps k p)
  if path = [] then ['.'] else path

def dirname (p : Text) : Text :=
  let head := p.rdropWhile (· ≠ '/')
  if head.all (· = '/') then head else head.rdropWhile (· = '/')

def basename (p : Text) : Text := p.rtakeWhile (· ≠ '/')

/-- `p.rstrip("/") or "/"`. -/
def stripped (p : Text) : Text :=
  let path := p.rdropWhile (· = '/')
  if path = [] then ['/'] else path

/-- A name that a directory can hold. -/
structure IsName (n : Text) : Prop where
  nonempty : n ≠ []
  dot : n ≠ ['.']
  dotdot : n ≠ ['.', '.']
  slashless : '/' ∉ n

variable {d e n p x : Text} {k : ℕ} {rooted : Bool} {comps xs : List Text}

theorem IsName.not_absolute (h : IsName n) : ¬Absolute n := fun ha =>
  h.slashless (List.mem_of_mem_head? ha)

theorem IsName.getLast (h : IsName n) : n.getLast? ≠ some '/' := fun hl =>
  h.slashless (List.mem_of_mem_getLast? hl)

/-! ### A name in a directory -/

/-- A directory's path up to the slash that a name in it follows. -/
def base (d : Text) : Text := if d.getLast? = some '/' then d.dropLast else d

theorem base_slash (h : d.getLast? = some '/') : base d ++ ['/'] = d := by
  rw [base, if_pos h]
  exact List.dropLast_append_getLast? '/' h

theorem join_name (hd : d ≠ []) (hn : IsName n) : join d n = base d ++ '/' :: n := by
  rw [join, if_neg hn.not_absolute]
  by_cases h : d.getLast? = some '/'
  · rw [if_pos (Or.inr h)]
    conv_lhs => rw [← base_slash h]
    simp
  · rw [if_neg (by simp [hd, h]), base, if_neg h]

theorem join_ne_nil (hd : d ≠ []) (hn : IsName n) : join d n ≠ [] := by
  rw [join_name hd hn]
  simp

theorem getLast_join (hd : d ≠ []) (hn : IsName n) : (join d n).getLast? ≠ some '/' := by
  obtain ⟨c, n, rfl⟩ := List.exists_cons_of_ne_nil hn.nonempty
  rw [join_name hd hn, List.getLast?_append]
  have := hn.getLast
  simp_all

theorem base_join (hd : d ≠ []) (hn : IsName n) : base (join d n) = join d n := by
  rw [base, if_neg (getLast_join hd hn)]

theorem absolute_join (hd : d ≠ []) (hn : IsName n) : Absolute (join d n) ↔ Absolute d := by
  obtain ⟨a, d, rfl⟩ := List.exists_cons_of_ne_nil hd
  rw [join, if_neg hn.not_absolute]
  split <;> simp [Absolute]

theorem basename_join (hd : d ≠ []) (hn : IsName n) : basename (join d n) = n := by
  have hall : ∀ c ∈ n.reverse, decide (c ≠ '/') = true := by
    intro c hc
    rw [decide_eq_true_eq]
    rintro rfl
    exact hn.slashless (List.mem_reverse.mp hc)
  rw [basename, join_name hd hn, List.rtakeWhile, List.reverse_append, List.reverse_cons,
    List.append_assoc, List.takeWhile_append_of_pos hall]
  simp

theorem rdropWhile_join (hd : d ≠ []) (hn : IsName n) :
    (join d n).rdropWhile (· ≠ '/') = base d ++ ['/'] := by
  have hall : ∀ c ∈ n.reverse, decide (c ≠ '/') = true := by
    intro c hc
    rw [decide_eq_true_eq]
    rintro rfl
    exact hn.slashless (List.mem_reverse.mp hc)
  rw [join_name hd hn, List.rdropWhile, List.reverse_append, List.reverse_cons,
    List.append_assoc, List.dropWhile_append_of_pos hall]
  simp

/-- The directory of a name in `d` is `d` again, up to slashes at its end. -/
theorem dirname_join (hd : d ≠ []) (hn : IsName n) :
    dirname (join d n) = base d ++ ['/'] ∨ dirname (join d n) = stripped (base d ++ ['/']) := by
  simp only [dirname, rdropWhile_join hd hn]
  split
  · exact Or.inl rfl
  · rename_i hall
    refine Or.inr ?_
    rw [stripped, if_neg]
    simpa [List.rdropWhile_eq_nil_iff] using hall

theorem stripped_ne_nil (p : Text) : stripped p ≠ [] := by
  simp only [stripped]
  split
  · simp
  · assumption

theorem stripped_concat (p : Text) : stripped (p ++ ['/']) = stripped p := by
  simp only [stripped]
  rw [List.rdropWhile_concat_pos _ _ _ (by simp)]

theorem stripped_of_last (h : p ≠ []) (hl : p.getLast? ≠ some '/') : stripped p = p := by
  have hself : p.rdropWhile (· = '/') = p := by
    rw [List.rdropWhile_eq_self_iff]
    intro hp hlast
    rw [decide_eq_true_eq] at hlast
    exact hl (by rw [List.getLast?_eq_some_getLast hp, hlast])
  rw [stripped, hself, if_neg h]

/-! ### Normal form -/

theorem initialSlashes_slash (hx : ¬Absolute x) :
    initialSlashes (e ++ '/' :: x) = initialSlashes (e ++ ['/']) := by
  have hnone : x.takeWhile (· = '/') = [] := by
    cases x with
    | nil => rfl
    | cons c x =>
      rw [List.takeWhile_cons_of_neg]
      simpa [Absolute] using hx
  have heq : (e ++ '/' :: x).takeWhile (· = '/') = (e ++ ['/']).takeWhile (· = '/') := by
    rw [List.append_cons, List.takeWhile_append]
    split
    · rename_i hlen
      rw [hnone, List.append_nil]
      exact ((List.takeWhile_prefix _).eq_of_length hlen).symm
    · rfl
  rw [initialSlashes, initialSlashes, heq]

theorem normStep_name (hn : IsName n) : normStep rooted comps n = comps ++ [n] := by
  rw [normStep, if_neg (by simp [hn.nonempty, hn.dot]), if_pos (Or.inl hn.dotdot)]

theorem normComps_slash (hn : IsName n) : normComps k (e ++ '/' :: n) = normComps k e ++ [n] := by
  rw [normComps, List.splitOn_append_cons_self, List.splitOn_eq_singleton hn.slashless,
    List.foldl_append]
  exact normStep_name hn

theorem intercalate_concat (comps : List Text) (n : Text) :
    ['/'].intercalate (comps ++ [n]) = comps.flatMap (· ++ ['/']) ++ n := by
  induction comps with
  | nil => simp
  | cons c comps ih =>
    rw [List.cons_append, List.intercalate_cons_of_ne_nil (by simp), ih]
    simp

/-- What a name follows in the normal form of its path. -/
def stem (e : Text) : Text :=
  let k := initialSlashes (e ++ ['/'])
  List.replicate k '/' ++ (normComps k e).flatMap (· ++ ['/'])

theorem normpath_slash (hn : IsName n) : normpath (e ++ '/' :: n) = stem e ++ n := by
  simp only [normpath, initialSlashes_slash hn.not_absolute, normComps_slash hn,
    intercalate_concat]
  rw [← List.append_assoc, if_neg (by simp [hn.nonempty])]
  rfl

theorem stem_slash (hn : IsName n) : stem (e ++ '/' :: n) = stem e ++ n ++ ['/'] := by
  have hx : ¬Absolute (n ++ ['/']) := by
    obtain ⟨c, n, rfl⟩ := List.exists_cons_of_ne_nil hn.nonempty
    simpa [Absolute] using hn.not_absolute
  have hk : initialSlashes (e ++ '/' :: n ++ ['/']) = initialSlashes (e ++ ['/']) := by
    rw [List.append_assoc, List.cons_append, initialSlashes_slash hx]
  simp only [stem, hk, normComps_slash hn]
  simp

/-- Every name in the directory has its path in normal form. -/
def Orderly (d : Text) : Prop := ∀ n, IsName n → normpath (join d n) = join d n

theorem normpath_join (hd : d ≠ []) (hn : IsName n) :
    normpath (join d n) = join d n ↔ stem (base d) = base d ++ ['/'] := by
  rw [join_name hd hn, normpath_slash hn, List.append_cons (base d)]
  exact List.append_left_inj n

theorem orderly_iff (hd : d ≠ []) (hn : IsName n) :
    Orderly d ↔ normpath (join d n) = join d n := by
  constructor
  · exact fun h => h n hn
  · intro h m hm
    rw [normpath_join hd hm]
    exact (normpath_join hd hn).mp h

theorem isName_x : IsName ['x'] := by constructor <;> decide

theorem orderly_iff_stem (hd : d ≠ []) : Orderly d ↔ stem (base d) = base d ++ ['/'] :=
  (orderly_iff hd isName_x).trans (normpath_join hd isName_x)

/-- A directory's own path and those of the names in it are in normal form together. -/
theorem orderly_join (hd : d ≠ []) (hn : IsName n) : Orderly (join d n) ↔ Orderly d := by
  rw [orderly_iff_stem (join_ne_nil hd hn), orderly_iff_stem hd, base_join hd hn,
    join_name hd hn, stem_slash hn, List.append_cons (base d), List.append_left_inj,
    List.append_left_inj]

/-! ### What a directory in normal form is stripped to -/

theorem mem_foldl_normStep (h : x ∈ xs.foldl (normStep rooted) comps) :
    x ∈ comps ∨ (x ∈ xs ∧ x ≠ []) := by
  induction xs generalizing comps with
  | nil => exact Or.inl h
  | cons y xs ih =>
    rcases ih h with h | ⟨h, hne⟩
    · rw [normStep] at h
      split at h
      · exact Or.inl h
      · rename_i hy
        split at h
        · rcases List.mem_append.mp h with h | h
          · exact Or.inl h
          · obtain rfl := List.mem_singleton.mp h
            exact Or.inr ⟨by simp, fun hx => hy (Or.inl hx)⟩
        · exact Or.inl (List.dropLast_subset comps h)
    · exact Or.inr ⟨List.mem_cons_of_mem y h, hne⟩

theorem slashless_of_mem_splitOn (h : x ∈ p.splitOn '/') : '/' ∉ x := Splitting.sep_notMem h

theorem stripped_base (d : Text) : stripped (base d) = stripped d := by
  by_cases h : d.getLast? = some '/'
  · conv_rhs => rw [← base_slash h]
    exact (stripped_concat _).symm
  · rw [base, if_neg h]

theorem subset_base (d : Text) : d ⊆ base d ++ ['/'] := by
  intro c hc
  by_cases h : d.getLast? = some '/'
  · rwa [base_slash h]
  · rw [base, if_neg h]
    exact List.mem_append_left _ hc

/-- Unless it is all slashes. -/
theorem stripped_orderly (hd : d ≠ []) (ho : Orderly d) (hs : ∃ c ∈ d, c ≠ '/') :
    stripped d = base d := by
  obtain ⟨c, hc, hne⟩ := hs
  have hstem := (orderly_iff_stem hd).mp ho
  have hin : c ∈ base d ++ ['/'] := subset_base d hc
  simp only [stem] at hstem
  generalize initialSlashes (base d ++ ['/']) = k at hstem
  rcases List.eq_nil_or_concat' (normComps k (base d)) with hnil | ⟨comps, x, hcomps⟩
  · rw [hnil, List.flatMap_nil, List.append_nil] at hstem
    rw [← hstem] at hin
    exact absurd (List.eq_of_mem_replicate hin) hne
  · have hx : x ∈ normComps k (base d) := by simp [hcomps]
    rcases mem_foldl_normStep hx with h | ⟨hmem, hxne⟩
    · cases h
    have hslash := slashless_of_mem_splitOn hmem
    rw [hcomps, List.flatMap_append, List.flatMap_singleton, ← List.append_assoc,
      ← List.append_assoc, List.append_left_inj] at hstem
    rw [← stripped_base, ← hstem]
    refine stripped_of_last (by simp [hxne]) fun hlast => ?_
    rw [List.getLast?_append_of_ne_nil _ hxne] at hlast
    exact hslash (List.mem_of_mem_getLast? hlast)

end PathText
