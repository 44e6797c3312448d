import SysibleController.PosixPrograms

/-! `os.path.realpath`: the place of a path, whether anything is there or not. It looks at the
links alone, and where the kernel finds a place it is the same. -/
namespace PosixTree

variable {γ : Type} {t u : Tree γ}

def linkTarget (t : Tree γ) (p : Path) : Option String :=
  match t.get p with
  | some (.link _ target) => some target
  | _ => none

/-- Walks along components, and goes on behind a link where `jump` leads. -/
def realWith (links : Path → Option String) (jump : Path → List Name → Option Path) :
    Path → List Name → Option Path
  | cur, [] => some cur
  | cur, c :: rest =>
    if c = "" ∨ c = "." then realWith links jump cur rest
    else if c = ".." then realWith links jump cur.dropLast rest
    else match links (cur ++ [c]) with
      | some target => (jump (linkBase cur target) (linkParts target)).bind fun cur =>
          realWith links jump cur rest
      | none => realWith links jump (cur ++ [c]) rest

/-- With links that lead into one another at most `n` deep. -/
def realFrom (links : Path → Option String) : ℕ → Path → List Name → Option Path
  | 0 => realWith links fun _ _ => none
  | n + 1 => realWith links (realFrom links n)

def realpath (n : ℕ) (t : Tree γ) (p : Path) : Option Path := realFrom (linkTarget t) n [] p

/-- A path of proper names without links. -/
structure Canonical (links : Path → Option String) (p : Path) : Prop where
  names : ∀ n ∈ p, ValidName n
  plain : ∀ q, q <+: p → q ≠ [] → links q = none

variable {links : Path → Option String} {jump jump' : Path → List Name → Option Path}
  {cur p q : Path} {parts xs ys : List Name} {n m k : ℕ} {c : Name}

theorem realWith_append : realWith links jump cur (xs ++ ys) =
    (realWith links jump cur xs).bind fun cur => realWith links jump cur ys := by
  induction xs generalizing cur with
  | nil => rfl
  | cons c rest ih =>
    rw [List.cons_append, realWith, realWith]
    split_ifs
    · exact ih
    · exact ih
    · cases links (cur ++ [c]) with
      | none => exact ih
      | some target =>
        simp only
        rw [Option.bind_assoc]
        exact congrArg _ (funext fun _ => ih)

theorem realFrom_append : realFrom links n cur (xs ++ ys) =
    (realFrom links n cur xs).bind fun cur => realFrom links n cur ys := by
  cases n <;> exact realWith_append

theorem realWith_mono (h : ∀ base parts q, jump base parts = some q → jump' base parts = some q)
    (hq : realWith links jump cur parts = some q) : realWith links jump' cur parts = some q := by
  induction parts generalizing cur with
  | nil => exact hq
  | cons c rest ih =>
    rw [realWith] at hq ⊢
    split_ifs at hq ⊢
    · exact ih hq
    · exact ih hq
    · cases hlink : links (cur ++ [c]) with
      | none =>
        rw [hlink] at hq
        exact ih hq
      | some target =>
        rw [hlink] at hq
        obtain ⟨mid, hmid, hrest⟩ := Option.bind_eq_some_iff.mp hq
        exact Option.bind_eq_some_iff.mpr ⟨mid, h _ _ _ hmid, ih hrest⟩

theorem realFrom_succ (h : realFrom links n cur parts = some q) :
    realFrom links (n + 1) cur parts = some q := by
  induction n generalizing cur parts q with
  | zero => exact realWith_mono (fun _ _ _ hnone => by cases hnone) h
  | succ n ih => exact realWith_mono (fun _ _ _ => ih) h

theorem realFrom_le (hnm : n ≤ m) (h : realFrom links n cur parts = some q) :
    realFrom links m cur parts = some q := by
  induction hnm with
  | refl => exact h
  | step _ ih => exact realFrom_succ ih

theorem real_of_walk {jumpTo : Path → List Name → Except Errno Path}
    (hjump : ∀ base xs ys q, jumpTo base (xs ++ ys) = .ok q → ∃ mid, jump base xs = some mid ∧
      realWith (linkTarget t) jump mid ys = some q)
    (h : walkWith t true jumpTo cur parts = .ok q) :
    realWith (linkTarget t) jump cur parts = some q := by
  induction parts generalizing cur with
  | nil => exact congrArg some (Except.ok.inj h)
  | cons c rest ih =>
    rw [walkWith] at h
    rw [realWith]
    by_cases hskip : c = "" ∨ c = "."
    · rw [if_pos hskip] at h ⊢
      exact ih h
    rw [if_neg hskip] at h ⊢
    by_cases hup : c = ".."
    · rw [if_pos hup] at h ⊢
      exact ih h
    rw [if_neg hup] at h ⊢
    cases hget : t.get (cur ++ [c]) with
    | none =>
      have hlink : linkTarget t (cur ++ [c]) = none := by simp [linkTarget, hget]
      simp only [hget] at h
      split_ifs at h with hrest
      rw [hlink, hrest]
      exact congrArg some (Except.ok.inj h)
    | some node =>
      cases node with
      | dir =>
        have hlink : linkTarget t (cur ++ [c]) = none := by simp [linkTarget, hget]
        rw [hlink]
        exact ih (by simpa [hget] using h)
      | link a target =>
        have hlink : linkTarget t (cur ++ [c]) = some target := by simp [linkTarget, hget]
        simp only [hget, Bool.true_eq_false, and_false, if_false] at h
        obtain ⟨mid, hmid, hrest⟩ := hjump _ _ _ _ h
        rw [hlink]
        exact Option.bind_eq_some_iff.mpr ⟨mid, hmid, hrest⟩
      | file | special =>
        have hlink : linkTarget t (cur ++ [c]) = none := by simp [linkTarget, hget]
        simp only [hget] at h
        split_ifs at h with hrest
        rw [hlink, hrest]
        exact congrArg some (Except.ok.inj h)

/-- Where the kernel arrives, links or not, is the real path. -/
theorem real_of_resolve (h : resolve t true k cur parts = .ok q) :
    realFrom (linkTarget t) k cur parts = some q := by
  induction k generalizing cur parts q with
  | zero =>
    refine real_of_walk (fun base xs ys q hq => ?_) h
    cases hq
  | succ k ih =>
    refine real_of_walk (fun base xs ys q hq => ?_) h
    have happ := ih hq
    rw [realFrom_append] at happ
    obtain ⟨mid, hmid, hrest⟩ := Option.bind_eq_some_iff.mp happ
    exact ⟨mid, hmid, realFrom_succ hrest⟩

theorem Canonical.dropLast (h : Canonical links cur) : Canonical links cur.dropLast :=
  ⟨fun n hn => h.names n (List.dropLast_subset cur hn),
    fun q hq hne => h.plain q (hq.trans (List.dropLast_prefix cur)) hne⟩

theorem canonical_nil : Canonical links [] :=
  ⟨by simp, fun q hq hne => absurd (List.prefix_nil.mp hq) hne⟩

theorem Canonical.snoc (h : Canonical links cur) (hc : ValidName c)
    (hlink : links (cur ++ [c]) = none) : Canonical links (cur ++ [c]) := by
  refine ⟨fun n hn => ?_, fun q hq hne => ?_⟩
  · rcases List.mem_append.mp hn with hn | hn
    · exact h.names n hn
    · exact List.mem_singleton.mp hn ▸ hc
  · rcases List.prefix_concat_iff.mp (by simpa using hq) with rfl | hq
    · simpa using hlink
    · exact h.plain q hq hne

theorem canonical_realWith
    (hjump : ∀ base parts q, Canonical links base → jump base parts = some q → Canonical links q)
    (hcur : Canonical links cur) (h : realWith links jump cur parts = some q) :
    Canonical links q := by
  induction parts generalizing cur with
  | nil => exact Option.some.inj h ▸ hcur
  | cons c rest ih =>
    rw [realWith] at h
    split_ifs at h with hskip hup
    · exact ih hcur h
    · exact ih hcur.dropLast h
    · cases hlink : links (cur ++ [c]) with
      | none =>
        rw [hlink] at h
        have hvalid : ValidName c := ⟨fun he => hskip (.inl he), fun he => hskip (.inr he), hup⟩
        exact ih (hcur.snoc hvalid hlink) h
      | some target =>
        rw [hlink] at h
        obtain ⟨mid, hmid, hrest⟩ := Option.bind_eq_some_iff.mp h
        refine ih (hjump _ _ _ ?_ hmid) hrest
        unfold linkBase
        split_ifs
        · exact canonical_nil
        · exact hcur

theorem canonical_realFrom (hcur : Canonical links cur)
    (h : realFrom links n cur parts = some q) : Canonical links q := by
  induction n generalizing cur parts q with
  | zero => exact canonical_realWith (fun _ _ _ _ hnone => by cases hnone) hcur h
  | succ n ih => exact canonical_realWith (fun _ _ _ => ih) hcur h

theorem Canonical.realWith (h : Canonical links (cur ++ parts)) :
    PosixTree.realWith links jump cur parts = some (cur ++ parts) := by
  induction parts generalizing cur with
  | nil => simp [PosixTree.realWith]
  | cons c rest ih =>
    obtain ⟨h1, h2, h3⟩ := h.names c (by simp)
    have hlink : links (cur ++ [c]) = none :=
      h.plain _ ⟨rest, by simp⟩ (by simp)
    have hsplit : cur ++ c :: rest = (cur ++ [c]) ++ rest := by simp
    rw [PosixTree.realWith, if_neg (by tauto), if_neg h3, hlink, hsplit]
    exact ih (hsplit ▸ h)

theorem Canonical.realFrom (h : Canonical links (cur ++ parts)) :
    PosixTree.realFrom links n cur parts = some (cur ++ parts) := by
  cases n <;> exact h.realWith

/-- A canonical path leads to its own place. -/
theorem Canonical.locate (h : Canonical (linkTarget t) p) (hq : PosixTree.locate t true p = .ok q) :
    q = p := by
  have hreal := real_of_resolve hq
  have hself : PosixTree.realFrom (linkTarget t) maxLinks [] p = some p :=
    (show Canonical (linkTarget t) ([] ++ p) from h).realFrom
  exact Option.some.inj (hreal.symm.trans hself)

theorem realpath_of_locate (hn : maxLinks ≤ n) (hq : locate t true p = .ok q) :
    realpath n t p = some q := realFrom_le hn (real_of_resolve hq)

end PosixTree
