import SysibleController.PosixTree
import Mathlib.Data.List.Induction

/-! Where paths lead, and what a change of the tree leaves of it: paths along real directories,
the step from a directory to a name in it, and trees that share their directories and the
links that lead to directories. -/
namespace PosixTree

variable {γ : Type} {t u : Tree γ} {p q c : Path} {n : Name} {f : Bool}

/-! ### Along real directories -/

/-- A path of proper names on which every step is a real directory. -/
structure Plain (t : Tree γ) (p : Path) : Prop where
  dirs : ∀ q, q <+: p → DirAt t q
  names : ∀ n ∈ p, ValidName n

theorem WellFormed.plain (wf : WellFormed t) (h : DirAt t p) : Plain t p := by
  induction p using List.reverseRecOn with
  | nil => exact ⟨fun q hq => List.prefix_nil.mp hq ▸ h, by simp⟩
  | append_singleton p n ih =>
    obtain ⟨a, l, hdir⟩ := h
    have hne : t.get (p ++ [n]) ≠ none := by simp [hdir]
    have hp := ih (wf.parent p n hne)
    refine ⟨fun q hq => ?_, fun m hm => ?_⟩
    · rcases List.prefix_concat_iff.mp (by simpa using hq) with rfl | hq
      · exact ⟨a, l, by simpa using hdir⟩
      · exact hp.dirs q hq
    · rcases List.mem_append.mp hm with hm | hm
      · exact hp.names m hm
      · exact List.mem_singleton.mp hm ▸ wf.names p n hne

/-- Where nothing is, nothing is below. -/
theorem WellFormed.none_below (wf : WellFormed t) (h : t.get p = none) (hq : p <+: q) :
    t.get q = none := by
  obtain ⟨r, rfl⟩ := hq
  induction r using List.reverseRecOn with
  | nil => simpa using h
  | append_singleton r m ih =>
    by_contra hne
    rw [← List.append_assoc] at hne
    obtain ⟨a, l, hdir⟩ := wf.parent _ m hne
    rw [ih] at hdir
    cases hdir

theorem WellFormed.dirAt_of_prefix {s : Path} (wf : WellFormed t)
    (h : t.get q ≠ none) (hs : s <+: q) (hne : s ≠ q) : DirAt t s := by
  obtain ⟨r, rfl⟩ := hs
  obtain ⟨m, r, rfl⟩ := List.exists_cons_of_ne_nil (show r ≠ [] by simpa using hne)
  refine wf.parent s m fun hnone => h (wf.none_below hnone ?_)
  exact ⟨r, by simp⟩

theorem Plain.snoc (h : Plain t p) (hd : DirAt t (p ++ [n])) (hn : ValidName n) :
    Plain t (p ++ [n]) := by
  refine ⟨fun q hq => ?_, fun m hm => ?_⟩
  · rcases List.prefix_concat_iff.mp (by simpa using hq) with rfl | hq
    · simpa using hd
    · exact h.dirs q hq
  · rcases List.mem_append.mp hm with hm | hm
    · exact h.names m hm
    · exact List.mem_singleton.mp hm ▸ hn

/-! ### One component at a time -/

/-- What follows when a link is met with `k` links left. -/
def hop (t : Tree γ) (f : Bool) : ℕ → Path → List Name → Except Errno Path
  | 0, _, _ => .error .loop
  | k + 1, base, parts => resolve t f k base parts

theorem resolve_eq (t : Tree γ) (f : Bool) (k : ℕ) : resolve t f k = walkWith t f (hop t f k) := by
  cases k <;> rfl

variable {k j : ℕ} {cur base : Path} {rest : List Name} {a : Attrs} {l : Bool} {target : String}

@[simp] theorem resolve_nil : resolve t f k cur [] = .ok cur := by rw [resolve_eq]; rfl

theorem resolve_skip (hn : n = "" ∨ n = ".") :
    resolve t f k cur (n :: rest) = resolve t f k cur rest := by
  rw [resolve_eq, walkWith, if_pos hn]

theorem resolve_up : resolve t f k cur (".." :: rest) = resolve t f k cur.dropLast rest := by
  rw [resolve_eq, walkWith, if_neg (by decide), if_pos rfl]

theorem resolve_name (hn : ValidName n) : resolve t f k cur (n :: rest) =
    match t.get (cur ++ [n]) with
    | some (.dir _ _) => resolve t f k (cur ++ [n]) rest
    | some (.link _ target) =>
      if rest = [] ∧ f = false then .ok (cur ++ [n])
      else hop t f k (linkBase cur target) (linkParts target ++ rest)
    | some _ => if rest = [] then .ok (cur ++ [n]) else .error .notdir
    | none => if rest = [] then .ok (cur ++ [n]) else .error .noent := by
  obtain ⟨h1, h2, h3⟩ := hn
  rw [resolve_eq, walkWith, if_neg (by tauto)]
  refine (if_neg h3).trans ?_
  rcases t.get (cur ++ [n]) with _ | (_ | _ | _ | _) <;> rfl

theorem resolve_dir (hn : ValidName n) (hd : DirAt t (cur ++ [n])) :
    resolve t f k cur (n :: rest) = resolve t f k (cur ++ [n]) rest := by
  obtain ⟨a, l, hd⟩ := hd
  rw [resolve_name hn, hd]

theorem resolve_link (hn : ValidName n) (hl : t.get (cur ++ [n]) = some (.link a target))
    (hf : ¬(rest = [] ∧ f = false)) :
    resolve t f k cur (n :: rest) = hop t f k (linkBase cur target) (linkParts target ++ rest) := by
  rw [resolve_name hn, hl]
  exact if_neg hf

theorem resolve_last (hn : ValidName n) (hl : ∀ a target, t.get (cur ++ [n]) = some (.link a target) →
    f = false) : resolve t f k cur [n] = .ok (cur ++ [n]) := by
  rw [resolve_name hn]
  rcases h : t.get (cur ++ [n]) with _ | (_ | _ | ⟨a, target⟩ | _)
  case some.link => simp [hl a target h]
  all_goals simp

/-- A component is skipped, goes up, or is a proper name. -/
theorem name_cases (n : Name) : (n = "" ∨ n = ".") ∨ n = ".." ∨ ValidName n := by
  unfold ValidName
  tauto

/-- What stands under a name: a directory, a link, nothing, or something no path goes through. -/
theorem get_cases (t : Tree γ) (p : Path) : DirAt t p ∨ (∃ a target, t.get p = some (.link a target)) ∨
    ¬DirAt t p ∧ ∀ a target, t.get p ≠ some (.link a target) := by
  unfold DirAt
  rcases t.get p with _ | (_ | _ | _ | _) <;> simp

theorem resolve_stuck (hn : ValidName n) (hd : ¬DirAt t (cur ++ [n]))
    (hl : ∀ a target, t.get (cur ++ [n]) ≠ some (.link a target)) (hr : rest ≠ []) :
    ∃ e, resolve t f k cur (n :: rest) = .error e := by
  rw [resolve_name hn]
  rcases h : t.get (cur ++ [n]) with _ | (⟨a, l⟩ | _ | ⟨a, target⟩ | _)
  · exact ⟨.noent, if_neg hr⟩
  · exact absurd ⟨a, l, h⟩ hd
  · exact ⟨.notdir, if_neg hr⟩
  · exact absurd h (hl a target)
  · exact ⟨.notdir, if_neg hr⟩

theorem Plain.resolve_append (rest : List Name) :
    ∀ (p cur : Path), Plain t (cur ++ p) →
      resolve t f k cur (p ++ rest) = resolve t f k (cur ++ p) rest
  | [], cur, _ => by simp
  | n :: p, cur, h => by
    have hd : DirAt t (cur ++ [n]) := h.dirs _ ⟨p, by simp⟩
    rw [List.cons_append, resolve_dir (h.names n (by simp)) hd]
    have := Plain.resolve_append rest p (cur ++ [n]) (by simpa using h)
    simpa using this

theorem Plain.locate_append (h : Plain t p) (rest : List Name) :
    locate t f (p ++ rest) = resolve t f maxLinks p rest :=
  Plain.resolve_append rest p [] h

theorem Plain.locate (h : Plain t p) : locate t f p = .ok p := by
  have := h.locate_append (f := f) []
  rwa [List.append_nil, resolve_nil] at this

/-- A larger bound on links changes no successful resolution. -/
theorem resolve_more : ∀ {j k : ℕ}, j ≤ k → ∀ {comps : List Name} {cur : Path},
    resolve t f j cur comps = .ok q → resolve t f k cur comps = .ok q := by
  intro j
  induction j using Nat.strongRecOn with
  | ind j ihj =>
    intro k hj comps
    induction comps with
    | nil => exact fun h => by simpa using h
    | cons x comps ih =>
      intro cur h
      rcases name_cases x with hx | rfl | hx
      · rw [resolve_skip hx] at h ⊢
        exact ih h
      · rw [resolve_up] at h ⊢
        exact ih h
      rcases get_cases t (cur ++ [x]) with hd | ⟨a, target, hl⟩ | ⟨hd, hl⟩
      · rw [resolve_dir hx hd] at h ⊢
        exact ih h
      · by_cases hlast : comps = [] ∧ f = false
        · obtain ⟨rfl, rfl⟩ := hlast
          rw [resolve_last hx fun _ _ _ => rfl] at h ⊢
          exact h
        rw [resolve_link hx hl hlast] at h ⊢
        cases j with
        | zero => exact nomatch h
        | succ j =>
          obtain ⟨k, rfl⟩ := Nat.exists_eq_add_of_le' (Nat.one_le_of_lt hj)
          exact ihj j (Nat.lt_succ_self j) (Nat.le_of_succ_le_succ hj) h
      · by_cases hlast : comps = []
        · subst hlast
          rw [resolve_last hx fun a target h => absurd h (hl a target)] at h ⊢
          exact h
        · obtain ⟨e, he⟩ := resolve_stuck (f := f) (k := j) hx hd hl hlast
          exact nomatch he.symm.trans h

/-! ### A path in two parts -/

structure DirClosed (t : Tree γ) : Prop where
  root : DirAt t []
  parent : ∀ p n, DirAt t (p ++ [n]) → DirAt t p

theorem WellFormed.dirClosed (wf : WellFormed t) : DirClosed t :=
  ⟨wf.root, fun p n ⟨a, l, h⟩ => wf.parent p n (by simp [h])⟩

theorem DirClosed.dropLast (h : DirClosed t) (hp : DirAt t p) : DirAt t p.dropLast := by
  induction p using List.reverseRecOn with
  | nil => exact hp
  | append_singleton p n => simpa using h.parent p n hp

theorem DirClosed.of_append (h : DirClosed t) (hp : DirAt t (p ++ q)) : DirAt t p := by
  induction q using List.reverseRecOn with
  | nil => simpa using hp
  | append_singleton q m ih =>
    rw [← List.append_assoc] at hp
    exact ih (h.parent _ m hp)

theorem DirClosed.linkBase (h : DirClosed t) (hp : DirAt t p) (target : String) :
    DirAt t (linkBase p target) := by
  unfold PosixTree.linkBase
  split
  · exact h.root
  · exact hp

/-- Whether the first part of a path leads to a directory decides the whole path. -/
inductive Split (t : Tree γ) (f : Bool) (k : ℕ) (cur : Path) (xs ys : List Name) : Prop
  | through (c : Path) (j : ℕ) (hj : j ≤ k) (dir : DirAt t c)
      (first : resolve t true k cur xs = .ok c)
      (rest : resolve t f k cur (xs ++ ys) = resolve t f j c ys)
  | stuck (e : Errno) (whole : resolve t f k cur (xs ++ ys) = .error e)
      (first : ∀ c, resolve t true k cur xs = .ok c → ¬DirAt t c)

theorem Split.step {cur' : Path} {x : Name} {xs ys : List Name} (h : Split t f k cur' xs ys)
    (hx : ∀ f rest, resolve t f k cur (x :: rest) = resolve t f k cur' rest) :
    Split t f k cur (x :: xs) ys := by
  rcases h with ⟨c, j, hj, hd, h1, h2⟩ | ⟨e, h1, h2⟩
  · exact .through c j hj hd (by rwa [hx]) (by rwa [List.cons_append, hx])
  · exact .stuck e (by rwa [List.cons_append, hx]) (by rwa [hx])

theorem DirClosed.split (hc : DirClosed t) (f : Bool) {ys : List Name} (hys : ys ≠ []) (k : ℕ) :
    ∀ (xs : List Name) (cur : Path), DirAt t cur → Split t f k cur xs ys := by
  induction k using Nat.strongRecOn with
  | ind k ihk =>
    intro xs
    induction xs with
    | nil => exact fun cur hcur => .through cur k le_rfl hcur resolve_nil rfl
    | cons x xs ih =>
      intro cur hcur
      have hne : xs ++ ys ≠ [] := by simp [hys]
      rcases name_cases x with hx | rfl | hx
      · exact (ih cur hcur).step fun _ _ => resolve_skip hx
      · exact (ih _ (hc.dropLast hcur)).step fun _ _ => resolve_up
      rcases get_cases t (cur ++ [x]) with hd | ⟨a, target, hl⟩ | ⟨hd, hl⟩
      · exact (ih _ hd).step fun _ _ => resolve_dir hx hd
      · have hwhole : resolve t f k cur (x :: (xs ++ ys)) =
            hop t f k (PosixTree.linkBase cur target) (linkParts target ++ (xs ++ ys)) :=
          resolve_link hx hl (by simp [hne])
        have hfirst : resolve t true k cur (x :: xs) =
            hop t true k (PosixTree.linkBase cur target) (linkParts target ++ xs) :=
          resolve_link hx hl (by simp)
        cases k with
        | zero => exact .stuck .loop hwhole (by rw [hfirst]; exact fun c h => nomatch h)
        | succ k =>
          rw [← List.append_assoc] at hwhole
          rcases ihk k (Nat.lt_succ_self k) (linkParts target ++ xs) (PosixTree.linkBase cur target)
            (hc.linkBase hcur target) with ⟨c, j, hj, hd, h1, h2⟩ | ⟨e, h1, h2⟩
          · exact .through c j (hj.trans (Nat.le_succ k)) hd (hfirst.trans h1) (hwhole.trans h2)
          · exact .stuck e (hwhole.trans h1) (by rw [hfirst]; exact h2)
      · obtain ⟨e, he⟩ := resolve_stuck (f := f) (k := k) hx hd hl hne
        refine .stuck e he fun c hfirst hdc => ?_
        by_cases hxs : xs = []
        · subst hxs
          rw [resolve_last hx fun a target h => absurd h (hl a target)] at hfirst
          exact hd (Except.ok.inj hfirst ▸ hdc)
        · obtain ⟨e, he⟩ := resolve_stuck (f := true) (k := k) hx hd hl hxs
          rw [he] at hfirst
          exact nomatch hfirst

/-! ### From a directory to a name in it -/

theorem DirClosed.locate_snoc (hc : DirClosed t) (hp : locate t true p = .ok c) (hd : DirAt t c)
    (hn : ValidName n) (hl : ∀ a target, t.get (c ++ [n]) = some (.link a target) → f = false) :
    PosixTree.locate t f (p ++ [n]) = .ok (c ++ [n]) := by
  rcases hc.split f (List.cons_ne_nil n []) maxLinks p [] hc.root with
    ⟨c', j, -, -, h1, h2⟩ | ⟨e, -, h2⟩
  · obtain rfl : c' = c := Except.ok.inj (h1.symm.trans hp)
    exact h2.trans (resolve_last hn hl)
  · exact absurd hd (h2 c hp)

theorem DirClosed.of_locate_snoc (hc : DirClosed t) (hn : ValidName n)
    (h : PosixTree.locate t false (p ++ [n]) = .ok q) :
    ∃ c, PosixTree.locate t true p = .ok c ∧ DirAt t c ∧ q = c ++ [n] := by
  rcases hc.split false (List.cons_ne_nil n []) maxLinks p [] hc.root with
    ⟨c, j, -, hd, h1, h2⟩ | ⟨e, h1, -⟩
  · rw [resolve_last hn fun _ _ _ => rfl] at h2
    exact ⟨c, h1, hd, Except.ok.inj (h.symm.trans h2)⟩
  · exact nomatch h.symm.trans h1

theorem dirAt_iff : DirAt t p ↔ ∃ node, t.get p = some node ∧ node.isDir = true := by
  constructor
  · rintro ⟨a, l, h⟩
    exact ⟨_, h, rfl⟩
  · rintro ⟨_ | _ | _ | _, h, hd⟩
    · exact ⟨_, _, h⟩
    all_goals exact nomatch hd

theorem isdir_iff : isdir t p = true ↔ ∃ c, locate t true p = .ok c ∧ DirAt t c := by
  unfold isdir stat nodeAt
  cases hp : locate t true p with
  | error e => simp [bind, Except.bind]
  | ok c => cases hc : t.get c <;> simp [bind, Except.bind, hc, dirAt_iff]

/-! ### Trees that lead to the same directories -/

/-- A way to a directory is kept where directories stay and so do the links on the way. -/
theorem resolve_kept (hc : DirClosed t) (dirs : ∀ q, DirAt t q → DirAt u q)
    (links : ∀ {k cur n a target rest}, k < maxLinks → DirAt t cur → ValidName n →
      t.get (cur ++ [n]) = some (.link a target) →
      resolve t true k (linkBase cur target) (linkParts target ++ rest) = .ok c →
      u.get (cur ++ [n]) = some (.link a target)) (hd : DirAt t c) :
    ∀ {k : ℕ}, k ≤ maxLinks → ∀ {comps : List Name} {cur : Path}, DirAt t cur →
      resolve t true k cur comps = .ok c → resolve u true k cur comps = .ok c := by
  intro k
  induction k using Nat.strongRecOn with
  | ind k ihk =>
    intro hk comps
    induction comps with
    | nil => exact fun _ h => by simpa using h
    | cons x comps ih =>
      intro cur hcur h
      rcases name_cases x with hx | rfl | hx
      · rw [resolve_skip hx] at h ⊢
        exact ih hcur h
      · rw [resolve_up] at h ⊢
        exact ih (hc.dropLast hcur) h
      rcases get_cases t (cur ++ [x]) with hdir | ⟨a, target, hl⟩ | ⟨hnd, hl⟩
      · rw [resolve_dir hx hdir] at h
        rw [resolve_dir hx (dirs _ hdir)]
        exact ih hdir h
      · rw [resolve_link hx hl (by simp)] at h
        cases k with
        | zero => exact nomatch h
        | succ k =>
          rw [resolve_link hx (links (Nat.lt_of_succ_le hk) hcur hx hl h) (by simp)]
          exact ihk k (Nat.lt_succ_self k) (Nat.le_of_succ_le hk) (hc.linkBase hcur target) h
      · by_cases hlast : comps = []
        · subst hlast
          rw [resolve_last hx fun a target h => absurd h (hl a target)] at h
          exact absurd (Except.ok.inj h ▸ hd) hnd
        · obtain ⟨e, he⟩ := resolve_stuck (f := true) (k := k) hx hnd hl hlast
          exact nomatch he.symm.trans h

/-- A link on the way to a directory leads to a directory itself. -/
theorem WellFormed.isdir_of_hop (wf : WellFormed t) (hcur : DirAt t cur) (hn : ValidName n)
    (hl : t.get (cur ++ [n]) = some (.link a target)) (hk : k < maxLinks)
    (h : resolve t true k (linkBase cur target) (linkParts target ++ rest) = .ok c)
    (hd : DirAt t c) : isdir t (cur ++ [n]) = true := by
  have hhop : ∃ c', resolve t true k (linkBase cur target) (linkParts target) = .ok c' ∧
      DirAt t c' := by
    by_cases hr : rest = []
    · subst hr
      exact ⟨c, by simpa using h, hd⟩
    · rcases wf.dirClosed.split true hr k (linkParts target) (linkBase cur target)
        (wf.dirClosed.linkBase hcur target) with ⟨c', j, -, hd', h1, -⟩ | ⟨e, h1, -⟩
      · exact ⟨c', h1, hd'⟩
      · exact nomatch h.symm.trans h1
  obtain ⟨c', hc', hd'⟩ := hhop
  refine isdir_iff.mpr ⟨c', ?_, hd'⟩
  rw [(wf.plain hcur).locate_append, resolve_link hn hl (by simp), List.append_nil]
  obtain ⟨m, hm⟩ := Nat.exists_eq_add_of_le' (Nat.one_le_of_lt hk)
  rw [hm] at hk ⊢
  exact resolve_more (Nat.le_of_lt_succ hk) hc'

/-- `p` leads to the directory `c`. -/
structure Leads (t : Tree γ) (p c : Path) : Prop where
  locate : locate t true p = .ok c
  dir : DirAt t c

theorem Leads.isdir (h : Leads t p c) : isdir t p = true := isdir_iff.mpr ⟨c, h.locate, h.dir⟩

theorem Leads.of_isdir (h : PosixTree.isdir t p = true) : ∃ c, Leads t p c := by
  obtain ⟨c, hl, hd⟩ := isdir_iff.mp h
  exact ⟨c, hl, hd⟩

theorem Leads.unique {c' : Path} (h : Leads t p c) (h' : Leads t p c') : c = c' :=
  Except.ok.inj (h.locate.symm.trans h'.locate)

theorem Plain.leads (h : Plain t p) : Leads t p p := ⟨h.locate, h.dirs p (List.prefix_refl p)⟩

/-- Every directory of `t` is one in `u`, and every link of `t` that leads to a directory stands
unchanged in `u`. -/
structure Skeleton (t u : Tree γ) : Prop where
  dirs : ∀ q, DirAt t q → DirAt u q
  links : ∀ q a target, t.get q = some (.link a target) → isdir t q = true →
    u.get q = some (.link a target)

theorem Leads.skeleton (h : Leads t p c) (wf : WellFormed t) (hs : Skeleton t u) : Leads u p c :=
  ⟨resolve_kept wf.dirClosed hs.dirs (fun hk hcur hn hl hr =>
    hs.links _ _ _ hl (wf.isdir_of_hop hcur hn hl hk hr h.dir)) h.dir le_rfl wf.root h.locate,
    hs.dirs c h.dir⟩

/-- What is there stays; more may stand beside it. -/
def Extends (t u : Tree γ) : Prop := ∀ q, t.get q ≠ none → u.get q = t.get q

theorem Extends.dirAt (he : Extends t u) (h : DirAt t p) : DirAt u p := by
  obtain ⟨a, l, h⟩ := h
  exact ⟨a, l, (he p (by simp [h])).trans h⟩

theorem Leads.extend (h : Leads t p c) (hc : DirClosed t) (he : Extends t u) : Leads u p c :=
  ⟨resolve_kept hc (fun _ => he.dirAt) (fun _ _ _ hl _ => (he _ (by simp [hl])).trans hl) h.dir
    le_rfl hc.root h.locate, he.dirAt h.dir⟩

end PosixTree
