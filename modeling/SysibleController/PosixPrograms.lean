import SysibleController.AtomicSteps
import SysibleController.SystemCalls

/-! Python's `os.makedirs`, `shutil.copyfile` and `shutil.copy2` as programs of system calls. -/
namespace PosixTree

open AtomicSteps Prog EarlyExit

abbrev FsM (γ : Type) := Prog (Tree γ) Errno

variable {γ : Type} (host : Host)

def ignoring (err : Errno) (m : FsM γ Unit) : FsM γ Unit := do
  match ← attempt m with
  | .ok () => pure ()
  | .error e => if e = err then pure () else raise e

def mkdirUnlessDir (p : Path) : FsM γ Unit := do
  match ← attempt (step (mkdir host p)) with
  | .ok () => pure ()
  | .error e => forbid (!isdir · p) e

/-- `os.makedirs(path, exist_ok=True)`, on the reversed path. -/
def makedirsRev : List Name → FsM γ Unit
  | [] => pure ()
  | name :: rev => do
    if !(← ask (pathExists · rev.reverse)) then ignoring .exist (makedirsRev rev)
    mkdirUnlessDir host (rev.reverse ++ [name])

def makedirs (p : Path) : FsM γ Unit := makedirsRev host p.reverse

def sameFile (t : Tree γ) (p q : Path) : Bool :=
  match locate t true p, locate t true q with
  | .ok a, .ok b => decide (a = b) && (t.get a).isSome
  | _, _ => false

def isFifo (t : Tree γ) (p : Path) : Bool :=
  match stat t p with
  | .ok (.special _ .fifo) => true
  | _ => false

/-- `shutil.copyfile`, which follows links at both ends. -/
def copyfile (src dst : Path) : FsM γ Unit := do
  forbid (sameFile · src dst) .sameFile
  forbid (fun t => isFifo t src || isFifo t dst) .specialFile
  let c ← query (readFile · src)
  step (writeFile host dst c)

/-- `shutil.copy2`; of what `copystat` carries over, only the mode is modelled. -/
def copy2 (src dst : Path) : FsM γ Unit := do
  let dst := if ← ask (isdir · dst) then dst ++ [src.getLastD ""] else dst
  copyfile host src dst
  let node ← query (stat · src)
  step (chmod dst node.attrs.mode)

variable {host} {t u : Tree γ} {p d c : Path} {n : Name}
  {Q : Unit → Tree γ → Prop} {E : Errno → Tree γ → Prop}

theorem sat_mkdirUnlessDir : Sat (mkdirUnlessDir host p) t Q E ↔
    Ends (Q ()) (fun e => if isdir t p = true then Q () t else E e t) (mkdir host p t) := by
  rw [mkdirUnlessDir, sat_bind, sat_attempt, sat_step]
  cases mkdir host p t with
  | ok u => exact Iff.rfl
  | error e =>
    rw [ends_error, ends_error, sat_forbid]
    cases isdir t p <;> simp

theorem sat_ignoring {err : Errno} {m : FsM γ Unit}
    (h : Sat m t Q fun e u => if e = err then Q () u else E e u) : Sat (ignoring err m) t Q E := by
  rw [ignoring, sat_bind, sat_attempt]
  refine h.mono (fun _ _ h => h) fun e u h => ?_
  simp only
  split_ifs at h ⊢ <;> exact h

theorem sat_makedirs_snoc : Sat (makedirs host (d ++ [n])) t Q E ↔
    if pathExists t d = true then Sat (mkdirUnlessDir host (d ++ [n])) t Q E
    else Sat (ignoring .exist (makedirs host d)) t
      (fun _ u => Sat (mkdirUnlessDir host (d ++ [n])) u Q E) E := by
  rw [makedirs, List.reverse_append, List.reverse_singleton, List.singleton_append, makedirsRev,
    sat_bind, sat_ask]
  simp only [List.reverse_reverse]
  cases pathExists t d with
  | true => exact Iff.rfl
  | false => exact sat_bind _

theorem pathExists_parent (hc : DirClosed t) (h : pathExists t (d ++ [n]) = true) :
    isdir t d = true := by
  unfold pathExists stat nodeAt at h
  rcases hc.split true (List.cons_ne_nil n []) maxLinks d [] hc.root with
    ⟨c, j, -, hd, h1, -⟩ | ⟨e, h1, -⟩
  · exact isdir_iff.mpr ⟨c, h1, hd⟩
  · have : locate t true (d ++ [n]) = .error e := h1
    rw [this] at h
    exact nomatch h

theorem pathExists_of_isdir (h : isdir t p = true) : pathExists t p = true := by
  obtain ⟨c, hl, a, l, hd⟩ := isdir_iff.mp h
  unfold pathExists stat nodeAt
  simp [hl, bind, Except.bind, hd, Except.isOk, Except.toBool]

/-- What a single component leads to, followed or not, where nothing stands. -/
theorem resolve_one {j : ℕ} {q : Path} (h : resolve t false j c [n] = .ok q)
    (hq : t.get q = none) (k : ℕ) : resolve t true k c [n] = .ok q := by
  rcases name_cases n with hn | rfl | hn
  · rw [resolve_skip hn, resolve_nil] at h ⊢
    exact h
  · rw [resolve_up, resolve_nil] at h ⊢
    exact h
  · rw [resolve_last hn fun _ _ _ => rfl] at h
    obtain rfl : c ++ [n] = q := Except.ok.inj h
    exact resolve_last hn fun a target hl => nomatch hl.symm.trans hq

/-- `mkdir` of what leads to a directory fails, whatever its name is. -/
theorem mkdir_of_isdir (hc : DirClosed t) (h : isdir t (d ++ [n]) = true) :
    ∃ e, mkdir host (d ++ [n]) t = .error e := by
  obtain ⟨c', hl, hd'⟩ := isdir_iff.mp h
  unfold mkdir
  cases hq : locate t false (d ++ [n]) with
  | error e => exact ⟨e, rfl⟩
  | ok q =>
    cases hnode : t.get q with
    | some node => exact ⟨.exist, by simp [bind, Except.bind, hnode]⟩
    | none =>
      rcases hc.split true (List.cons_ne_nil n []) maxLinks d [] hc.root with
        ⟨c, j, -, hd, h1, h2⟩ | ⟨e, h1, -⟩
      · rcases hc.split false (List.cons_ne_nil n []) maxLinks d [] hc.root with
          ⟨b, i, -, -, h3, h4⟩ | ⟨e, h3, -⟩
        · obtain rfl : b = c := Except.ok.inj (h3.symm.trans h1)
          have hone := resolve_one (h4.symm.trans hq) hnode j
          obtain rfl : q = c' := Except.ok.inj ((h2.trans hone).symm.trans hl)
          obtain ⟨a, l, hdir⟩ := hd'
          exact nomatch hdir.symm.trans hnode
        · exact nomatch h3.symm.trans hq
      · exact nomatch h1.symm.trans hl

theorem sat_makedirs_of_isdir (hc : DirClosed t) (h : isdir t p = true) (hQ : Q () t) :
    Sat (makedirs host p) t Q E := by
  induction p using List.reverseRecOn with
  | nil => exact hQ
  | append_singleton d n =>
    obtain ⟨e, he⟩ : ∃ e, mkdir host (d ++ [n]) t = .error e := mkdir_of_isdir hc h
    have hp := pathExists_of_isdir (pathExists_parent hc (pathExists_of_isdir h))
    rw [sat_makedirs_snoc, if_pos hp, sat_mkdirUnlessDir, he]
    exact (if_pos h).mpr hQ

/-- Nothing but directories stands on the way `q` below `c`. -/
def Clear (t : Tree γ) (c q : Path) : Prop :=
  ∀ s, s <+: q → DirAt t (c ++ s) ∨ t.get (c ++ s) = none

theorem Clear.init {q : Path} (h : Clear t c (q ++ [n])) : Clear t c q :=
  fun s hs => h s (hs.trans (List.prefix_append q [n]))

theorem Leads.append (hc : DirClosed t) (hp : Leads t p c) {q : Path} (hn : ∀ n ∈ q, ValidName n)
    (h : DirAt t (c ++ q)) : Leads t (p ++ q) (c ++ q) := by
  induction q using List.reverseRecOn with
  | nil => simpa using hp
  | append_singleton s n ih =>
    rw [← List.append_assoc] at h ⊢
    rw [← List.append_assoc]
    exact leads_child hc (ih (fun m hm => hn m (by simp [hm])) (hc.parent _ n h)) (hn n (by simp)) h

/-- A directory is reached by its own path. -/
theorem DirClosed.leads (hc : DirClosed t) {q : Path} (hn : ∀ n ∈ q, ValidName n)
    (h : DirAt t q) : Leads t q q := by
  have hroot : Leads t [] [] := ⟨resolve_nil, hc.root⟩
  simpa using hroot.append hc hn (by simpa using h)

theorem leads_of_pathExists (hc : DirClosed t) (hp : Leads t p c) {q : Path}
    (hn : ∀ n ∈ q, ValidName n) (hq : Clear t c q) (h : pathExists t (p ++ q) = true) :
    Leads t (p ++ q) (c ++ q) := by
  induction q using List.reverseRecOn with
  | nil => simpa using hp
  | append_singleton s n ih =>
    rw [← List.append_assoc] at h ⊢
    have hs := ih (fun m hm => hn m (by simp [hm])) hq.init
      (pathExists_of_isdir (pathExists_parent hc h))
    rcases hq _ (List.prefix_refl _) with hdir | hnone
    · rw [← List.append_assoc] at hdir ⊢
      exact leads_child hc hs (hn n (by simp)) hdir
    · rw [← List.append_assoc] at hnone
      have hl : ∀ a target, t.get (c ++ s ++ [n]) ≠ some (.link a target) :=
        fun a target hl => nomatch hnone.symm.trans hl
      rw [pathExists_child hc hs (hn n (by simp)) hl, hnone] at h
      exact nomatch h

/-- The directories `makedirs` makes below `c` on the way `q`, each as `mkdir` makes it. -/
structure Grown (host : Host) (t u : Tree γ) (c q : Path) : Prop where
  kept : ∀ r, t.get r ≠ none ∨ (∀ s, s <+: q → r ≠ c ++ s) → u.get r = t.get r
  made : ∀ s n, s ++ [n] <+: q → t.get (c ++ (s ++ [n])) = none →
    u.get (c ++ (s ++ [n])) = some (.dir (newDir host (attrsOf u (c ++ s))) true)

variable {q : Path}

theorem Grown.extends (h : Grown host t u c q) : Extends t u := fun r hr => h.kept r (.inl hr)

theorem Grown.dirAt (h : Grown host t u c q) (hq : Clear t c q) (hd : DirAt t c) {s : Path}
    (hs : s <+: q) : DirAt u (c ++ s) := by
  rcases hq s hs with hdir | hnone
  · exact h.extends.dirAt hdir
  · rcases List.eq_nil_or_concat' s with rfl | ⟨s, n, rfl⟩
    · obtain ⟨a, l, hd⟩ := hd
      rw [List.append_nil, hd] at hnone
      exact nomatch hnone
    · exact ⟨_, _, h.made s n hs hnone⟩

theorem Grown.dirClosed (h : Grown host t u c q) (hq : Clear t c q) (hd : DirAt t c)
    (hc : DirClosed t) : DirClosed u := by
  refine ⟨h.extends.dirAt hc.root, fun p n hdir => ?_⟩
  by_cases hnew : t.get (p ++ [n]) ≠ none
  · obtain ⟨a, l, hdir⟩ := hdir
    exact h.extends.dirAt (hc.parent p n ⟨a, l, (h.kept _ (.inl hnew)).symm.trans hdir⟩)
  by_cases hway : ∀ s, s <+: q → p ++ [n] ≠ c ++ s
  · obtain ⟨a, l, hdir⟩ := hdir
    exact absurd (by simp [← h.kept _ (.inr hway), hdir]) hnew
  · push Not at hnew hway
    obtain ⟨s, hs, heq⟩ := hway
    rcases List.eq_nil_or_concat' s with rfl | ⟨s, m, rfl⟩
    · obtain ⟨a, l, hd⟩ := hd
      rw [heq, List.append_nil, hd] at hnew
      exact nomatch hnew
    · rw [← List.append_assoc] at heq
      obtain ⟨rfl, -⟩ := List.append_inj' heq rfl
      exact h.dirAt hq hd ((List.prefix_append s [m]).trans hs)

theorem Grown.leads (h : Grown host t u c q) (hq : Clear t c q) (hc : DirClosed t)
    (hp : Leads t p c) (hn : ∀ n ∈ q, ValidName n) : Leads u (p ++ q) (c ++ q) :=
  (hp.extend hc h.extends).append (h.dirClosed hq hp.dir hc) hn
    (h.dirAt hq hp.dir (List.prefix_refl q))

theorem append_snoc_ne {s r : Path} (hr : r <+: s) : c ++ r ≠ c ++ (s ++ [n]) := fun h => by
  have := congrArg List.length h
  have := hr.length_le
  simp only [List.length_append, List.length_singleton] at *
  omega

/-- One more directory, made after those above it. -/
theorem Grown.snoc {s : Path} (h : Grown host t u c s)
    (hnone : t.get (c ++ (s ++ [n])) = none) : Grown host t
      (u.put (c ++ (s ++ [n])) (.dir (newDir host (attrsOf u (c ++ s))) true)) c (s ++ [n]) := by
  refine ⟨fun r hr => ?_, fun r m hr hm => ?_⟩
  · rw [Tree.get_put, if_neg]
    · exact h.kept r (hr.imp_right fun hr r' hr' => hr r' (hr'.trans (List.prefix_append s [n])))
    · rintro rfl
      exact hr.elim (fun hr => hr hnone) fun hr => hr _ (List.prefix_refl _) rfl
  · rcases List.prefix_concat_iff.mp (by simpa using hr) with heq | hr'
    · obtain ⟨rfl, hm'⟩ := List.append_inj' heq rfl
      obtain rfl : m = n := by simpa using hm'
      rw [Tree.get_put, if_pos rfl, attrsOf, attrsOf, Tree.get_put,
        if_neg (append_snoc_ne (List.prefix_refl r))]
    · rw [Tree.get_put, if_neg (append_snoc_ne hr'), h.made r m hr' hm, attrsOf, attrsOf,
        Tree.get_put, if_neg (append_snoc_ne ((List.prefix_append r [m]).trans hr'))]

theorem Grown.refl (host : Host) (h : DirAt t (c ++ q)) (hc : DirClosed t) :
    Grown host t t c q := by
  refine ⟨fun _ _ => rfl, fun s n hs hnone => ?_⟩
  obtain ⟨r, rfl⟩ := hs
  have hdir : DirAt t (c ++ (s ++ [n])) := by
    exact hc.of_append (q := r) (by simpa using h)
  obtain ⟨a, l, hdir⟩ := hdir
  exact nomatch hnone.symm.trans hdir

/-- `makedirs` on a way clear of anything but directories. -/
theorem sat_makedirs (hc : DirClosed t) (hp : Leads t p c) (hn : ∀ n ∈ q, ValidName n)
    (hq : Clear t c q) (hQ : ∀ u, Grown host t u c q → Q () u) :
    Sat (makedirs host (p ++ q)) t Q E := by
  induction q using List.reverseRecOn generalizing Q E with
  | nil =>
    rw [List.append_nil]
    exact sat_makedirs_of_isdir hc hp.isdir (hQ t (.refl host (by simpa using hp.dir) hc))
  | append_singleton s n ih =>
    have hns : ∀ m ∈ s, ValidName m := fun m hm => hn m (by simp [hm])
    have hnn : ValidName n := hn n (by simp)
    rw [← List.append_assoc, sat_makedirs_snoc]
    split_ifs with hex
    · have hs := leads_of_pathExists hc hp hns hq.init hex
      rw [sat_mkdirUnlessDir]
      rcases hq _ (List.prefix_refl _) with hdir | hnone
      · have hdir' := hdir
        rw [← List.append_assoc] at hdir'
        obtain ⟨a, l, hget⟩ := hdir'
        rw [mkdir_exists hc hs hnn hget]
        exact (if_pos (leads_child hc hs hnn ⟨a, l, hget⟩).isdir).mpr (hQ t (.refl host hdir hc))
      · have hnone' := hnone
        rw [← List.append_assoc] at hnone'
        rw [mkdir_child hc hs hnn hnone', ends_ok, List.append_assoc]
        exact hQ _ ((Grown.refl host hs.dir hc).snoc hnone)
    · refine sat_ignoring (ih hns hq.init fun u hu => ?_)
      have hsu := hu.leads hq.init hc hp hns
      have hcu := hu.dirClosed hq.init hp.dir hc
      have hnone : t.get (c ++ (s ++ [n])) = none := by
        refine (hq _ (List.prefix_refl _)).resolve_left fun hdir => hex ?_
        rw [← List.append_assoc] at hdir
        exact pathExists_of_isdir (hp.append hc hns (hc.parent _ n hdir)).isdir
      have hnone' : u.get (c ++ s ++ [n]) = none := by
        rw [List.append_assoc, hu.kept _ (.inr fun r hr h => append_snoc_ne hr h.symm), hnone]
      rw [sat_mkdirUnlessDir, mkdir_child hcu hsu hnn hnone', ends_ok, List.append_assoc]
      exact hQ _ (hu.snoc hnone)

/-- A path on which no link stands leads to a directory only if that is what stands there. -/
theorem dirAt_of_isdir (hc : DirClosed t) (hn : ∀ m ∈ q, ValidName m)
    (hl : ∀ s, s <+: q → ∀ a target, t.get s ≠ some (.link a target)) (h : isdir t q = true) :
    DirAt t q := by
  induction q using List.reverseRecOn with
  | nil => exact hc.root
  | append_singleton d n ih =>
    have hd := ih (fun m hm => hn m (by simp [hm]))
      (fun s hs => hl s (hs.trans (List.prefix_append d [n])))
      (pathExists_parent hc (pathExists_of_isdir h))
    have hlead := hc.leads (fun m hm => hn m (by simp [hm])) hd
    obtain ⟨b, hb⟩ := Leads.of_isdir h
    have hloc := locate_child_follow hc hlead (hn n (by simp)) (hl _ (List.prefix_refl _))
    rw [hb.locate] at hloc
    exact Except.ok.inj hloc ▸ hb.dir

/-- Directories have been added, and nothing else has changed. -/
structure Deepens (t u : Tree γ) : Prop where
  kept : Extends t u
  new : ∀ r, t.get r = none → u.get r = none ∨ DirAt u r
  closed : DirClosed u

theorem mkdir_ok (hc : DirClosed t) (hn : ValidName n) (h : mkdir host (d ++ [n]) t = .ok u) :
    Deepens t u ∧ isdir u (d ++ [n]) = true := by
  unfold mkdir at h
  cases hloc : locate t false (d ++ [n]) with
  | error e =>
    rw [hloc] at h
    cases h
  | ok q =>
    obtain ⟨c, hd, hdir, rfl⟩ := hc.of_locate_snoc hn hloc
    simp only [hloc, bind, Except.bind] at h
    cases hget : t.get (c ++ [n]) with
    | some node =>
      rw [hget] at h
      cases h
    | none =>
      rw [hget] at h
      obtain rfl := Except.ok.inj h
      have hext : Extends t (t.put (c ++ [n])
          (.dir (newDir host (attrsOf t (c ++ [n]).dropLast)) true)) := by
        intro r hr
        rw [Tree.get_put, if_neg]
        rintro rfl
        exact hr hget
      have hnew : DirAt (t.put (c ++ [n])
          (.dir (newDir host (attrsOf t (c ++ [n]).dropLast)) true)) (c ++ [n]) :=
        ⟨_, true, by rw [Tree.get_put, if_pos rfl]⟩
      have hclosed : DirClosed (t.put (c ++ [n])
          (.dir (newDir host (attrsOf t (c ++ [n]).dropLast)) true)) := by
        refine ⟨hext.dirAt hc.root, ?_⟩
        intro p m hm
        by_cases hp : p ++ [m] = c ++ [n]
        · obtain ⟨rfl, -⟩ := List.append_inj' hp rfl
          exact hext.dirAt hdir
        · obtain ⟨a, l, hm⟩ := hm
          rw [Tree.get_put, if_neg hp] at hm
          exact hext.dirAt (hc.parent p m ⟨a, l, hm⟩)
      have hlead : Leads t d c := ⟨hd, hdir⟩
      refine ⟨⟨hext, ?_, hclosed⟩,
        (leads_child hclosed (hlead.extend hc hext) hn hnew).isdir⟩
      intro r hr
      by_cases hrc : r = c ++ [n]
      · exact Or.inr (hrc ▸ hnew)
      · exact Or.inl (by rw [Tree.get_put, if_neg hrc, hr])

theorem Deepens.refl (hc : DirClosed t) : Deepens t t := ⟨fun _ _ => rfl, fun _ => Or.inl, hc⟩

theorem Deepens.trans {v : Tree γ} (h : Deepens t u) (k : Deepens u v) : Deepens t v := by
  refine ⟨?_, ?_, k.closed⟩
  · intro r hr
    have hu := h.kept r hr
    rw [k.kept r (by rw [hu]; exact hr), hu]
  · intro r hr
    rcases h.new r hr with hnone | hdir
    · exact k.new r hnone
    · exact Or.inr (k.kept.dirAt hdir)

/-- Whatever is in the way, `makedirs` only adds directories, and a normal end is a directory. -/
theorem sat_makedirs_deepens (hc : DirClosed t) (hn : ∀ m ∈ q, ValidName m) :
    Sat (makedirs host q) t (fun _ u => Deepens t u ∧ isdir u q = true)
      fun _ u => Deepens t u := by
  induction q using List.reverseRecOn with
  | nil => exact ⟨.refl hc, isdir_iff.mpr ⟨[], resolve_nil, hc.root⟩⟩
  | append_singleton d n ih =>
    have hlast : ∀ u, Deepens t u → Sat (mkdirUnlessDir host (d ++ [n])) u
        (fun _ v => Deepens t v ∧ isdir v (d ++ [n]) = true) fun _ v => Deepens t v := by
      intro u hu
      rw [sat_mkdirUnlessDir]
      cases hm : mkdir host (d ++ [n]) u with
      | ok v =>
        obtain ⟨hv, hdir⟩ := mkdir_ok hu.closed (hn n (by simp)) hm
        exact ⟨hu.trans hv, hdir⟩
      | error e =>
        rw [ends_error]
        split_ifs with hdir
        · exact ⟨hu, hdir⟩
        · exact hu
    rw [sat_makedirs_snoc]
    split_ifs
    · exact hlast t (.refl hc)
    · refine sat_ignoring ((ih fun m hm => hn m (by simp [hm])).mono ?_ ?_)
      · exact fun _ u hu => hlast u hu.1
      · intro e u hu
        split_ifs
        · exact hlast u hu
        · exact hu

/-- On a path where no link stands, a normal end of `makedirs` has found it clear. -/
theorem sat_makedirs_literal (hc : DirClosed t) (hn : ∀ m ∈ q, ValidName m)
    (hl : ∀ s, s <+: q → ∀ a target, t.get s ≠ some (.link a target))
    (hQ : ∀ u, Clear t [] q → Grown host t u [] q → Q () u) :
    Sat (makedirs host q) t Q fun _ _ => True := by
  by_cases hclear : Clear t [] q
  · have := @sat_makedirs γ host t [] [] Q (fun _ _ => True) q hc ⟨resolve_nil, hc.root⟩ hn hclear
      fun u hu => hQ u hclear hu
    simpa using this
  · refine (sat_makedirs_deepens hc hn).mono ?_ fun _ _ _ => trivial
    rintro - u ⟨hu, hdir⟩
    refine absurd ?_ hclear
    have hul : ∀ s, s <+: q → ∀ a target, u.get s ≠ some (.link a target) := by
      intro s hs a target hget
      cases ht : t.get s with
      | some node =>
        rw [hu.kept s (by simp [ht]), ht] at hget
        exact hl s hs a target (ht.trans hget)
      | none =>
        rcases hu.new s ht with hnone | ⟨b, l, hdir⟩
        · rw [hnone] at hget
          cases hget
        · rw [hdir] at hget
          cases hget
    intro s hs
    rw [List.nil_append]
    obtain ⟨r, rfl⟩ := hs
    obtain ⟨a, l, hs⟩ := hu.closed.of_append (dirAt_of_isdir hu.closed hn hul hdir)
    cases ht : t.get s with
    | none => exact Or.inr rfl
    | some node =>
      rw [hu.kept s (by simp [ht]), ht] at hs
      exact Or.inl ⟨a, l, ht.trans hs⟩

/-- `p` leads to a file that can be read. -/
structure Holds (t : Tree γ) (p s : Path) (body : γ) : Prop where
  locate : locate t true p = .ok s
  file : ∃ a, t.get s = some (.file a body true)

theorem holds_child {a : Attrs} {body : γ} (hc : DirClosed t) (hd : Leads t d c) (hn : ValidName n)
    (hget : t.get (c ++ [n]) = some (.file a body true)) : Holds t (d ++ [n]) (c ++ [n]) body := by
  refine ⟨locate_child_follow hc hd hn ?_, a, hget⟩
  intro b target hl
  rw [hget] at hl
  cases hl

theorem Holds.pathExists {s : Path} {body : γ} (h : Holds t p s body) : pathExists t p = true := by
  obtain ⟨a, ha⟩ := h.file
  unfold PosixTree.pathExists PosixTree.stat nodeAt
  simp [h.locate, bind, Except.bind, ha, Except.isOk, Except.toBool]

theorem Holds.stat {s : Path} {body : γ} (h : Holds t p s body) :
    ∃ a, stat t p = .ok (.file a body true) := by
  obtain ⟨a, ha⟩ := h.file
  refine ⟨a, ?_⟩
  unfold PosixTree.stat nodeAt
  simp [h.locate, bind, Except.bind, ha]

theorem Holds.readFile {s : Path} {body : γ} (h : Holds t p s body) :
    readFile t p = .ok body := by
  obtain ⟨a, ha⟩ := h.stat
  unfold PosixTree.readFile
  simp [ha, bind, Except.bind]

/-- `copyfile` onto a name that is no link is a write, except onto a fifo. -/
theorem sat_copyfile {src s : Path} {body : γ} (hsrc : Holds t src s body) (hc : DirClosed t)
    (hd : Leads t d c) (hn : ValidName n) (hl : ∀ a target, t.get (c ++ [n]) ≠ some (.link a target))
    (hs : s ≠ c ++ [n]) : Sat (copyfile host src (d ++ [n])) t Q E ↔
      if isFifo t (d ++ [n]) = true then E .specialFile t
      else Ends (Q ()) (fun e => E e t) (writeFile host (d ++ [n]) body t) := by
  obtain ⟨a, ha⟩ := hsrc.stat
  have hsame : sameFile t src (d ++ [n]) = false := by
    unfold sameFile
    simp [hsrc.locate, locate_child_follow hc hd hn hl, hs]
  have hfifo : isFifo t src = false := by
    unfold isFifo
    simp [ha]
  rw [copyfile, sat_bind, sat_forbid, hsame, if_neg Bool.false_ne_true, sat_bind, sat_forbid, hfifo,
    Bool.false_or, sat_bind, sat_query, hsrc.readFile, ends_ok, sat_step]

theorem isFifo_child (hc : DirClosed t) (hd : Leads t d c) (hn : ValidName n)
    (hl : ∀ a target, t.get (c ++ [n]) ≠ some (.link a target)) :
    isFifo t (d ++ [n]) = true ↔ ∃ a, t.get (c ++ [n]) = some (.special a .fifo) := by
  unfold isFifo
  rw [stat_child hc hd hn hl]
  rcases t.get (c ++ [n]) with _ | (_ | _ | _ | ⟨a, _ | _ | _⟩) <;> simp

/-- Over nothing or a file, the copy is a new or changed file. -/
theorem sat_copyfile_ok {src s : Path} {body : γ} (hsrc : Holds t src s body) (hc : DirClosed t)
    (hd : Leads t d c) (hn : ValidName n) (hs : s ≠ c ++ [n])
    (hfree : t.get (c ++ [n]) = none ∨ ∃ a b r, t.get (c ++ [n]) = some (.file a b r))
    (hQ : ∀ a, Q () (t.put (c ++ [n]) (.file a body true))) :
    Sat (copyfile host src (d ++ [n])) t Q E := by
  have hl : ∀ a target, t.get (c ++ [n]) ≠ some (.link a target) := by
    rcases hfree with h | ⟨a, b, r, h⟩ <;> simp [h]
  rw [sat_copyfile hsrc hc hd hn hl hs, if_neg]
  · rcases hfree with h | ⟨a, b, r, h⟩
    · rw [writeFile_new hc hd hn h]
      exact hQ _
    · rw [writeFile_file hc hd hn h]
      exact hQ a
  · rw [isFifo_child hc hd hn hl]
    rcases hfree with h | ⟨a, b, r, h⟩ <;> simp [h]

/-- Onto a directory, a fifo or a socket, nothing is copied. -/
theorem sat_copyfile_blocked {src s : Path} {body : γ} (hsrc : Holds t src s body)
    (hc : DirClosed t) (hd : Leads t d c) (hn : ValidName n)
    (hblock : DirAt t (c ++ [n]) ∨ (∃ a, t.get (c ++ [n]) = some (.special a .fifo)) ∨
      ∃ a, t.get (c ++ [n]) = some (.special a .socket)) (hE : ∀ e, E e t) :
    Sat (copyfile host src (d ++ [n])) t Q E := by
  have hl : ∀ a target, t.get (c ++ [n]) ≠ some (.link a target) := by
    rcases hblock with ⟨a, l, h⟩ | ⟨a, h⟩ | ⟨a, h⟩ <;> simp [h]
  have hs : s ≠ c ++ [n] := by
    rintro rfl
    obtain ⟨a, ha⟩ := hsrc.file
    rcases hblock with ⟨b, l, h⟩ | ⟨b, h⟩ | ⟨b, h⟩ <;> exact nomatch h.symm.trans ha
  rw [sat_copyfile hsrc hc hd hn hl hs]
  split_ifs with hfifo
  · exact hE _
  · unfold writeFile
    rw [locate_child_follow hc hd hn hl]
    rcases hblock with ⟨a, l, h⟩ | ⟨a, h⟩ | ⟨a, h⟩
    · simpa [bind, Except.bind, h] using hE _
    · exact absurd ((isFifo_child hc hd hn hl).mpr ⟨a, h⟩) hfifo
    · simpa [bind, Except.bind, h] using hE _

/-! ### Invariants -/

variable {I : Tree γ → Prop}

theorem keeps_ignoring {err : Errno} {m : FsM γ Unit} (h : Keeps I m) :
    Keeps I (ignoring err m) := by
  refine h.attempt.bind fun r => ?_
  cases r with
  | ok => exact keeps_pure ()
  | error e =>
    dsimp only
    split_ifs
    · exact keeps_pure ()
    · exact keeps_raise e

theorem keeps_mkdirUnlessDir (h : Keeps I (step (mkdir host p) : FsM γ Unit)) :
    Keeps I (mkdirUnlessDir host p : FsM γ Unit) := by
  refine h.attempt.bind fun r => ?_
  cases r with
  | ok => exact keeps_pure ()
  | error e => exact keeps_forbid _ e

/-- An invariant of `mkdir` at each prefix of a path is one of `makedirs`. -/
theorem keeps_makedirs (h : ∀ q, q <+: p → Keeps I (step (mkdir host q) : FsM γ Unit)) :
    Keeps I (makedirs host p : FsM γ Unit) := by
  have hrev : ∀ rev : List Name, rev.reverse <+: p →
      Keeps I (makedirsRev host rev : FsM γ Unit) := by
    intro rev
    induction rev with
    | nil => exact fun _ => keeps_pure ()
    | cons name rev ih =>
      intro hpre
      rw [List.reverse_cons] at hpre
      have hdir := keeps_mkdirUnlessDir (h _ hpre)
      refine (keeps_ask _).bind fun b => ?_
      cases b with
      | true => exact (keeps_pure ()).bind fun _ => hdir
      | false =>
        have hup := (List.prefix_append rev.reverse [name]).trans hpre
        exact (keeps_ignoring (ih hup)).bind fun _ => hdir
  exact hrev p.reverse (by simp)

theorem ensures_makedirs {R : Tree γ → Prop}
    (hmk : ∀ q, q <+: d ++ [n] → Keeps I (step (mkdir host q) : FsM γ Unit)) (hs : I u)
    (hmade : ∀ w v, I w → mkdir host (d ++ [n]) w = .ok v → R v)
    (hthere : ∀ w, I w → isdir w (d ++ [n]) = true → R w) :
    Ensures I (makedirs host (d ++ [n])) u fun _ => R := by
  have hlast : ∀ w, I w → Sat (mkdirUnlessDir host (d ++ [n])) w (fun _ => R) fun _ _ => True := by
    intro w hw
    rw [sat_mkdirUnlessDir]
    cases h : mkdir host (d ++ [n]) w with
    | ok v => exact hmade w v hw h
    | error e =>
      rw [ends_error]
      split_ifs with hdir
      exact hthere w hw hdir
  refine ⟨keeps_makedirs hmk u hs, ?_⟩
  rw [sat_makedirs_snoc]
  split_ifs
  · exact hlast u hs
  · have hup : KeepsFrom I (ignoring .exist (makedirs host d) : FsM γ Unit) u :=
      keeps_ignoring (keeps_makedirs fun q hq => hmk q (hq.trans (List.prefix_append d [n]))) u hs
    unfold Sat
    cases hr : ((ignoring .exist (makedirs host d) : FsM γ Unit).run u).result with
    | ok => exact hlast _ hup.2
    | error e => trivial

end PosixTree
