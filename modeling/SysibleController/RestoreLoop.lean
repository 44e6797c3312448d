import SysibleController.RestoreSettled

/-! The entries of a manifest put back one after the other, on any machine `L`. The directories
come first; each has then the attributes that the entries so far settle, each object stands where
its entry says, and the rest is as it was. -/
namespace FlashbackRestore

open AtomicSteps Prog EarlyExit PosixTree RestorePoint

variable {γ : Type}

/-- What an entry leaves at its path. -/
def PutBack (cfg : RestorePoint.Settings γ) (u : PosixTree.Tree γ) (e : Entry) : Prop :=
  match e.payload with
  | .dir => DirAt u e.path
  | .link target => u.get e.path = some (.link ⟨0o777, 0, 0⟩ target)
  | .file _ sha256 => ∃ body,
    u.get e.path = some (.file ⟨orDefault e.mode 0o644, e.uid, e.gid⟩ body true) ∧
      cfg.sha256 body = sha256

/-- The state between two entries. -/
structure During (cfg : RestorePoint.Settings γ) (host : Host) (L : PosixTree.Tree γ)
    (M : List Entry) (job : Path) (done todo : List Entry) (u : PosixTree.Tree γ) : Prop where
  sorted : done ++ todo = sortEntries M
  closed : DirClosed u
  kept : ∀ q, DirAt L q → DirAt u q
  made : ∀ q, DirAt u q → DirAt L q ∨ ∃ e ∈ done, e.isDir = true ∧ q <+: e.path
  attrs : ∀ q a l, u.get q = some (.dir a l) → a = settled host L done q.reverse
  objects : ∀ e ∈ done, PutBack cfg u e
  others : ∀ q, u.get q = L.get q ∨ DirAt u q ∨ u.get q = none ∨
    ∃ e ∈ done, e.isDir = false ∧ q = e.path
  job : ∀ q, job <+: q → u.get q = L.get q

variable {cfg : RestorePoint.Settings γ} {codec : Codec γ} {L u v w : PosixTree.Tree γ}
  {M done todo : List Entry} {job d p q : Path} {n : Name} {e e' : Entry} {host : Host}

theorem putBack_dir (hd : e.isDir = true) : PutBack cfg u e ↔ DirAt u e.path := by
  have hp : e.payload = .dir := by simpa [Entry.isDir] using hd
  unfold PutBack
  rw [hp]

theorem PutBack.congr (h : PutBack cfg u e) (hv : v.get e.path = u.get e.path) :
    PutBack cfg v e := by
  unfold PutBack DirAt at h ⊢
  rw [hv]
  exact h

theorem PutBack.not_dirAt (h : PutBack cfg u e) (hd : e.isDir = false) : ¬ DirAt u e.path := by
  rintro ⟨a, l, hget⟩
  unfold PutBack at h
  cases hp : e.payload with
  | dir => simp [Entry.isDir, hp] at hd
  | link target =>
    rw [hp] at h
    exact nomatch hget.symm.trans h
  | file size sha =>
    rw [hp] at h
    obtain ⟨body, h, -⟩ := h
    exact nomatch hget.symm.trans h

theorem dirEntryAt_snoc_of_ne (h : e.path ≠ q ∨ e.isDir = false) :
    dirEntryAt (done ++ [e]) q = dirEntryAt done q := by
  unfold dirEntryAt
  have hlast : (e.isDir && decide (e.path = q)) = false := by
    rcases h with h | h <;> simp [h]
  rw [List.find?_append, List.find?_singleton, hlast]
  simp

namespace During

theorem mem (h : During cfg host L M job done todo u) : e ∈ done ++ todo ↔ e ∈ M := by
  rw [h.sorted]
  exact mem_sortEntries

theorem mem_of_done (h : During cfg host L M job done todo u) (he : e ∈ done) : e ∈ M :=
  h.mem.mp (List.mem_append_left _ he)

theorem mem_of_todo (h : During cfg host L M job done (e :: todo) u) : e ∈ M := h.mem.mp (by simp)

theorem names (h : During cfg host L M job done todo u) (hM : Manifest M) (wf : WellFormed L)
    (hget : u.get (p ++ [n]) ≠ none) : ValidName n := by
  have hold : DirAt L (p ++ [n]) → ValidName n := by
    rintro ⟨a, l, hL⟩
    exact wf.names p n (by simp [hL])
  rcases h.others (p ++ [n]) with heq | hdir | hnone | ⟨e, he, -, hpath⟩
  · exact wf.names p n (heq ▸ hget)
  · rcases h.made _ hdir with hL | ⟨e, he, -, hpre⟩
    · exact hold hL
    · exact hM.names e (h.mem_of_done he) n (hpre.subset (by simp))
  · exact absurd hnone hget
  · exact hM.names e (h.mem_of_done he) n (hpath ▸ by simp)

/-- No directory entry done so far has its path strictly below that of another to do. -/
theorem not_below (h : During cfg host L M job done (e :: todo) u) (he : e.isDir = true)
    (he' : e' ∈ done) (hpre : e.path <+: e'.path) : e.path = e'.path := by
  by_contra hne
  rcases entryLE_of_done h.sorted he' with ⟨-, hd⟩ | ⟨-, hle⟩
  · rw [he] at hd
    cases hd
  · exact text_below hpre hne hle

theorem done_dirs (h : During cfg host L M job done (e :: todo) u) (he : e.isDir = true)
    (he' : e' ∈ done) : e'.isDir = true := by
  rcases entryLE_of_done h.sorted he' with ⟨hd, -⟩ | ⟨hd, -⟩
  · exact hd
  · rw [hd, he]

/-! ## A directory -/

/-- The directories made on the way to an entry settle like the others. -/
theorem attrs_grown (h : During cfg host L M job done (e :: todo) u)
    (hclear : Clear u [] e.path) (hw : Grown host u w [] e.path) :
    ∀ q a l, w.get q = some (.dir a l) → a = settled host L done q.reverse := by
  intro q
  induction q using List.reverseRecOn with
  | nil =>
    intro a l hget
    obtain ⟨b, k, hroot⟩ := h.closed.root
    exact h.attrs [] a l ((hw.kept [] (Or.inl (by simp [hroot]))).symm.trans hget)
  | append_singleton s n ih =>
    intro a l hget
    by_cases hold : u.get (s ++ [n]) = none
    · have hpre : s ++ [n] <+: e.path := by
        by_contra hpre
        have := hw.kept (s ++ [n]) (Or.inr ?_)
        · rw [this, hold] at hget
          cases hget
        · rintro r hr heq
          rw [List.nil_append] at heq
          exact hpre (heq ▸ hr)
      have hmade := hw.made s n hpre hold
      rw [List.nil_append, List.nil_append, hget] at hmade
      obtain ⟨b, k, hs⟩ := hw.dirAt hclear h.closed.root ((List.prefix_append s [n]).trans hpre)
      rw [List.nil_append] at hs
      obtain rfl := ih b k hs
      have hparent : attrsOf w s = settled host L done s.reverse := by
        unfold attrsOf
        rw [hs]
        rfl
      have hentry : dirEntryAt done (s ++ [n]) = none := by
        by_contra hne
        obtain ⟨e', he'⟩ := Option.ne_none_iff_exists'.mp hne
        obtain ⟨hmem, hd, hpath⟩ := mem_of_dirEntryAt he'
        obtain ⟨b, k, hdir⟩ := (putBack_dir hd).mp (h.objects e' hmem)
        rw [hpath, hold] at hdir
        cases hdir
      have hlive : ownOr (L.get (s ++ [n])) (newDir host (settled host L done s.reverse)) =
          newDir host (settled host L done s.reverse) := by
        unfold ownOr
        split
        · rename_i b k hL
          obtain ⟨b', k', hdir⟩ := h.kept _ ⟨b, k, hL⟩
          rw [hold] at hdir
          cases hdir
        · rfl
      have hback : (n :: s.reverse).reverse = s ++ [n] := by simp
      rw [List.reverse_append, List.reverse_singleton, List.singleton_append]
      simp only [settled, hback, hentry, hlive]
      rw [← hparent]
      exact (Node.dir.inj (Option.some.inj hmade)).1
    · exact h.attrs _ a l ((hw.kept _ (Or.inl hold)).symm.trans hget)

/-- What the mode of one more directory entry settles. -/
theorem settled_snoc (h : During cfg host L M job done (e :: todo) u) (hM : Manifest M)
    (hd : e.isDir = true) (hp : e.path ≠ []) :
    settled host L (done ++ [e]) e.path.reverse =
      { settled host L done e.path.reverse with mode := orDefault e.mode 0o755 } := by
  have hunique : ∀ e' ∈ done ++ [e], e'.path = e.path → e' = e := by
    intro e' he' hpath
    refine hM.unique e' (h.mem.mp ?_) e h.mem_of_todo hpath
    rcases List.mem_append.mp he' with he' | he'
    · simp [he']
    · simp [List.mem_singleton.mp he']
  have hentry := dirEntryAt_eq hunique (by simp) hd
  obtain ⟨s, n, hs⟩ := (List.eq_nil_or_concat' e.path).resolve_left hp
  have hback : (n :: s.reverse).reverse = e.path := by simp [hs]
  have hrev : e.path.reverse = n :: s.reverse := by simp [hs]
  have hparent : settled host L (done ++ [e]) s.reverse = settled host L done s.reverse := by
    refine settled_congr fun r _ hr => dirEntryAt_snoc_of_ne (Or.inl ?_)
    rw [List.reverse_reverse] at hr
    rintro rfl
    have := hr.length_le
    rw [hs, List.length_append, List.length_singleton] at this
    omega
  rw [hrev]
  simp only [settled, hback, hentry, hparent]
  cases hfind : dirEntryAt done e.path <;> rfl

/-- While directories are put back, no link stands on the way to one. -/
theorem no_link (h : During cfg host L M job done (e :: todo) u) (hfree : Unobstructed L M job)
    (hd : e.isDir = true) : ∀ s, s <+: e.path → ∀ a target, u.get s ≠ some (.link a target) := by
  intro s hs a target hget
  rcases h.others s with heq | ⟨b, l, hdir⟩ | hnone | ⟨e', he', hnd, -⟩
  · exact hfree.links e h.mem_of_todo hd s hs a target (heq ▸ hget)
  · rw [hdir] at hget
    cases hget
  · rw [hnone] at hget
    cases hget
  · rw [h.done_dirs hd he'] at hnd
    cases hnd

/-- What `makedirs` leaves is as before, or a directory on the way. -/
theorem grown_cases (h : During cfg host L M job done (e :: todo) u) (hclear : Clear u [] e.path)
    (hw : Grown host u w [] e.path) (q : Path) :
    w.get q = u.get q ∨ u.get q = none ∧ q <+: e.path ∧ DirAt w q := by
  by_cases hq : u.get q = none ∧ q <+: e.path
  · refine Or.inr ⟨hq.1, hq.2, ?_⟩
    simpa using hw.dirAt hclear h.closed.root hq.2
  · refine Or.inl (hw.kept q ?_)
    by_cases hnone : u.get q = none
    · refine Or.inr fun s hs heq => hq ⟨hnone, ?_⟩
      rw [List.nil_append] at heq
      exact heq ▸ hs
    · exact Or.inl hnone

/-- The entry settles its own directory and no other. -/
theorem settled_other (h : During cfg host L M job done (e :: todo) u) (hd : e.isDir = true)
    (hclear : Clear u [] e.path) (hw : Grown host u w [] e.path) (hq : DirAt w q)
    (hqp : q ≠ e.path) :
    settled host L (done ++ [e]) q.reverse = settled host L done q.reverse := by
  by_cases hL : DirAt L q
  · exact settled_congr_of_dir hL (dirEntryAt_snoc_of_ne (Or.inl (Ne.symm hqp)))
  · obtain ⟨b, k, hq⟩ := hq
    have hnot : ¬ e.path <+: q := by
      intro hpre
      rcases h.grown_cases hclear hw q with heq | ⟨-, hqe, -⟩
      · rcases h.made q ⟨b, k, heq ▸ hq⟩ with hdir | ⟨e', he', -, hqe⟩
        · exact hL hdir
        · have := h.not_below hd he' (hpre.trans hqe)
          rw [← this] at hqe
          exact hqp (hqe.eq_of_length_le hpre.length_le)
      · exact hqp (hqe.eq_of_length_le hpre.length_le)
    refine settled_congr fun s _ hs => dirEntryAt_snoc_of_ne (Or.inl ?_)
    rintro rfl
    exact hnot (by simpa using hs)

/-- A directory entry has its directory and its mode. -/
theorem directory (h : During cfg host L M job done (e :: todo) u) (hM : Manifest M)
    (hfree : Unobstructed L M job) (hd : e.isDir = true) (hp : e.path ≠ [])
    (hclear : Clear u [] e.path) (hw : Grown host u w [] e.path) {a : Attrs} {l : Bool}
    (hget : w.get e.path = some (.dir a l)) :
    During cfg host L M job (done ++ [e]) todo
      (w.put e.path (.dir { a with mode := orDefault e.mode 0o755 } l)) := by
  have hcw := hw.dirClosed hclear h.closed.root h.closed
  have hattrs := h.attrs_grown hclear hw
  have hgrown := h.grown_cases hclear hw
  have hother : ∀ q, q ≠ e.path →
      (w.put e.path (.dir { a with mode := orDefault e.mode 0o755 } l)).get q = w.get q := by
    intro q hq
    rw [Tree.get_put, if_neg hq]
  have hsame : ∀ q, DirAt (w.put e.path (.dir { a with mode := orDefault e.mode 0o755 } l)) q ↔
      DirAt w q := by
    intro q
    by_cases hq : q = e.path
    · subst hq
      exact ⟨fun _ => ⟨a, l, hget⟩, fun _ => ⟨_, l, by rw [Tree.get_put, if_pos rfl]⟩⟩
    · unfold DirAt
      rw [hother q hq]
  refine ⟨by simpa using h.sorted, ⟨(hsame _).mpr hcw.root, ?_⟩, ?_, ?_, ?_, ?_, ?_, ?_⟩
  · intro p n hdir
    exact (hsame p).mpr (hcw.parent p n ((hsame _).mp hdir))
  · exact fun q hq => (hsame q).mpr (hw.extends.dirAt (h.kept q hq))
  · intro q hq
    rcases hgrown q with heq | ⟨-, hpre, -⟩
    · have hu : DirAt u q := by
        obtain ⟨b, k, hdir⟩ := (hsame q).mp hq
        exact ⟨b, k, heq.symm.trans hdir⟩
      refine (h.made q hu).imp_right ?_
      rintro ⟨e', he', hd', hpre⟩
      exact ⟨e', by simp [he'], hd', hpre⟩
    · exact Or.inr ⟨e, by simp, hd, hpre⟩
  · intro q b k hq
    by_cases hqp : q = e.path
    · subst hqp
      rw [Tree.get_put, if_pos rfl] at hq
      obtain ⟨rfl, -⟩ := Node.dir.inj (Option.some.inj hq)
      rw [h.settled_snoc hM hd hp, ← hattrs _ a l hget]
    · rw [hother q hqp] at hq
      rw [hattrs q b k hq, h.settled_other hd hclear hw ⟨b, k, hq⟩ hqp]
  · intro e' he'
    rcases List.mem_append.mp he' with he' | he'
    · have hd' := h.done_dirs hd he'
      exact (putBack_dir hd').mpr ((hsame _).mpr (hw.extends.dirAt
        ((putBack_dir hd').mp (h.objects e' he'))))
    · obtain rfl := List.mem_singleton.mp he'
      exact (putBack_dir hd).mpr ((hsame _).mpr ⟨a, l, hget⟩)
  · intro q
    by_cases hqp : q = e.path
    · subst hqp
      exact Or.inr (Or.inl ((hsame _).mpr ⟨a, l, hget⟩))
    · rcases hgrown q with heq | ⟨-, -, hdir⟩
      · rcases h.others q with hold | hdir | hnone | ⟨e', he', hrest⟩
        · exact Or.inl ((hother q hqp).trans (heq.trans hold))
        · exact Or.inr (Or.inl ((hsame q).mpr (hw.extends.dirAt hdir)))
        · exact Or.inr (Or.inr (Or.inl ((hother q hqp).trans (heq.trans hnone))))
        · exact Or.inr (Or.inr (Or.inr ⟨e', by simp [he'], hrest⟩))
      · exact Or.inr (Or.inl ((hsame q).mpr hdir))
  · intro q hq
    have hapart : ¬ q <+: e.path := fun hpre => hfree.apart e h.mem_of_todo (hq.trans hpre)
    rw [hother q (fun heq => hapart (heq ▸ List.prefix_refl q)), ← h.job q hq]
    exact (hgrown q).resolve_right fun ⟨_, hpre, _⟩ => hapart hpre

theorem sat_dir (h : During cfg host L M job done (e :: todo) u) (hM : Manifest M)
    (hfree : Unobstructed L M job) (hd : e.isDir = true) (hp : e.path ≠ []) :
    Sat (restoreEntry host job e) u (fun _ v => During cfg host L M job (done ++ [e]) todo v)
      fun _ _ => True := by
  have hpayload : e.payload = .dir := by simpa [Entry.isDir] using hd
  have hnames := hM.names e h.mem_of_todo
  simp only [restoreEntry, hpayload]
  rw [sat_bind]
  refine sat_makedirs_literal h.closed hnames (h.no_link hfree hd) fun w hclear hw => ?_
  have hcw := hw.dirClosed hclear h.closed.root h.closed
  have hdir : DirAt w e.path := by
    simpa using hw.dirAt hclear h.closed.root (List.prefix_refl e.path)
  obtain ⟨a, l, hget⟩ := hdir
  rw [sat_bind, sat_step, chmod_leads (hcw.leads hnames ⟨a, l, hget⟩) hget, ends_ok, sat_pure]
  exact h.directory hM hfree hd hp hclear hw hget

/-! ## An object -/

/-- An object entry changes no directory: at its path stands what it put back, and perhaps nothing
any more at its temporary name. -/
theorem object (h : During cfg host L M job done (e :: todo) u) (hM : Manifest M)
    (hfree : Unobstructed L M job) (hjob : DirAt L job) (he : e.isDir = false)
    (hnd : ¬ DirAt u e.path) (hput : PutBack cfg v e)
    (hv : ∀ q, q ≠ e.path → v.get q = u.get q ∨
      q = sysibleNew e.path ∧ ¬ DirAt u q ∧ v.get q = none) :
    During cfg host L M job (done ++ [e]) todo v := by
  have hdirs : ∀ q a l, v.get q = some (.dir a l) ↔ u.get q = some (.dir a l) := by
    intro q a l
    by_cases hq : q = e.path
    · subst hq
      exact ⟨fun hget => absurd ⟨a, l, hget⟩ (hput.not_dirAt he),
        fun hget => absurd ⟨a, l, hget⟩ hnd⟩
    · rcases hv q hq with heq | ⟨-, hndq, hnone⟩
      · rw [heq]
      · rw [hnone]
        exact ⟨fun hget => (nomatch hget), fun hget => absurd ⟨a, l, hget⟩ hndq⟩
  have hsame : ∀ q, DirAt v q ↔ DirAt u q := fun q => by simp [DirAt, hdirs]
  obtain ⟨d, n, -, hpath, -⟩ := hM.parent e h.mem_of_todo he
  have hentries : ∀ q, dirEntryAt (done ++ [e]) q = dirEntryAt done q :=
    fun q => dirEntryAt_snoc_of_ne (Or.inr he)
  refine ⟨by simpa using h.sorted, ⟨(hsame _).mpr h.closed.root, ?_⟩, ?_, ?_, ?_, ?_, ?_, ?_⟩
  · intro p n hdir
    exact (hsame p).mpr (h.closed.parent p n ((hsame _).mp hdir))
  · exact fun q hq => (hsame q).mpr (h.kept q hq)
  · intro q hq
    refine (h.made q ((hsame q).mp hq)).imp_right ?_
    rintro ⟨e', he', hd', hpre⟩
    exact ⟨e', by simp [he'], hd', hpre⟩
  · intro q a l hget
    rw [h.attrs q a l ((hdirs q a l).mp hget)]
    exact settled_congr fun s _ _ => (hentries s).symm
  · intro e' he'
    rcases List.mem_append.mp he' with he' | he'
    · by_cases heq : e'.path = e.path
      · obtain rfl := hM.unique e' (h.mem_of_done he') e h.mem_of_todo heq
        exact hput
      · rcases hv e'.path heq with hget | ⟨htemp, hndq, -⟩
        · exact (h.objects e' he').congr hget
        · -- the temporary name is no entry done before
          rw [hpath, sysibleNew_snoc] at htemp
          cases hd' : e'.isDir with
          | true => exact absurd ((putBack_dir hd').mp (h.objects e' he')) hndq
          | false => exact absurd he' (not_mem_done h.sorted hpath hd' htemp)
    · obtain rfl := List.mem_singleton.mp he'
      exact hput
  · intro q
    by_cases hq : q = e.path
    · exact Or.inr (Or.inr (Or.inr ⟨e, by simp, he, hq⟩))
    · rcases hv q hq with heq | ⟨-, -, hnone⟩
      · rcases h.others q with hold | hdir | hnone | ⟨e', he', hrest⟩
        · exact Or.inl (heq.trans hold)
        · exact Or.inr (Or.inl ((hsame q).mpr hdir))
        · exact Or.inr (Or.inr (Or.inl (heq.trans hnone)))
        · exact Or.inr (Or.inr (Or.inr ⟨e', by simp [he'], hrest⟩))
      · exact Or.inr (Or.inr (Or.inl hnone))
  · intro q hq
    have hapart : ¬ job <+: e.path := hfree.apart e h.mem_of_todo
    have hne : q ≠ e.path := by
      rintro rfl
      exact hapart hq
    rcases hv q hne with heq | ⟨rfl, hndq, -⟩
    · rw [heq, h.job q hq]
    · exfalso
      rw [hpath, sysibleNew_snoc] at hq hndq
      rcases List.prefix_concat_iff.mp (by simpa using hq) with heq | hpre
      · exact hndq (heq ▸ h.kept job hjob)
      · exact hapart (hpath ▸ hpre.trans (List.prefix_append d [n]))

/-- The directory of an object has been put back. -/
theorem parent (h : During cfg host L M job done (e :: todo) u) (hM : Manifest M)
    (he : e.isDir = false) : ∃ d n, e.path = d ++ [n] ∧ DirAt u d ∧ (∀ m ∈ d, ValidName m) ∧
      ValidName n := by
  obtain ⟨d, n, p, hpath, hp, hpd, hpp⟩ := hM.parent e h.mem_of_todo he
  have hnames := hM.names e h.mem_of_todo
  rw [hpath] at hnames
  have hdir := (putBack_dir hpd).mp (h.objects p (dir_mem_done h.sorted he hp hpd))
  exact ⟨d, n, hpath, hpp ▸ hdir, fun m hm => hnames m (by simp [hm]), hnames n (by simp)⟩

theorem sat_link (h : During cfg host L M job done (e :: todo) u) (hM : Manifest M)
    (hfree : Unobstructed L M job) (hjob : DirAt L job) {target : String} (hp : e.payload = .link target) :
    Sat (restoreEntry host job e) u (fun _ v => During cfg host L M job (done ++ [e]) todo v)
      fun _ _ => True := by
  have he : e.isDir = false := by simp [Entry.isDir, hp]
  obtain ⟨d, n, hpath, hd, hdn, hn⟩ := h.parent hM he
  refine sat_restore_link hpath hp (hM.links e h.mem_of_todo target hp).1 hn h.closed
    (h.closed.leads hdn hd) (steady_of_dirAt h.closed hdn hd) ?_ fun _ _ => trivial
  intro hnd v hv
  refine h.object hM hfree hjob he (hpath ▸ hnd) ?_ ?_
  · unfold PutBack
    rw [hp, hpath]
    exact (hv _).trans (if_pos rfl)
  · intro q hq
    rw [hpath] at hq
    exact Or.inl ((hv q).trans (if_neg hq))

/-- The staged file is still where the apply looks for it. -/
theorem holds_staged (h : During cfg host L M job done (e :: todo) u) (hM : Manifest M)
    (hprep : Prepared cfg codec L M job) {size : ℕ} {sha : String}
    (hp : e.payload = .file size sha) : ∃ body, cfg.sha256 body = sha ∧
      Holds u (job ++ "tree" :: e.path) (job ++ "tree" :: e.path) body := by
  have he : e.isDir = false := by simp [Entry.isDir, hp]
  obtain ⟨d, n, p, hpath, -⟩ := hM.parent e h.mem_of_todo he
  obtain ⟨a, body, hget, hsha⟩ := hprep.tree e h.mem_of_todo size sha hp
  refine ⟨body, hsha, ?_⟩
  have hu := (h.job _ (List.prefix_append job _)).trans hget
  have hassoc : job ++ "tree" :: e.path = (job ++ "tree" :: d) ++ [n] := by simp [hpath]
  rw [hassoc] at hget hu ⊢
  have hne : L.get ((job ++ "tree" :: d) ++ [n]) ≠ none := by
    rw [hget]
    exact Option.some_ne_none _
  have hdir := hprep.wf.parent _ n hne
  exact holds_child h.closed (h.closed.leads (hprep.wf.plain hdir).names (h.kept _ hdir))
    (hprep.wf.names _ n hne) hu

theorem sat_file (h : During cfg host L M job done (e :: todo) u) (hM : Manifest M)
    (hfree : Unobstructed L M job) (hprep : Prepared cfg codec L M job) {size : ℕ} {sha : String}
    (hp : e.payload = .file size sha) :
    Sat (restoreEntry host job e) u (fun _ v => During cfg host L M job (done ++ [e]) todo v)
      fun _ _ => True := by
  have he : e.isDir = false := by simp [Entry.isDir, hp]
  obtain ⟨d, n, hpath, hd, hdn, hn⟩ := h.parent hM he
  obtain ⟨body, hsha, hsrc⟩ := h.holds_staged hM hprep hp
  have hlead := h.closed.leads hdn hd
  have htemp := hfree.temporary e h.mem_of_todo size sha hp
  rw [hpath, sysibleNew_snoc] at htemp
  by_cases hblock : DirAt u (d ++ [n ++ ".sysible-new"]) ∨
      (∃ a, u.get (d ++ [n ++ ".sysible-new"]) = some (.special a .fifo)) ∨
      ∃ a, u.get (d ++ [n ++ ".sysible-new"]) = some (.special a .socket)
  · exact sat_restore_blocked hpath hp h.closed hlead hsrc hblock fun _ => trivial
  · have hndtemp : ¬ DirAt u (d ++ [n ++ ".sysible-new"]) := fun hdir => hblock (Or.inl hdir)
    -- at the temporary name stands what `L` has there, or nothing
    have hlive : u.get (d ++ [n ++ ".sysible-new"]) = L.get (d ++ [n ++ ".sysible-new"]) ∨
        u.get (d ++ [n ++ ".sysible-new"]) = none := by
      rcases h.others (d ++ [n ++ ".sysible-new"]) with heq | hdir | hnone | ⟨e', he', hnd', htemp'⟩
      · exact Or.inl heq
      · exact absurd hdir hndtemp
      · exact Or.inr hnone
      · exact absurd he' (not_mem_done h.sorted hpath hnd' htemp'.symm)
    have hfile : u.get (d ++ [n ++ ".sysible-new"]) = none ∨
        ∃ a b r, u.get (d ++ [n ++ ".sysible-new"]) = some (.file a b r) := by
      cases hget : u.get (d ++ [n ++ ".sysible-new"]) with
      | none => exact Or.inl rfl
      | some node =>
        have hL : L.get (d ++ [n ++ ".sysible-new"]) = some node := by
          rcases hlive with heq | hnone
          · exact heq.symm.trans hget
          · rw [hnone] at hget
            cases hget
        rcases node with ⟨a, l⟩ | ⟨a, b, r⟩ | ⟨a, target⟩ | ⟨a, _ | _ | _⟩
        · exact absurd ⟨a, l, hget⟩ hndtemp
        · exact Or.inr ⟨a, b, r, rfl⟩
        · exact absurd hL ((htemp a).1 target)
        · exact absurd (Or.inr (Or.inl ⟨a, hget⟩)) hblock
        · exact absurd (Or.inr (Or.inr ⟨a, hget⟩)) hblock
        · exact absurd hL (htemp a).2
    have hs : job ++ "tree" :: e.path ≠ d ++ [n ++ ".sysible-new"] := by
      intro heq
      have := congrArg List.length heq
      simp only [hpath, List.length_append, List.length_cons, List.length_nil] at this
      omega
    refine sat_restore_file hpath hp hn h.closed hlead (steady_of_dirAt h.closed hdn hd hndtemp)
      hsrc hs hfile ?_ fun _ _ _ => trivial
    intro hnd v hv
    refine h.object hM hfree hprep.dir he (hpath ▸ hnd) ?_ ?_
    · unfold PutBack
      rw [hp, hpath]
      exact ⟨body, (hv _).trans (if_pos rfl), hsha⟩
    · intro q hq
      rw [hpath] at hq
      by_cases hqt : q = d ++ [n ++ ".sysible-new"]
      · subst hqt
        refine Or.inr ⟨by rw [hpath, sysibleNew_snoc], hndtemp, ?_⟩
        exact (hv _).trans ((if_neg hq).trans (if_pos rfl))
      · exact Or.inl ((hv q).trans ((if_neg hq).trans (if_neg hqt)))

/-- The root is never touched. -/
theorem skip (h : During cfg host L M job done (e :: todo) u) (hM : Manifest M)
    (hp : e.path = []) : During cfg host L M job (done ++ [e]) todo u := by
  have hd : e.isDir = true := by
    by_contra hd
    obtain ⟨d, n, -, hpath, -⟩ := hM.parent e h.mem_of_todo (by simpa using hd)
    rw [hp] at hpath
    simp at hpath
  refine ⟨by simpa using h.sorted, h.closed, h.kept, ?_, ?_, ?_, ?_, h.job⟩
  · intro q hq
    refine (h.made q hq).imp_right ?_
    rintro ⟨e', he', hrest⟩
    exact ⟨e', by simp [he'], hrest⟩
  · intro q a l hget
    rw [h.attrs q a l hget]
    exact settled_congr fun s hne _ => (dirEntryAt_snoc_of_ne (Or.inl (hp ▸ hne.symm))).symm
  · intro e' he'
    rcases List.mem_append.mp he' with he' | he'
    · exact h.objects e' he'
    · obtain rfl := List.mem_singleton.mp he'
      exact (putBack_dir hd).mpr (hp ▸ h.closed.root)
  · intro q
    rcases h.others q with hold | hdir | hnone | ⟨e', he', hrest⟩
    · exact Or.inl hold
    · exact Or.inr (Or.inl hdir)
    · exact Or.inr (Or.inr (Or.inl hnone))
    · exact Or.inr (Or.inr (Or.inr ⟨e', by simp [he'], hrest⟩))

/-! ## All entries -/

theorem start (hprep : Prepared cfg codec L M job)
    (hu : u = L ∨ ∃ node, L.get systemUpdateLink = some node ∧ node.isDir = false ∧
      u = L.drop systemUpdateLink) : During cfg host L M job [] (sortEntries M) u := by
  have hold : ∀ q, u.get q = L.get q ∨ u.get q = none ∧ q = systemUpdateLink ∧ ¬ DirAt L q := by
    intro q
    rcases hu with rfl | ⟨node, hnode, hnd, rfl⟩
    · exact Or.inl rfl
    · rw [Tree.get_drop]
      split_ifs with hq
      · subst hq
        refine Or.inr ⟨rfl, rfl, ?_⟩
        rintro ⟨a, l, hdir⟩
        obtain rfl := Option.some.inj (hnode.symm.trans hdir)
        cases hnd
      · exact Or.inl rfl
  have hdirs : ∀ q a l, u.get q = some (.dir a l) ↔ L.get q = some (.dir a l) := by
    intro q a l
    rcases hold q with heq | ⟨hnone, -, hnd⟩
    · rw [heq]
    · rw [hnone]
      exact ⟨fun hget => (by cases hget), fun hget => absurd ⟨a, l, hget⟩ hnd⟩
  have hsame : ∀ q, DirAt u q ↔ DirAt L q := fun q => by simp [DirAt, hdirs]
  refine ⟨rfl, ⟨(hsame _).mpr hprep.wf.root, ?_⟩, ?_, ?_, ?_, ?_, ?_, ?_⟩
  · intro p n hdir
    exact (hsame p).mpr (hprep.wf.dirClosed.parent p n ((hsame _).mp hdir))
  · exact fun q => (hsame q).mpr
  · exact fun q hq => Or.inl ((hsame q).mp hq)
  · intro q a l hget
    have hL := (hdirs q a l).mp hget
    rcases List.eq_nil_or_concat' q with rfl | ⟨s, n, rfl⟩
    · simp [settled, attrsOf, hL, Node.attrs]
    · have hback : (n :: s.reverse).reverse = s ++ [n] := by simp
      rw [List.reverse_append, List.reverse_singleton, List.singleton_append]
      simp only [settled, hback, hL, ownOr]
      rfl
  · intro e he
    cases he
  · exact fun q => (hold q).imp_right fun hgone => Or.inr (Or.inl hgone.1)
  · intro q hq
    refine (hold q).resolve_right ?_
    rintro ⟨-, rfl, hnd⟩
    obtain ⟨r, hr⟩ := hq
    rcases List.append_eq_singleton_iff.mp hr with ⟨hjob, -⟩ | ⟨hjob, -⟩
    · exact hprep.nonroot hjob
    · exact hnd ((hjob.trans rfl : job = systemUpdateLink) ▸ hprep.dir)

theorem sat_entry (h : During cfg host L M job done (e :: todo) u) (hM : Manifest M)
    (hfree : Unobstructed L M job) (hprep : Prepared cfg codec L M job) (hp : e.path ≠ []) :
    Sat (restoreEntry host job e) u (fun _ v => During cfg host L M job (done ++ [e]) todo v)
      fun _ _ => True := by
  cases hpayload : e.payload with
  | dir => exact h.sat_dir hM hfree (by simp [Entry.isDir, hpayload]) hp
  | link target => exact h.sat_link hM hfree hprep.dir hpayload
  | file size sha => exact h.sat_file hM hfree hprep hpayload

theorem sat_entries {δ : Type} {E : δ → PosixTree.Tree γ → Prop}
    (h : During cfg host L M job [] (sortEntries M) u) (hM : Manifest M)
    (hfree : Unobstructed L M job) (hprep : Prepared cfg codec L M job) :
    Sat ((sortEntries M).foldlM (applyEntry host job) ⟨0, 0, []⟩) u
      (fun out v => out.errors = [] → During cfg host L M job (sortEntries M) [] v) E := by
  refine @Sat.foldlM _ _ _ E _ (fun done todo out v => out.errors = [] →
    During cfg host L M job done todo v) (applyEntry host job) ?_ (sortEntries M) [] ⟨0, 0, []⟩ u
    fun _ => h
  intro done e todo out v hv
  refine sat_applyEntry_ok ?_ ?_
  · exact fun hout hp => (hv hout).skip hM hp
  · exact fun hout hp => (hv hout).sat_entry hM hfree hprep hp

end During

end FlashbackRestore
