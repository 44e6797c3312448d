import SysibleController.FlashbackRestore

/-! What one manifest entry does to the tree, below a directory that is already there. -/
namespace FlashbackRestore

open AtomicSteps Prog EarlyExit PosixTree RestorePoint

variable {γ : Type} {host : Host} {job : Path} {t : PosixTree.Tree γ} {d c s : Path} {n : Name} {e : Entry}
  {body : γ} {Q : ℕ → PosixTree.Tree γ → Prop} {E : Errno → PosixTree.Tree γ → Prop}

/-- `d` leads to `c` whatever stands at `q`, except a directory. -/
def Steady (t : PosixTree.Tree γ) (d c q : Path) : Prop :=
  ∀ u : PosixTree.Tree γ, (∀ r, r ≠ q → u.get r = t.get r) → ¬DirAt u q → DirClosed u ∧ Leads u d c

theorem sysibleNew_snoc : sysibleNew (d ++ [n]) = d ++ [n ++ ".sysible-new"] := by
  simp [sysibleNew]

theorem length_append_suffix (n : Name) :
    (n ++ ".sysible-new").toList.length = n.toList.length + 12 := by
  rw [String.toList_append, List.length_append]
  rfl

theorem validName_sysibleNew (n : Name) : ValidName (n ++ ".sysible-new") := by
  have h := length_append_suffix n
  have hshort : ∀ s : Name, s.toList.length ≤ 2 → n ++ ".sysible-new" ≠ s := by
    rintro s hs rfl
    omega
  exact ⟨hshort _ (by decide), hshort _ (by decide), hshort _ (by decide)⟩

theorem sysibleNew_ne (c : Path) (n : Name) : c ++ [n ++ ".sysible-new"] ≠ c ++ [n] := by
  intro heq
  have h := length_append_suffix n
  rw [List.singleton_inj.mp (List.append_cancel_left heq)] at h
  omega

/-! ## The order of the entries -/

instance : Std.Total entryLE where
  total a b := by
    unfold entryLE
    cases ha : a.isDir <;> cases hb : b.isDir <;> simp [le_total]

instance : IsTrans Entry entryLE where
  trans a b c := by
    rintro (⟨ha, hb⟩ | ⟨hab, htab⟩) (⟨hb', hc⟩ | ⟨hbc, htbc⟩)
    · rw [hb] at hb'
      cases hb'
    · exact Or.inl ⟨ha, hbc ▸ hb⟩
    · exact Or.inl ⟨hab.trans hb', hc⟩
    · exact Or.inr ⟨hab.trans hbc, le_trans htab htbc⟩

theorem text_snoc (d : Path) (n : Name) : text (d ++ [n]) = text d ++ '/' :: n.toList := by
  simp [text]

/-- A temporary name sorts behind the name it stands for. -/
theorem text_sysibleNew (d : Path) (n : Name) :
    ¬ text (d ++ [n ++ ".sysible-new"]) ≤ text (d ++ [n]) := by
  have hlt := @List.append_left_lt Char _ (text d ++ '/' :: n.toList) [] ".sysible-new".toList
    (by decide)
  rw [List.append_nil] at hlt
  rwa [not_le, text_snoc, text_snoc, String.toList_append, ← List.cons_append,
    ← List.append_assoc]

/-- A longer path sorts behind. -/
theorem text_below {p q : Path} (h : p <+: q) (hne : p ≠ q) : ¬ text q ≤ text p := by
  obtain ⟨r, rfl⟩ := h
  obtain ⟨n, r, rfl⟩ : ∃ n s, r = n :: s := by
    cases r with
    | nil => simp at hne
    | cons n s => exact ⟨n, s, rfl⟩
  have hlt := @List.append_left_lt Char _ (text p) [] (text (n :: r)) (by simp [text])
  rw [List.append_nil] at hlt
  rw [not_le]
  simpa [text] using hlt

section Order

variable {entries done todo : List Entry} {e' : Entry}

theorem mem_sortEntries : e ∈ sortEntries entries ↔ e ∈ entries :=
  (List.perm_insertionSort entryLE entries).mem_iff

variable (h : done ++ e :: todo = sortEntries entries)

include h

theorem entryLE_of_done (he' : e' ∈ done) : entryLE e' e := by
  have hpair : (done ++ e :: todo).Pairwise entryLE := by
    rw [h]
    exact List.pairwise_insertionSort entryLE entries
  exact (List.pairwise_append.mp hpair).2.2 e' he' e (by simp)

/-- The entry of a file under a temporary name comes after that of the file it would replace. -/
theorem not_mem_done (he : e.path = d ++ [n]) (hdir' : e'.isDir = false)
    (he' : e'.path = d ++ [n ++ ".sysible-new"]) : e' ∉ done := by
  intro hdone
  have hlater := text_sysibleNew d n
  rw [← he, ← he'] at hlater
  rcases entryLE_of_done h hdone with ⟨hd, -⟩ | ⟨-, hle⟩
  · rw [hdir'] at hd
    cases hd
  · exact hlater hle

/-- Directories come first. -/
theorem dir_mem_done (hdir : e.isDir = false) (he' : e' ∈ entries) (hdir' : e'.isDir = true) :
    e' ∈ done := by
  have hpair : (done ++ e :: todo).Pairwise entryLE := by
    rw [h]
    exact List.pairwise_insertionSort entryLE entries
  have hmem : e' ∈ done ++ e :: todo := by
    rw [h]
    exact mem_sortEntries.mpr he'
  rcases List.mem_append.mp hmem with hmem | hmem
  · exact hmem
  · rcases List.mem_cons.mp hmem with rfl | hmem
    · rw [hdir] at hdir'
      cases hdir'
    · have hle := (List.pairwise_cons.mp (List.pairwise_append.mp hpair).2.1).1 e' hmem
      rcases hle with ⟨hd, -⟩ | ⟨hd, -⟩
      · rw [hdir] at hd
        cases hd
      · rw [hdir, hdir'] at hd
        cases hd

end Order

/-- The trigger is unlinked, unless it is a directory. -/
theorem sat_disarm_trigger {R : PosixTree.Tree γ → Prop} (wf : WellFormed t)
    (hkept : t.get systemUpdateLink = none ∨ DirAt t systemUpdateLink → R t)
    (hgone : ∀ node, t.get systemUpdateLink = some node → node.isDir = false →
      R (t.drop systemUpdateLink)) :
    Sat (disarm systemUpdateLink) t (fun _ => R) fun _ => R := by
  have hc := wf.dirClosed
  have hroot : Leads t [] [] := (wf.plain wf.root).leads
  have hv : ValidName "system-update" := by decide
  have hexists := islink_or_exists hc hroot hv
  have hunlink := unlink_child hc hroot hv
  rw [List.nil_append] at hexists hunlink
  unfold disarm
  unfold systemUpdateLink at hkept hgone ⊢
  rw [sat_bind, sat_ask, hexists]
  cases hget : t.get ["system-update"] with
  | none => exact hkept (Or.inl hget)
  | some node =>
    simp only [Option.isSome_some, if_true]
    rw [sat_step, hunlink, hget]
    cases node with
    | dir a l => exact hkept (Or.inr ⟨a, l, hget⟩)
    | file | link | special => exact hgone _ hget rfl

/-! ## One entry -/

/-- A directory at its own path is reached whatever stands elsewhere. -/
theorem steady_of_dirAt {q : Path} (hc : DirClosed t) (hn : ∀ m ∈ d, ValidName m) (hd : DirAt t d)
    (hq : ¬ DirAt t q) : Steady t d d q := by
  intro u hu huq
  have hdirs : ∀ r, DirAt t r → DirAt u r := by
    intro r hr
    have hne : r ≠ q := by
      rintro rfl
      exact hq hr
    obtain ⟨a, l, hget⟩ := hr
    exact ⟨a, l, (hu r hne).trans hget⟩
  have hcu : DirClosed u := by
    refine ⟨hdirs _ hc.root, ?_⟩
    intro p m hdir
    have hne : p ++ [m] ≠ q := by
      rintro rfl
      exact huq hdir
    obtain ⟨a, l, hget⟩ := hdir
    exact hdirs p (hc.parent p m ⟨a, l, (hu _ hne).symm.trans hget⟩)
  exact ⟨hcu, hcu.leads hn (hdirs d hd)⟩

theorem sat_restore_link {target : String} (he : e.path = d ++ [n])
    (hp : e.payload = .link target) (ht : target ≠ "") (hn : ValidName n) (hc : DirClosed t)
    (hd : Leads t d c) (hsteady : ¬ DirAt t (c ++ [n]) → Steady t d c (c ++ [n]))
    (hQ : ¬ DirAt t (c ++ [n]) → ∀ u : PosixTree.Tree γ, (∀ r, u.get r =
      if r = c ++ [n] then some (.link ⟨0o777, 0, 0⟩ target) else t.get r) → Q 1 u)
    (hE : DirAt t (c ++ [n]) → ∀ err, E err t) : Sat (restoreEntry host job e) t Q E := by
  simp only [restoreEntry, hp, he, List.dropLast_concat]
  rw [sat_bind]
  refine sat_makedirs_of_isdir hc hd.isdir ?_
  rw [sat_bind, sat_ask, islink_or_exists hc hd hn]
  cases hget : t.get (c ++ [n]) with
  | none =>
    simp only [Option.isSome_none, Bool.false_eq_true, if_false]
    rw [sat_bind, sat_step, symlink_child hc hd hn ht hget, ends_ok, sat_pure]
    exact hQ (by simp [DirAt, hget]) _ fun r => PosixTree.Tree.get_put t _ r _
  | some node =>
    simp only [Option.isSome_some, if_true]
    rw [sat_bind, sat_step, unlink_child hc hd hn, hget]
    by_cases hdir : DirAt t (c ++ [n])
    · obtain ⟨a, l, hdir'⟩ := hdir
      obtain rfl : node = .dir a l := Option.some.inj (hget.symm.trans hdir')
      exact hE ⟨a, l, hdir'⟩ _
    · obtain ⟨hc', hd'⟩ := hsteady hdir (t.drop (c ++ [n])) (fun r hr => by rw [PosixTree.Tree.get_drop, if_neg hr])
        (by simp [DirAt])
      have hdrop : Ends (fun u => Sat (step (symlink target (d ++ [n])) >>= fun _ => pure 1) u Q E)
          (fun err => E err t) (.ok (t.drop (c ++ [n])) : Except Errno (PosixTree.Tree γ)) := by
        rw [ends_ok, sat_bind, sat_step, symlink_child hc' hd' hn ht (by simp), ends_ok, sat_pure]
        refine hQ hdir _ fun r => ?_
        rw [PosixTree.Tree.get_put, PosixTree.Tree.get_drop]
        split_ifs <;> rfl
      rcases node with ⟨a, l⟩ | _ | _ | _
      · exact absurd ⟨a, l, hget⟩ hdir
      all_goals exact hdrop

/-- An entry leaves the number of displaced objects as it is, and its exceptions in the tally. -/
theorem sat_applyEntry {δ : Type} {R : PosixTree.Tree γ → Prop} {F : δ → PosixTree.Tree γ → Prop}
    {out : Tally} (hroot : e.path = [] → R t)
    (h : e.path ≠ [] → Sat (restoreEntry host job e) t (fun _ => R) fun _ => R) :
    Sat (applyEntry host job out e) t
      (fun out' u => out'.displaced = out.displaced ∧ R u) F := by
  unfold applyEntry
  by_cases hp : e.path = []
  · rw [if_pos hp]
    exact ⟨rfl, hroot hp⟩
  · rw [if_neg hp, sat_bind, sat_attempt]
    exact (h hp).mono (fun _ _ hR => ⟨rfl, hR⟩) fun _ _ hR => ⟨rfl, hR⟩

/-- What a tally without errors says of the tree. -/
theorem sat_applyEntry_ok {δ : Type} {R : PosixTree.Tree γ → Prop} {F : δ → PosixTree.Tree γ → Prop}
    {out : Tally} (hroot : out.errors = [] → e.path = [] → R t)
    (h : out.errors = [] → e.path ≠ [] →
      Sat (restoreEntry host job e) t (fun _ => R) fun _ _ => True) :
    Sat (applyEntry host job out e) t (fun out' u => out'.errors = [] → R u) F := by
  unfold applyEntry
  by_cases hp : e.path = []
  · rw [if_pos hp]
    exact fun hout => hroot hout hp
  · rw [if_neg hp, sat_bind, sat_attempt]
    by_cases hout : out.errors = []
    · refine (h hout hp).mono (fun _ _ hR _ => hR) ?_
      intro err u _ hnil
      simp at hnil
    · refine sat_true.mono (fun _ _ _ hnil => absurd hnil hout) ?_
      intro err u _ hnil
      simp at hnil

/-- A file comes in under its temporary name, gets its owner and mode there, and is renamed. -/
theorem sat_restore_file {size : ℕ} {sha : String} (he : e.path = d ++ [n])
    (hp : e.payload = .file size sha) (hn : ValidName n) (hc : DirClosed t) (hd : Leads t d c)
    (hsteady : Steady t d c (c ++ [n ++ ".sysible-new"]))
    (hsrc : Holds t (job ++ "tree" :: e.path) s body) (hs : s ≠ c ++ [n ++ ".sysible-new"])
    (hfree : t.get (c ++ [n ++ ".sysible-new"]) = none ∨
      ∃ a b r, t.get (c ++ [n ++ ".sysible-new"]) = some (.file a b r))
    (hQ : ¬ DirAt t (c ++ [n]) → ∀ u : PosixTree.Tree γ, (∀ r, u.get r =
      if r = c ++ [n] then some (.file ⟨orDefault e.mode 0o644, e.uid, e.gid⟩ body true)
      else if r = c ++ [n ++ ".sysible-new"] then none else t.get r) → Q 1 u)
    (hE : DirAt t (c ++ [n]) → ∀ err u, E err u) : Sat (restoreEntry host job e) t Q E := by
  have hne := sysibleNew_ne c n
  have hnew := validName_sysibleNew n
  rw [he] at hsrc
  simp only [restoreEntry, hp, he, List.dropLast_concat, sysibleNew_snoc]
  rw [sat_bind]
  refine sat_makedirs_of_isdir hc hd.isdir ?_
  rw [sat_bind]
  refine sat_copyfile_ok hsrc hc hd hnew hs hfree fun a => ?_
  set m := c ++ [n ++ ".sysible-new"]
  -- Until the rename, the tree differs from `t` only in the file at the temporary name.
  have hreach : ∀ (u : PosixTree.Tree γ) (b : Attrs), (∀ r, u.get r =
      if r = m then some (.file b body true) else t.get r) → DirClosed u ∧ Leads u d c :=
    fun u b hu => hsteady u (fun r hr => by rw [hu, if_neg hr]) (by simp [DirAt, hu])
  have hput : ∀ (u : PosixTree.Tree γ) (b : Attrs), (∀ r, r ≠ m → u.get r = t.get r) →
      ∀ r, (u.put m (.file b body true)).get r =
        if r = m then some (.file b body true) else t.get r := by
    intro u b hu r
    rw [PosixTree.Tree.get_put]
    split_ifs with hr
    · rfl
    · exact hu r hr
  have h1 := hput t a fun _ _ => rfl
  obtain ⟨hc1, hd1⟩ := hreach _ a h1
  rw [sat_bind, sat_attempt, sat_step, chown_file hc1 hd1 hnew ((h1 m).trans (if_pos rfl)), ends_ok]
  have h2 := hput _ ⟨a.mode % 0o2000, e.uid, e.gid⟩ fun r hr => (h1 r).trans (if_neg hr)
  obtain ⟨hc2, hd2⟩ := hreach _ _ h2
  rw [sat_bind, sat_step, chmod_child hc2 hd2 hnew ((h2 m).trans (if_pos rfl)) rfl, ends_ok]
  have h3 := hput _ ⟨orDefault e.mode 0o644, e.uid, e.gid⟩ fun r hr => (h2 r).trans (if_neg hr)
  obtain ⟨hc3, hd3⟩ := hreach _ _ h3
  have hm := (h3 m).trans (if_pos rfl)
  have hq := (h3 (c ++ [n])).trans (if_neg hne.symm)
  simp only [Node.setAttrs, Node.attrs]
  rw [sat_bind, sat_step]
  by_cases hdir : DirAt t (c ++ [n])
  · obtain ⟨b, l, hget⟩ := hdir
    rw [rename_onto_dir hc3 hd3 hnew hd3 hn hm rfl rfl ⟨b, l, hq.trans hget⟩]
    exact hE ⟨b, l, hget⟩ _ _
  · rw [rename_child hc3 hd3 hnew hd3 hn hm rfl rfl, ends_ok, sat_pure]
    · refine hQ hdir _ fun r => ?_
      rw [PosixTree.Tree.get_put, PosixTree.Tree.get_drop, h3]
      split_ifs <;> rfl
    · rw [hq]
      cases hget : t.get (c ++ [n]) with
      | none => rfl
      | some node =>
        cases node with
        | dir b l => exact absurd ⟨b, l, hget⟩ hdir
        | _ => rfl

/-- Where a directory, a fifo or a socket stands at the temporary name, nothing happens. -/
theorem sat_restore_blocked {size : ℕ} {sha : String} (he : e.path = d ++ [n])
    (hp : e.payload = .file size sha) (hc : DirClosed t) (hd : Leads t d c)
    (hsrc : Holds t (job ++ "tree" :: e.path) s body)
    (hblock : DirAt t (c ++ [n ++ ".sysible-new"]) ∨
      (∃ a, t.get (c ++ [n ++ ".sysible-new"]) = some (.special a .fifo)) ∨
      ∃ a, t.get (c ++ [n ++ ".sysible-new"]) = some (.special a .socket))
    (hE : ∀ err, E err t) :
    Sat (restoreEntry host job e) t Q E := by
  rw [he] at hsrc
  simp only [restoreEntry, hp, he, List.dropLast_concat, sysibleNew_snoc]
  rw [sat_bind]
  refine sat_makedirs_of_isdir hc hd.isdir ?_
  rw [sat_bind]
  exact sat_copyfile_blocked hsrc hc hd (validName_sysibleNew n) hblock hE

end FlashbackRestore
