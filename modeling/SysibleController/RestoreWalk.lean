import SysibleController.RestorePoint
import SysibleController.PosixPrograms

/-! What the walk of a restore point records: the directories it enters, each with the place it
leads to, and the objects in them that it can record. -/
namespace RestorePoint

open PosixTree

variable {γ : Type} {cfg : Settings γ} {t : PosixTree.Tree γ} {roots : List Path} {d c : Path}
  {n : Name} {e : Entry}

def Listable (t : PosixTree.Tree γ) (p : Path) : Prop := ∃ a, t.get p = some (.dir a true)

theorem Listable.dirAt {p : Path} (h : Listable t p) : DirAt t p := by
  obtain ⟨a, h⟩ := h
  exact ⟨a, true, h⟩

/-- The directories the walk enters, by their path and their place. -/
inductive Captured (cfg : Settings γ) (t : PosixTree.Tree γ) (roots : List Path) :
    Path → Path → Prop where
  | root {r c : Path} : r ∈ roots → rpExcluded cfg r = false → Leads t r c → Listable t c →
      Captured cfg t roots r c
  | child {d c : Path} {n : Name} : Captured cfg t roots d c → Listable t (c ++ [n]) →
      rpExcluded cfg (d ++ [n]) = false → Captured cfg t roots (d ++ [n]) (c ++ [n])

/-- What an object that is no directory is recorded as. -/
def objectEntry (cfg : Settings γ) (p : Path) : Node γ → Option Entry
  | .link a target => some ⟨p, 0o777, a.uid, a.gid, .link target⟩
  | .file a body true =>
    if cfg.maxFile < cfg.size body then none
    else some ⟨p, a.mode, a.uid, a.gid, .file (cfg.size body) (cfg.sha256 body)⟩
  | _ => none

theorem objectEntry_path {p : Path} {node : Node γ} (h : objectEntry cfg p node = some e) :
    e.path = p ∧ e.isDir = false := by
  rcases node with _ | ⟨a, body, _ | _⟩ | ⟨a, target⟩ | _
  · cases h
  · cases h
  · simp only [objectEntry] at h
    split at h
    · cases h
    · obtain rfl := Option.some.inj h
      exact ⟨rfl, rfl⟩
  · obtain rfl := Option.some.inj h
    exact ⟨rfl, rfl⟩
  · cases h

/-! ## Places -/

theorem Captured.listable (h : Captured cfg t roots d c) : Listable t c := by
  cases h with
  | root _ _ _ hl => exact hl
  | child _ hl _ => exact hl

theorem Captured.leads (h : Captured cfg t roots d c) (wf : WellFormed t) : Leads t d c := by
  induction h with
  | root _ _ hd _ => exact hd
  | @child d c n _ hl _ ih =>
    obtain ⟨a, hget⟩ := hl
    exact leads_child wf.dirClosed ih (wf.names c n (by simp [hget])) ⟨a, true, hget⟩

theorem Captured.names (h : Captured cfg t roots d c) (wf : WellFormed t)
    (hroots : ∀ r ∈ roots, ∀ n ∈ r, ValidName n) : ∀ n ∈ d, ValidName n := by
  induction h with
  | root hr _ _ _ => exact hroots _ hr
  | @child d c n _ hl _ ih =>
    obtain ⟨a, hget⟩ := hl
    intro m hm
    rcases List.mem_append.mp hm with hm | hm
    · exact ih m hm
    · exact List.mem_singleton.mp hm ▸ wf.names c n (by simp [hget])

/-- A path to a directory can be looked at without following its last component. -/
theorem lstat_of_leads (hd : Leads t d c) (hc : DirClosed t) (hn : ∀ n ∈ d, ValidName n) :
    ∃ node, lstat t d = .ok node := by
  rcases List.eq_nil_or_concat' d with rfl | ⟨p, n, rfl⟩
  · obtain ⟨a, l, hroot⟩ := hc.root
    refine ⟨.dir a l, ?_⟩
    unfold lstat nodeAt locate
    simp [bind, Except.bind, hroot]
  · have hparent := pathExists_parent hc (pathExists_of_isdir hd.isdir)
    obtain ⟨b, hb⟩ := Leads.of_isdir hparent
    rw [lstat_child hc hb (hn n (by simp))]
    cases hget : t.get (b ++ [n]) with
    | some node => exact ⟨node, rfl⟩
    | none =>
      have hloc := locate_child_follow hc hb (hn n (by simp)) fun a target hl =>
        nomatch hget.symm.trans hl
      obtain ⟨a, l, hdir⟩ := hd.dir
      rw [hd.locate] at hloc
      rw [Except.ok.inj hloc, hget] at hdir
      cases hdir

/-! ## One directory -/

theorem childName_eq_some {p q : Path} : childName p q = some n ↔ q = p ++ [n] := by
  unfold childName
  constructor
  · intro h
    split at h
    · rename_i hp
      have hne : q ≠ [] := by
        rintro rfl
        cases h
      rw [← hp, ← List.dropLast_append_getLast hne]
      rw [List.getLast?_eq_some_getLast hne] at h
      simpa using Option.some.inj h
    · cases h
  · rintro rfl
    simp

theorem mem_names {p : Path} : n ∈ PosixTree.names t p ↔ t.get (p ++ [n]) ≠ none := by
  unfold PosixTree.names
  simp only [List.mem_filterMap, childName_eq_some, exists_eq_right]
  exact PosixTree.Tree.mem_keys

theorem listdir_leads (hd : Leads t d c) (hl : Listable t c) :
    listdir t d = .ok (PosixTree.names t c) := by
  obtain ⟨a, hget⟩ := hl
  unfold listdir
  simp [bind, Except.bind, hd.locate, hget]

theorem listable_of_listdir {ns : List Name} (hd : Leads t d c) (h : listdir t d = .ok ns) :
    Listable t c ∧ ns = PosixTree.names t c := by
  obtain ⟨a, l, hget⟩ := hd.dir
  unfold listdir at h
  simp only [bind, Except.bind, hd.locate, hget] at h
  cases l with
  | true => exact ⟨⟨a, hget⟩, (Except.ok.inj h).symm⟩
  | false => cases h

/-- A directory that is no link stands at its name. -/
theorem dirAt_child (hc : DirClosed t) (hd : Leads t d c) (hn : ValidName n) :
    (isdir t (d ++ [n]) = true ∧ islink t (d ++ [n]) = false) ↔ DirAt t (c ++ [n]) := by
  rw [islink_child hc hd hn]
  constructor
  · rintro ⟨hdir, hlink⟩
    have hloc := locate_child_follow hc hd hn fun a target hl => by simp [hl, Node.isLink] at hlink
    obtain ⟨p, hp⟩ := Leads.of_isdir hdir
    rw [hp.locate] at hloc
    exact Except.ok.inj hloc ▸ hp.dir
  · intro h
    refine ⟨(leads_child hc hd hn h).isdir, ?_⟩
    obtain ⟨a, l, hget⟩ := h
    simp [hget, Node.isLink]

theorem fileEntry_child (hc : DirClosed t) (hd : Leads t d c) (hn : ValidName n) {node : Node γ}
    (hget : t.get (c ++ [n]) = some node) (he : rpExcluded cfg (d ++ [n]) = false) :
    fileEntry cfg t (d ++ [n]) = objectEntry cfg (d ++ [n]) node := by
  unfold fileEntry
  rw [he, lstat_child hc hd hn, hget]
  rcases node with _ | ⟨a, body, _ | _⟩ | _ | _ <;> rfl

/-! ## What the walk records -/

/-- An entry for a directory the walk enters, or for an object in one. -/
inductive Recorded (cfg : Settings γ) (t : PosixTree.Tree γ) (roots : List Path) : Entry → Prop where
  | dir {d c : Path} {node : Node γ} : Captured cfg t roots d c → lstat t d = .ok node →
      Recorded cfg t roots (dirEntry d node)
  | object {d c : Path} {n : Name} {node : Node γ} {e : Entry} : Captured cfg t roots d c →
      t.get (c ++ [n]) = some node → isdir t (d ++ [n]) = false →
      rpExcluded cfg (d ++ [n]) = false → objectEntry cfg (d ++ [n]) node = some e →
      Recorded cfg t roots e

theorem recorded_of_walkBelow (wf : WellFormed t) {k : ℕ} (hd : Leads t d c)
    (hcap : Listable t c → Captured cfg t roots d c) (h : e ∈ walkBelow cfg t k d) :
    Recorded cfg t roots e := by
  induction k generalizing d c with
  | zero => cases h
  | succ k ih =>
    unfold walkBelow at h
    split at h
    · cases h
    · rename_i ns hlist
      obtain ⟨hl, rfl⟩ := listable_of_listdir hd hlist
      have hcap := hcap hl
      rcases List.mem_append.mp h with h | h
      · split at h
        · rename_i node hnode
          rcases List.mem_cons.mp h with rfl | h
          · exact .dir hcap hnode
          · obtain ⟨n, hn, he⟩ := List.mem_filterMap.mp h
            obtain ⟨hn, hdir⟩ := List.mem_filter.mp hn
            obtain ⟨child, hget⟩ := Option.ne_none_iff_exists'.mp (mem_names.mp hn)
            have hex : rpExcluded cfg (d ++ [n]) = false := by
              by_contra hex
              simp [fileEntry, hex] at he
            rw [fileEntry_child wf.dirClosed hd (wf.names c n (mem_names.mp hn)) hget hex] at he
            exact .object hcap hget (by simpa using hdir) hex he
        · cases h
      · obtain ⟨n, hn, h⟩ := List.mem_flatMap.mp h
        obtain ⟨hn, hrest⟩ := List.mem_filter.mp hn
        obtain ⟨hn, hdir⟩ := List.mem_filter.mp hn
        simp only [Bool.and_eq_true, Bool.not_eq_true'] at hrest
        have hvalid := wf.names c n (mem_names.mp hn)
        have hchild := (dirAt_child wf.dirClosed hd hvalid).mp ⟨hdir, hrest.2⟩
        exact ih (leads_child wf.dirClosed hd hvalid hchild)
          (fun hlc => .child hcap hlc hrest.1) h

theorem recorded_of_rpWalk (wf : WellFormed t) (h : e ∈ rpWalk cfg t roots) :
    Recorded cfg t roots e := by
  obtain ⟨r, hr, h⟩ := List.mem_flatMap.mp h
  obtain ⟨hr, hok⟩ := List.mem_filter.mp hr
  simp only [Bool.and_eq_true, Bool.not_eq_true'] at hok
  cases hlist : listdir t r with
  | error err =>
    unfold walkBelow depth at h
    simp [hlist] at h
  | ok ns =>
    have hdir : isdir t r = true := by
      unfold listdir at hlist
      cases hloc : locate t true r with
      | error err => simp [bind, Except.bind, hloc] at hlist
      | ok c =>
        refine isdir_iff.mpr ⟨c, hloc, ?_⟩
        simp only [bind, Except.bind, hloc] at hlist
        split at hlist
        · rename_i a hget
          exact ⟨a, true, hget⟩
        · cases hlist
        · cases hlist
        · cases hlist
    obtain ⟨c, hd⟩ := Leads.of_isdir hdir
    exact recorded_of_walkBelow wf hd (fun hl => .root hr hok.1 hd hl) h

/-! ## Nothing is left out below the bound -/

theorem length_lt_depth {p : Path} (h : t.get p ≠ none) : p.length < depth t := by
  have hmem : p ∈ t.nodes.keys := PosixTree.Tree.mem_keys.mpr h
  have hle : ∀ l : List ℕ, p.length ∈ l → p.length ≤ l.foldr max 0 := by
    intro l hl
    induction l with
    | nil => cases hl
    | cons x l ih =>
      rcases List.mem_cons.mp hl with rfl | hl
      · exact le_max_left _ _
      · exact (ih hl).trans (le_max_right _ _)
  exact Nat.lt_succ_of_le (hle _ (List.mem_map_of_mem hmem))

/-- The walk goes on below every directory it enters, with levels to spare. -/
theorem Captured.walk (h : Captured cfg t roots d c) (wf : WellFormed t) :
    ∃ k, depth t ≤ k + 1 + c.length ∧ walkBelow cfg t (k + 1) d ⊆ rpWalk cfg t roots := by
  induction h with
  | @root r c hr he hd hl =>
    refine ⟨depth t - 1, by unfold depth; omega, ?_⟩
    intro e hmem
    refine List.mem_flatMap.mpr ⟨r, ?_, hmem⟩
    simp [hr, he, pathExists_of_isdir hd.isdir]
  | @child d c n hcap hl he ih =>
    obtain ⟨k, hk, hsub⟩ := ih
    obtain ⟨a, hget⟩ := hl
    have hlt : (c ++ [n]).length < depth t := length_lt_depth (by simp [hget])
    rw [List.length_append, List.length_singleton] at hlt ⊢
    obtain ⟨k, rfl⟩ : ∃ m, k = m + 1 := ⟨k - 1, by omega⟩
    refine ⟨k, by omega, ?_⟩
    intro e hmem
    apply hsub
    have hd := hcap.leads wf
    have hvalid := wf.names c n (by simp [hget])
    obtain ⟨hdir, hlink⟩ := (dirAt_child wf.dirClosed hd hvalid).mpr ⟨a, true, hget⟩
    rw [walkBelow, listdir_leads hd hcap.listable]
    refine List.mem_append_right _ (List.mem_flatMap.mpr ⟨n, ?_, hmem⟩)
    simp [mem_names, hget, hdir, hlink, he]

theorem Captured.dir_mem (h : Captured cfg t roots d c) (wf : WellFormed t)
    (hroots : ∀ r ∈ roots, ∀ n ∈ r, ValidName n) :
    ∃ node : Node γ, dirEntry d node ∈ rpWalk cfg t roots := by
  obtain ⟨k, -, hsub⟩ := h.walk wf
  obtain ⟨node, hnode⟩ := lstat_of_leads (h.leads wf) wf.dirClosed (h.names wf hroots)
  refine ⟨node, hsub ?_⟩
  rw [walkBelow, listdir_leads (h.leads wf) h.listable]
  simp [hnode]

theorem Captured.object_mem (h : Captured cfg t roots d c) (wf : WellFormed t)
    (hroots : ∀ r ∈ roots, ∀ n ∈ r, ValidName n) {node : Node γ}
    (hget : t.get (c ++ [n]) = some node) (hdir : isdir t (d ++ [n]) = false)
    (hex : rpExcluded cfg (d ++ [n]) = false) (he : objectEntry cfg (d ++ [n]) node = some e) :
    e ∈ rpWalk cfg t roots := by
  obtain ⟨k, -, hsub⟩ := h.walk wf
  obtain ⟨own, hown⟩ := lstat_of_leads (h.leads wf) wf.dirClosed (h.names wf hroots)
  apply hsub
  have hvalid := wf.names c n (by simp [hget])
  rw [walkBelow, listdir_leads (h.leads wf) h.listable]
  refine List.mem_append_left _ ?_
  rw [hown]
  refine List.mem_cons_of_mem _ (List.mem_filterMap.mpr ⟨n, ?_, ?_⟩)
  · simp [mem_names, hget, hdir]
  · rw [fileEntry_child wf.dirClosed (h.leads wf) hvalid hget hex, he]

end RestorePoint
