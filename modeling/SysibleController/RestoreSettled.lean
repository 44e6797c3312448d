import SysibleController.RestoreEntry
import SysibleController.RestoreWalk

/-! What a restored entry is, on whatever machine `L` it is applied to, and which modes and owners
the apply can put back: those that the directories settle to. -/
namespace FlashbackRestore

open AtomicSteps Prog EarlyExit PosixTree RestorePoint

variable {γ : Type}

/-- The live path is what the entry says. -/
def Restored (cfg : RestorePoint.Settings γ) (u : PosixTree.Tree γ) (e : Entry) : Prop :=
  ∃ node, lstat u e.path = .ok node ∧
    match e.payload, node with
    | .dir, .dir a _ => a = ⟨e.mode, e.uid, e.gid⟩
    | .link target, .link a target' => target' = target ∧ a.mode = e.mode
    | .file _ sha256, .file a body _ => a = ⟨e.mode, e.uid, e.gid⟩ ∧ cfg.sha256 body = sha256
    | _, _ => False

/-- The group a directory hands on to what is made in it. -/
def groupBelow (a : Attrs) : ℕ := if a.mode.testBit 10 then a.gid else 0

def dirEntryAt (M : List Entry) (p : Path) : Option Entry :=
  M.find? fun e => e.isDir && decide (e.path = p)

/-- The group the directory at a reversed path hands on, where a captured directory is as its
entry says and a missing one has been made. -/
def handsOn (L : PosixTree.Tree γ) (M : List Entry) : List Name → ℕ
  | [] => groupBelow (attrsOf L [])
  | n :: rev =>
    match dirEntryAt M (n :: rev).reverse, L.get (n :: rev).reverse with
    | some e, _ => groupBelow ⟨e.mode, e.uid, e.gid⟩
    | none, some (.dir a _) => groupBelow a
    | none, _ => handsOn L M rev

/-- The modes and owners an apply can put back: no mode 0, and only owners that a directory has
on the machine already or gets when root makes it. The root of the tree is never touched. -/
structure Restorable (L : PosixTree.Tree γ) (M : List Entry) : Prop where
  files : ∀ e ∈ M, ∀ size sha, e.payload = .file size sha → e.mode ≠ 0
  root : ∀ e ∈ M, e.isDir = true → e.path = [] → attrsOf L [] = ⟨e.mode, e.uid, e.gid⟩
  dirs : ∀ e ∈ M, e.isDir = true → e.path ≠ [] → e.mode ≠ 0 ∧
    match L.get e.path with
    | some (.dir a _) => a.uid = e.uid ∧ a.gid = e.gid
    | _ => 0 = e.uid ∧ handsOn L M e.path.reverse.tail = e.gid

/-- Nothing in the way: no link on the path of a captured directory, no link or device at the
temporary name of a file, and no entry inside the job. -/
structure Unobstructed (L : PosixTree.Tree γ) (M : List Entry) (job : Path) : Prop where
  links : ∀ e ∈ M, e.isDir = true → ∀ s, s <+: e.path → ∀ a target,
    L.get s ≠ some (.link a target)
  temporary : ∀ e ∈ M, ∀ size sha, e.payload = .file size sha → ∀ a,
    (∀ target, L.get (sysibleNew e.path) ≠ some (.link a target)) ∧
      L.get (sysibleNew e.path) ≠ some (.special a .device)
  apart : ∀ e ∈ M, ¬ job <+: e.path

/-- The manifest `M` is staged in the directory `job` of `L`. -/
structure Prepared (cfg : RestorePoint.Settings γ) (codec : Codec γ) (L : PosixTree.Tree γ)
    (M : List Entry) (job : Path) : Prop where
  wf : WellFormed L
  dir : DirAt L job
  nonroot : job ≠ []
  manifest : ∃ a m, L.get (job ++ ["manifest.json"]) = some (.file a m true) ∧
    codec.manifest m = some M
  tree : ∀ e ∈ M, ∀ size sha, e.payload = .file size sha →
    ∃ a body, L.get (job ++ "tree" :: e.path) = some (.file a body true) ∧ cfg.sha256 body = sha
  only : ∀ n, L.get (job ++ [n]) ≠ none → n = "READY" ∨ n = "manifest.json" ∨ n = "tree"

/-! ## The manifest of a walk -/

/-- What the apply relies on in a manifest. -/
structure Manifest (M : List Entry) : Prop where
  unique : ∀ e ∈ M, ∀ e' ∈ M, e.path = e'.path → e = e'
  parent : ∀ e ∈ M, e.isDir = false → ∃ d n p, e.path = d ++ [n] ∧ p ∈ M ∧ p.isDir = true ∧
    p.path = d
  names : ∀ e ∈ M, ∀ n ∈ e.path, ValidName n
  links : ∀ e ∈ M, ∀ target, e.payload = .link target → target ≠ "" ∧ e.mode = 0o777

variable {cfg : RestorePoint.Settings γ} {F L u v w : PosixTree.Tree γ}
  {roots : List Path} {M : List Entry} {job d p q : Path} {n : Name} {rev : List Name}
  {e : Entry} {host : Host}

theorem manifest_of_rpWalk (wf : WellFormed F) (hroots : ∀ r ∈ roots, ∀ n ∈ r, ValidName n) :
    Manifest (rpWalk cfg F roots) := by
  refine ⟨?_, ?_, ?_, ?_⟩
  · intro e he e' he' hpath
    cases recorded_of_rpWalk wf he with
    | @dir d c own hcap hown =>
      cases recorded_of_rpWalk wf he' with
      | @dir d' c' own' _ hown' =>
        obtain rfl : d = d' := hpath
        rw [hown] at hown'
        rw [Except.ok.inj hown']
      | @object d' c' n node _ _ _ hdir _ hobj =>
        obtain rfl : d = d' ++ [n] := hpath.trans (objectEntry_path hobj).1
        rw [(hcap.leads wf).isdir] at hdir
        cases hdir
    | @object d c n node _ hcap hF hdir _ hobj =>
      cases recorded_of_rpWalk wf he' with
      | @dir d' c' own' hcap' _ =>
        obtain rfl : d' = d ++ [n] := hpath.symm.trans (objectEntry_path hobj).1
        rw [(hcap'.leads wf).isdir] at hdir
        cases hdir
      | @object d' c' n' node' _ hcap' hF' _ _ hobj' =>
        rw [(objectEntry_path hobj).1, (objectEntry_path hobj').1] at hpath
        obtain ⟨rfl, hn⟩ := List.append_inj' hpath rfl
        obtain rfl := List.singleton_inj.mp hn
        obtain rfl := (hcap.leads wf).unique (hcap'.leads wf)
        obtain rfl := Option.some.inj (hF.symm.trans hF')
        exact Option.some.inj (hobj.symm.trans hobj')
  · intro e he hnd
    cases recorded_of_rpWalk wf he with
    | dir _ _ => cases hnd
    | @object d c n node _ hcap _ _ _ hobj =>
      obtain ⟨own, hown⟩ := hcap.dir_mem wf hroots
      exact ⟨d, n, _, (objectEntry_path hobj).1, hown, rfl, rfl⟩
  · intro e he
    cases recorded_of_rpWalk wf he with
    | dir hcap _ => exact hcap.names wf hroots
    | @object d c n node _ hcap hF _ _ hobj =>
      rw [(objectEntry_path hobj).1]
      intro m hm
      rcases List.mem_append.mp hm with hm | hm
      · exact hcap.names wf hroots m hm
      · exact List.mem_singleton.mp hm ▸ wf.names c n (by simp [hF])
  · intro e he target hp
    cases recorded_of_rpWalk wf he with
    | dir _ _ => cases hp
    | @object d c n node _ _ hF _ _ hobj =>
      rcases node with _ | ⟨a, body, _ | _⟩ | ⟨a, target'⟩ | _
      · cases hobj
      · cases hobj
      · simp only [objectEntry] at hobj
        split at hobj
        · cases hobj
        · obtain rfl := Option.some.inj hobj
          cases hp
      · obtain rfl := Option.some.inj hobj
        obtain rfl := Payload.link.inj hp
        exact ⟨wf.targets _ a _ hF, rfl⟩
      · cases hobj

theorem dirEntryAt_eq (hunique : ∀ e' ∈ M, e'.path = e.path → e' = e) (he : e ∈ M)
    (hd : e.isDir = true) : dirEntryAt M e.path = some e := by
  unfold dirEntryAt
  cases hfind : M.find? fun x => x.isDir && decide (x.path = e.path) with
  | none =>
    have := List.find?_eq_none.mp hfind e he
    simp [hd] at this
  | some e' =>
    have hprop := List.find?_some hfind
    simp only [Bool.and_eq_true, decide_eq_true_eq] at hprop
    rw [hunique e' (List.mem_of_find?_eq_some hfind) hprop.2]

theorem mem_of_dirEntryAt (h : dirEntryAt M p = some e) :
    e ∈ M ∧ e.isDir = true ∧ e.path = p := by
  have hprop := List.find?_some h
  simp only [Bool.and_eq_true, decide_eq_true_eq] at hprop
  exact ⟨List.mem_of_find?_eq_some h, hprop⟩

/-! ## The attributes of directories -/

/-- The attributes of a directory that is there, or else those of the new one. -/
def ownOr (node : Option (Node γ)) (new : Attrs) : Attrs :=
  match node with
  | some (.dir a _) => a
  | _ => new

/-- The attributes of the directory at a reversed path once all directory entries are put back. -/
def settled (host : Host) (L : PosixTree.Tree γ) (M : List Entry) : List Name → Attrs
  | [] => attrsOf L []
  | n :: rev =>
    let a := ownOr (L.get (n :: rev).reverse) (newDir host (settled host L M rev))
    match dirEntryAt M (n :: rev).reverse with
    | some e => { a with mode := orDefault e.mode 0o755 }
    | none => a

/-- A new directory hands on what its parent does. -/
theorem groupBelow_newDir (host : Host) (a : Attrs) :
    groupBelow (newDir host a) = groupBelow a := by
  unfold groupBelow newDir
  have hle : 0o777 - (0o777 &&& host.umask) ≤ 511 := Nat.sub_le _ _
  cases hbit : a.mode.testBit 10 with
  | false =>
    have hlow : (0o777 - (0o777 &&& host.umask)).testBit 10 = false :=
      Nat.testBit_lt_two_pow (hle.trans_lt (by decide))
    simp [hlow]
  | true =>
    have hhigh : (0o777 - (0o777 &&& host.umask) + 0o2000).testBit 10 = true := by
      rw [Nat.testBit_eq_decide_div_mod_eq, decide_eq_true_eq]
      omega
    simp [hhigh]

theorem orDefault_eq {mode default : ℕ} (hd : default ≠ 0) :
    orDefault mode default = mode ↔ mode ≠ 0 := by
  unfold orDefault
  split_ifs with h
  · simp [h, hd]
  · simp [h]

/-- The clause of `Restorable` for one directory. -/
theorem settled_eq_iff (hM : Manifest M) (he : e ∈ M) (hd : e.isDir = true) (hp : e.path ≠ [])
    (hbelow : groupBelow (settled host L M e.path.reverse.tail) = handsOn L M e.path.reverse.tail) :
    settled host L M e.path.reverse = ⟨e.mode, e.uid, e.gid⟩ ↔ e.mode ≠ 0 ∧
      match L.get e.path with
      | some (.dir a _) => a.uid = e.uid ∧ a.gid = e.gid
      | _ => 0 = e.uid ∧ handsOn L M e.path.reverse.tail = e.gid := by
  have hentry := dirEntryAt_eq (fun e' he' => hM.unique e' he' e he) he hd
  obtain ⟨s, n, hs⟩ := (List.eq_nil_or_concat' e.path).resolve_left hp
  have hrev : e.path.reverse = n :: s.reverse := by simp [hs]
  rw [← List.reverse_reverse e.path, hrev] at hentry
  rw [← hbelow]
  have hown : L.get e.path = L.get (n :: s.reverse).reverse := by rw [← hrev, List.reverse_reverse]
  rw [hown, hrev]
  simp only [settled, hentry, List.tail_cons, Attrs.mk.injEq, orDefault_eq (show 0o755 ≠ 0 by decide)]
  rcases L.get (n :: s.reverse).reverse with _ | ⟨a, l⟩ | _ | _ | _ <;>
    simp [ownOr, newDir, groupBelow]

theorem handsOn_cons
    (hentry : ∀ e ∈ M, e.isDir = true → e.path.reverse = n :: rev →
      settled host L M e.path.reverse = ⟨e.mode, e.uid, e.gid⟩)
    (hbelow : groupBelow (settled host L M rev) = handsOn L M rev) :
    groupBelow (settled host L M (n :: rev)) = handsOn L M (n :: rev) := by
  cases hfind : dirEntryAt M (n :: rev).reverse with
  | some e =>
    obtain ⟨he, hd, hpath⟩ := mem_of_dirEntryAt hfind
    have := hentry e he hd (by rw [hpath, List.reverse_reverse])
    rw [hpath, List.reverse_reverse] at this
    rw [this, handsOn, hfind]
  | none =>
    simp only [settled, handsOn, hfind]
    rcases L.get (n :: rev).reverse with _ | ⟨a, l⟩ | _ | _ | _ <;>
      simp [ownOr, groupBelow_newDir, hbelow]

theorem settled_of_restorable (hM : Manifest M) (h : Restorable L M) (rev : List Name) :
    groupBelow (settled host L M rev) = handsOn L M rev ∧ ∀ e ∈ M, e.isDir = true →
      e.path.reverse = rev → settled host L M e.path.reverse = ⟨e.mode, e.uid, e.gid⟩ := by
  induction rev with
  | nil =>
    refine ⟨rfl, ?_⟩
    intro e he hd hrev
    rw [hrev]
    exact h.root e he hd (by simpa using hrev)
  | cons n rev ih =>
    have hentry : ∀ e ∈ M, e.isDir = true → e.path.reverse = n :: rev →
        settled host L M e.path.reverse = ⟨e.mode, e.uid, e.gid⟩ := by
      intro e he hd hrev
      have hp : e.path ≠ [] := by
        intro hp
        simp [hp] at hrev
      refine (settled_eq_iff hM he hd hp ?_).mpr (h.dirs e he hd hp)
      rw [hrev]
      exact ih.1
    exact ⟨handsOn_cons hentry ih.1, hentry⟩

/-- The directories can be put back as their entries say exactly if they settle so. -/
theorem restorable_iff_settled (hM : Manifest M)
    (hfiles : ∀ e ∈ M, ∀ size sha, e.payload = .file size sha → e.mode ≠ 0) :
    Restorable L M ↔ ∀ e ∈ M, e.isDir = true →
      settled host L M e.path.reverse = ⟨e.mode, e.uid, e.gid⟩ := by
  constructor
  · exact fun h e he hd => (settled_of_restorable hM h e.path.reverse).2 e he hd rfl
  · intro h
    have hbelow : ∀ rev, groupBelow (settled host L M rev) = handsOn L M rev := by
      intro rev
      induction rev with
      | nil => rfl
      | cons n rev ih => exact handsOn_cons (fun e he hd _ => h e he hd) ih
    refine ⟨hfiles, ?_, ?_⟩
    · intro e he hd hp
      have := h e he hd
      rw [hp] at this
      exact this
    · exact fun e he hd hp => (settled_eq_iff hM he hd hp (hbelow _)).mp (h e he hd)

/-- Only the entries on the way matter. -/
theorem settled_congr {D D' : List Entry}
    (h : ∀ s, s ≠ [] → s <+: rev.reverse → dirEntryAt D s = dirEntryAt D' s) :
    settled host L D rev = settled host L D' rev := by
  induction rev with
  | nil => rfl
  | cons n rev ih =>
    have hrest : settled host L D rev = settled host L D' rev :=
      ih fun s hne hs => h s hne (hs.trans (by simp))
    simp only [settled, h _ (by simp) (List.prefix_refl _), hrest]

/-- Of a directory that was there, only its own entry. -/
theorem settled_congr_of_dir {D D' : List Entry} (hq : DirAt L q)
    (h : dirEntryAt D q = dirEntryAt D' q) :
    settled host L D q.reverse = settled host L D' q.reverse := by
  obtain ⟨a, l, hget⟩ := hq
  rcases List.eq_nil_or_concat' q with rfl | ⟨s, n, rfl⟩
  · rfl
  · have hrev : (s ++ [n]).reverse = n :: s.reverse := by simp
    have hback : (n :: s.reverse).reverse = s ++ [n] := by simp
    simp only [hrev, settled, hback, hget, h, ownOr]

end FlashbackRestore
