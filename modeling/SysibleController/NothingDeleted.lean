import SysibleController.AlikeTrees
import SysibleController.RestoreFaithful
import SysibleController.RestoreUnchanged
import Mathlib.Logic.Relation

/-! Nothing is deleted, only displaced: what an apply on a live machine leaves of the objects
that its restore point knows nothing of, and what later applies leave of the displaced ones. -/
namespace FlashbackRestore

open AtomicSteps Prog EarlyExit PosixTree RestorePoint

variable {γ : Type} {δ : Type} {t u v : PosixTree.Tree γ} {node : Node γ} {p q : Path}
  {X : Path → Prop} {host : Host} {job : Path} {entries : List Entry} {codec : Codec γ}

/-- An object of this kind, with this content or target, is at `q`. -/
def Stands (u : PosixTree.Tree γ) (q : Path) (node : Node γ) : Prop :=
  (u.get q).map bare = some (bare node)

/-- What the point has an entry for, and the apply's own: the trigger and the report. -/
def Exempt (entries : List Entry) (job q : Path) : Prop :=
  q ∈ entries.map Entry.path ∨ q = systemUpdateLink ∨ q = job ++ ["result.json"]

/-- Every object of `t` that is not exempt is unchanged in `u` or displaced in `v`, and what was
displaced in `t` still is in `v`. -/
structure NothingLost (entries : List Entry) (job : Path) (t u v : PosixTree.Tree γ) : Prop where
  objects : ∀ q node, t.get q = some node → node.isDir = false → ¬ Exempt entries job q →
    u.get q = some node ∨ Stands v (job ++ "displaced" :: q) node
  displaced : ∀ q node, t.get (job ++ "displaced" :: q) = some node → node.isDir = false →
    v.get (job ++ "displaced" :: q) = some node

/-! ## What destroys nothing -/

/-- The path leads to nothing, to a directory or to what is exempt. -/
def Vacant (X : Path → Prop) (t : PosixTree.Tree γ) (f : Bool) (p : Path) : Prop :=
  ∀ q node, locate t f p = .ok q → t.get q = some node → node.isDir = false → X q

/-- With the directories there, a link replaces nothing; nor does a file or its copy. -/
def EntryHarmless (X : Path → Prop) (host : Host) (job : Path) (e : Entry)
    (t : PosixTree.Tree γ) : Prop :=
  match e.payload with
  | .dir => True
  | .link _ => Sat (makedirs host e.path.dropLast) t (fun _ u => Vacant X u false e.path)
      fun _ _ => True
  | .file _ _ => Sat (makedirs host e.path.dropLast) t (fun _ u =>
      Sat (copyfile host (job ++ "tree" :: e.path) (sysibleNew e.path)) u
        (fun _ _ => (∀ f, Vacant X u f (sysibleNew e.path)) ∧ Vacant X u false e.path)
        fun _ _ => True) fun _ _ => True

/-- What an extra's path leads to can be moved: its displaced name is free and leads to itself,
the path leads to itself, and no link has to cross devices. -/
structure Movable (X : Path → Prop) (host : Host) (job p : Path) (t : PosixTree.Tree γ)
    (s : Path) (node : Node γ) : Prop where
  name : locate t false (job ++ "displaced" :: p) = .ok (job ++ "displaced" :: p)
  free : t.get (job ++ "displaced" :: p) = none
  straight : ¬ X s → s = p ∧ ¬ job ++ ["displaced"] <+: p
  device : ¬ X s → node.isLink = true →
    host.device s.dropLast = host.device (job ++ "displaced" :: p).dropLast

def ExtraHarmless (X : Path → Prop) (host : Host) (job p : Path) (t : PosixTree.Tree γ) : Prop :=
  Sat (makedirs host (job ++ "displaced" :: p.dropLast)) t (fun _ u => ∀ s node,
    locate u false p = .ok s → u.get s = some node → node.isDir = false →
      Movable X host job p u s node) fun _ _ => True

/-- The state in which the manifest is read. -/
def disarmed (t : PosixTree.Tree γ) : PosixTree.Tree γ := (disarm systemUpdateLink).run t |>.final

/-- The job is the point's, and no step of an apply from `t` on has anything to destroy. -/
structure Harmless (host : Host) (job : Path) (codec : Codec γ) (entries : List Entry)
    (removeExtras : Bool) (t : PosixTree.Tree γ) : Prop where
  manifest : ∀ m es, readFile (disarmed t) (job ++ ["manifest.json"]) = .ok m →
    codec.manifest m = some es → es = entries
  restoring : Throughout (EntryHarmless (Exempt entries job) host job)
    (applyEntry (δ := Raised) host job) (sortEntries entries) ⟨0, 0, []⟩ (disarmed t)
  displacing : removeExtras = true →
    Sat ((sortEntries entries).foldlM (applyEntry (δ := Raised) host job) ⟨0, 0, []⟩) (disarmed t)
      (fun out u => Throughout (ExtraHarmless (Exempt entries job) host job)
        (displaceExtra (δ := Raised) host job)
        ((extrasUnder u entries).insertionSort fun p q => text q ≤ text p) out u) fun _ _ => True
  report : Vacant (Exempt entries job)
    ((restoreTree (δ := Raised) host job entries removeExtras).run (disarmed t)).final true
    (job ++ ["result.json"])

/-- Applies of the same job to a live machine that changes nothing displaced meanwhile. -/
inductive Act (host : Host) (job : Path) (codec : Codec γ) (entries : List Entry) :
    PosixTree.Tree γ → PosixTree.Tree γ → Prop
  | apply (removeExtras : Bool) (t : PosixTree.Tree γ)
      (h : Harmless host job codec entries removeExtras t) :
      Act host job codec entries t
        ((applyStaged host job codec systemUpdateLink removeExtras).run t).final
  | live (t u : PosixTree.Tree γ) (h : ∀ q node, t.get (job ++ "displaced" :: q) = some node →
      node.isDir = false → u.get (job ++ "displaced" :: q) = some node) :
      Act host job codec entries t u

/-! ## Preorders on trees -/

theorem Stands.get (h : Stands u q node) (hnode : node.isDir = false) :
    ∃ own, u.get q = some own ∧ own.isDir = false ∧ bare own = bare node := by
  obtain ⟨own, hget, hown⟩ := Option.map_eq_some_iff.mp h
  refine ⟨own, hget, ?_, hown⟩
  have := congrArg Node.isDir hown
  unfold bare at this
  rwa [isDir_setAttrs, isDir_setAttrs, hnode] at this

theorem Stands.of_bare {own : Node γ} (h : Stands u q own) (hown : bare own = bare node) :
    Stands u q node := by
  unfold Stands at h ⊢
  rw [h, hown]

theorem stands_of_get (h : u.get q = some node) : Stands u q node := by
  unfold Stands
  rw [h]
  rfl

/-- Every object outside `X` is unchanged in its place. -/
def Spares (X : Path → Prop) (t u : PosixTree.Tree γ) : Prop :=
  ∀ q node, t.get q = some node → node.isDir = false → ¬ X q → u.get q = some node

theorem Spares.refl (X : Path → Prop) (t : PosixTree.Tree γ) : Spares X t t :=
  fun _ _ h _ _ => h

theorem Spares.trans (h : Spares X t u) (k : Spares X u v) : Spares X t v :=
  fun q node hget hnode hX => k q node (h q node hget hnode hX) hnode hX

/-- In `t` there is no object at `q` that must be spared. -/
def Open (X : Path → Prop) (t : PosixTree.Tree γ) (q : Path) : Prop :=
  ∀ node, t.get q = some node → node.isDir = false → X q

theorem open_of_none (h : t.get q = none) : Open X t q :=
  fun _ hget _ => nomatch h.symm.trans hget

theorem open_of_dir (h : DirAt t q) : Open X t q := by
  obtain ⟨a, l, hdir⟩ := h
  intro own hget hown
  obtain rfl := Option.some.inj (hget.symm.trans hdir)
  cases hown

theorem Vacant.at {f : Bool} (h : Vacant X t f p) (hq : locate t f p = .ok q) : Open X t q :=
  fun node => h q node hq

theorem Spares.put (h : Spares X t u) (hq : Open X t q) : Spares X t (u.put q node) := by
  intro r own hget hown hX
  rw [Tree.get_put, if_neg]
  · exact h r own hget hown hX
  · rintro rfl
    exact hX (hq own hget hown)

theorem Spares.drop (h : Spares X t u) (hq : Open X t q) : Spares X t (u.drop q) := by
  intro r own hget hown hX
  rw [Tree.get_drop, if_neg]
  · exact h r own hget hown hX
  · rintro rfl
    exact hX (hq own hget hown)

/-- Every object outside `X` is unchanged, or displaced unless it already was. -/
def Displaces (X : Path → Prop) (job : Path) (t u : PosixTree.Tree γ) : Prop :=
  ∀ q node, t.get q = some node → node.isDir = false → ¬ X q → u.get q = some node ∨
    ¬ job ++ ["displaced"] <+: q ∧ Stands u (job ++ "displaced" :: q) node

theorem Spares.displaces (h : Spares X t u) : Displaces X job t u :=
  fun q node hget hnode hX => .inl (h q node hget hnode hX)

theorem below_displaced (job q : Path) : job ++ ["displaced"] <+: job ++ "displaced" :: q :=
  ⟨q, by simp⟩

theorem Displaces.trans (hoff : ∀ q, ¬ X (job ++ "displaced" :: q)) (h : Displaces X job t u)
    (k : Displaces X job u v) : Displaces X job t v := by
  intro q node hget hnode hX
  rcases h q node hget hnode hX with hq | ⟨hbelow, hq⟩
  · exact k q node hq hnode hX
  · obtain ⟨own, hown, hdir, hbare⟩ := hq.get hnode
    rcases k _ own hown hdir (hoff q) with hstay | ⟨hnot, -⟩
    · exact .inr ⟨hbelow, (stands_of_get hstay).of_bare hbare⟩
    · exact absurd (below_displaced job q) hnot

/-! ## One entry -/

theorem keeps_mkdir_spares (X : Path → Prop) (p : Path) (t : PosixTree.Tree γ) :
    Keeps (Spares X t) (step (mkdir host p) : FsM γ Unit) := by
  refine keeps_step fun u v hu hv => ?_
  obtain ⟨r, a, -, hnone, rfl⟩ := mkdir_form hv
  exact hu.trans ((Spares.refl X u).put (open_of_none hnone))

/-- Making directories spares everything, whatever is to follow. -/
theorem sat_makedirs_then {Q : Unit → PosixTree.Tree γ → Prop}
    (h : Sat (makedirs host p) t Q fun _ _ => True) :
    Sat (makedirs host p) t (fun _ u => Spares X t u ∧ Q () u) fun _ u => Spares X t u := by
  have hkeeps : KeepsFrom (Spares X t) (makedirs host p : FsM γ Unit) t :=
    keeps_makedirs (fun q _ => keeps_mkdir_spares X q t) t (.refl X t)
  have hspares := hkeeps.2
  unfold Sat at h ⊢
  cases hr : ((makedirs host p : FsM γ Unit).run t).result with
  | ok a =>
    rw [hr] at h
    exact ⟨hspares, h⟩
  | error e => exact hspares

theorem sat_unlink_vacant (h : Vacant X t false p) :
    Sat (step (unlink p) : FsM γ Unit) t (fun _ => Spares X t) fun _ => Spares X t := by
  rw [sat_step]
  cases hu : unlink p t with
  | error e => exact .refl X t
  | ok u =>
    obtain ⟨q, node, hq, hget, hnode, rfl⟩ := unlink_form hu
    exact (Spares.refl X t).drop (h.at hq)

theorem sat_symlink {target : String} :
    Sat (step (symlink target p) : FsM γ Unit) t (fun _ => Spares X t) fun _ => Spares X t := by
  rw [sat_step]
  cases hu : symlink target p t with
  | error e => exact .refl X t
  | ok u =>
    obtain ⟨q, a, -, hnone, rfl⟩ := symlink_form hu
    exact (Spares.refl X t).put (open_of_none hnone)

theorem writeFile_spares {c : γ} (h : writeFile host p c t = .ok u) (hp : Vacant X t true p) :
    Spares X t u := by
  obtain ⟨q, hq, ⟨rfl, -⟩ | ⟨⟨a, rfl⟩, -⟩⟩ := writeFile_cases h
  · exact .refl X _
  · exact (Spares.refl X t).put (hp.at hq)

/-- A change of attributes where the path leads to nothing that must be spared. -/
theorem sat_setAttrs {call : PosixTree.Tree γ → Except Errno (PosixTree.Tree γ)}
    (hcall : ∀ {v}, call u = .ok v → ∃ q node a, locate u true p = .ok q ∧
      u.get q = some node ∧ v = u.put q (node.setAttrs a))
    (htu : Spares X t u) (halike : Alike u t) (hp : Vacant X t true p) :
    Sat (step call) u (fun _ v => Spares X t v ∧ Alike v t)
      fun _ v => Spares X t v ∧ Alike v t := by
  rw [sat_step]
  cases hv : call u with
  | error e => exact ⟨htu, halike⟩
  | ok v =>
    obtain ⟨q, node, a, hq, hget, rfl⟩ := hcall hv
    exact ⟨htu.put (hp.at (halike.locate hq)), (alike_setAttrs hget).symm.trans halike⟩

/-- The copy has been written: what is left is to take it to its name. -/
theorem sat_install {uid gid mode : ℕ} {tmp live : Path} (htu : Spares X t u) (halike : Alike u t)
    (htmp : ∀ f, Vacant X t f tmp) (hlive : Vacant X t false live) :
    Sat (do
      let _ ← attempt (step (chown tmp uid gid) : FsM γ Unit)
      step (chmod tmp mode)
      step (rename host tmp live)
      return 1 : FsM γ ℕ) u (fun _ => Spares X t) fun _ => Spares X t := by
  refine (sat_setAttrs chown_form htu halike (htmp true)).attempt_then ?_
  rintro v ⟨htv, hv⟩
  refine (sat_setAttrs chmod_form htv hv (htmp true)).mono (fun _ _ h => h) ?_ |>.bind ?_
  · exact fun _ _ h => h.1
  rintro - w ⟨htw, hw⟩
  rw [sat_bind, sat_step]
  cases hx : rename host tmp live w with
  | error e => exact htw
  | ok x =>
    obtain ⟨s, d, node, hs, hd, -, -, -, rfl⟩ := rename_form hx
    exact (htw.drop ((htmp false).at (hw.locate hs))).put (hlive.at (hw.locate hd))

theorem sat_makedirs_isdir {d : Path} {n : Name} : Sat (makedirs host (d ++ [n])) t
    (fun _ u => isdir u (d ++ [n]) = true) fun _ _ => True :=
  (ensures_makedirs (I := fun _ => True) (fun _ _ => keeps_step fun _ _ _ _ => trivial) trivial
    (fun _ _ _ => isdir_of_mkdir) fun _ _ h => h).2

theorem sat_restoreEntry {e : Entry} (hne : e.path ≠ []) (h : EntryHarmless X host job e t) :
    Sat (restoreEntry host job e) t (fun _ => Spares X t) fun _ => Spares X t := by
  unfold EntryHarmless at h
  unfold restoreEntry
  cases hp : e.payload with
  | dir =>
    simp only
    obtain hroot | ⟨d, n, hpath⟩ := List.eq_nil_or_concat' e.path
    · exact absurd hroot hne
    rw [hpath]
    refine (sat_makedirs_then (X := X) sat_makedirs_isdir).bind ?_
    rintro - u ⟨htu, hdir⟩
    obtain ⟨c, hc, hcdir⟩ := isdir_iff.mp hdir
    have hvacant : Vacant X u true (d ++ [n]) := by
      intro q own hq hget hown
      obtain rfl := Except.ok.inj (hc.symm.trans hq)
      exact open_of_dir hcdir own hget hown
    refine (sat_setAttrs chmod_form (.refl X u) (.refl u) hvacant).mono
      (fun _ _ h => h) ?_ |>.bind ?_
    · exact fun _ _ h => htu.trans h.1
    · exact fun _ _ h => htu.trans h.1
  | link target =>
    rw [hp] at h
    simp only
    refine (sat_makedirs_then (X := X) h).bind ?_
    rintro - u ⟨htu, hvacant⟩
    rw [sat_bind, sat_ask]
    have hlink : ∀ v, Spares X t v → Sat (do step (symlink target e.path); return 1 : FsM γ ℕ) v
        (fun _ => Spares X t) fun _ => Spares X t := by
      intro v hv
      exact sat_symlink.mono (fun _ _ h => hv.trans h) (fun _ _ h => hv.trans h) |>.bind
        fun _ _ h => h
    split_ifs
    · have hunlink := (sat_unlink_vacant hvacant).mono (fun _ _ h => htu.trans h)
        fun _ _ h => htu.trans h
      exact hunlink.bind fun _ v hv => hlink v hv
    · exact hlink u htu
  | file size sha =>
    rw [hp] at h
    simp only
    refine (sat_makedirs_then (X := X) h).bind ?_
    rintro - u ⟨htu, hcopy⟩
    refine (sat_copyfile_cases.and hcopy).mono (fun _ _ h => h) ?_ |>.bind ?_
    · rintro e v ⟨rfl, -⟩
      exact htu
    · rintro - v ⟨⟨c, -, hwrite⟩, htmp, hlive⟩
      exact (sat_install (writeFile_spares hwrite (htmp true)) (alike_writeFile hwrite).symm
        htmp hlive).mono (fun _ _ h => htu.trans h) fun _ _ h => htu.trans h

/-! ## One extra -/

/-- `rename` where the new name is free. -/
theorem rename_free {src dst d s : Path} (hs : locate t false src = .ok s)
    (hd : locate t false dst = .ok d) (hget : t.get s = some node) (hnode : node.isDir = false)
    (hfree : t.get d = none) : rename host src dst t =
      if host.device s.dropLast ≠ host.device d.dropLast then .error .xdev
      else .ok ((t.drop s).put d node) := by
  unfold rename
  rw [hs, hd]
  rcases node with _ | _ | _ | _
  · exact nomatch hnode
  all_goals simp [bind, Except.bind, hget, hfree]

/-- The copy reads what the path leads to, when followed. -/
theorem sat_copy2 {src dst : Path} (hdst : locate t false dst = .ok dst)
    (hfree : t.get dst = none) : Sat (copy2 host src dst) t
      (fun _ u => Spares X t u ∧ Alike t u ∧ ∃ q a c, locate t true src = .ok q ∧
        t.get q = some (.file a c true) ∧ Stands u dst (.file a c true))
      fun _ u => Spares X t u := by
  have hfollow : locate t true dst = .ok dst :=
    locate_follow hdst fun a target hl => nomatch hfree.symm.trans hl
  have hdir : isdir t dst = false := by
    rw [← Bool.not_eq_true, isdir_iff]
    rintro ⟨c, hc, a, l, hget⟩
    obtain rfl := Except.ok.inj (hfollow.symm.trans hc)
    exact nomatch hfree.symm.trans hget
  unfold copy2
  rw [sat_bind, sat_ask, hdir]
  refine sat_copyfile_cases.mono (fun _ _ h => h) ?_ |>.bind ?_
  · rintro e u rfl
    exact .refl X u
  · rintro - u ⟨c, hread, hwrite⟩
    obtain ⟨q, a, hq, hget⟩ := readFile_ok hread
    have halike := alike_writeFile hwrite
    obtain ⟨r, hr, ⟨-, b, hdevice⟩ | ⟨⟨b, rfl⟩, -⟩⟩ := writeFile_cases hwrite
    · obtain rfl := Except.ok.inj (hfollow.symm.trans hr)
      exact nomatch hfree.symm.trans hdevice
    obtain rfl := Except.ok.inj (hfollow.symm.trans hr)
    have hspares : Spares X t (t.put dst (.file b c true)) :=
      (Spares.refl X t).put (open_of_none hfree)
    rw [sat_bind, sat_query]
    cases stat (t.put dst (.file b c true)) src with
    | error e => exact hspares
    | ok own =>
      rw [ends_ok, if_neg Bool.false_ne_true, sat_step]
      cases hv : chmod dst own.attrs.mode (t.put dst (.file b c true)) with
      | error e => exact hspares
      | ok v =>
        obtain ⟨r, node, a', hr, hnode, rfl⟩ := chmod_form hv
        obtain rfl := Except.ok.inj (hfollow.symm.trans (halike.symm.locate hr))
        refine ⟨hspares.put (open_of_none hfree), halike.trans (alike_setAttrs hnode), q, a, c, hq,
          hget, ?_⟩
        rw [Tree.get_put, if_pos rfl] at hnode
        obtain rfl := Option.some.inj hnode
        unfold Stands
        rw [Tree.get_put, if_pos rfl]
        rfl

theorem displaces_rename {s : Path} (hs : t.get s = some node)
    (h : Movable X host job p t s node) :
    Displaces X job t ((t.drop s).put (job ++ "displaced" :: p) node) := by
  intro q own hget hown hX
  by_cases hq : q = s
  · subst hq
    obtain ⟨rfl, hbelow⟩ := h.straight hX
    obtain rfl := Option.some.inj (hs.symm.trans hget)
    exact .inr ⟨hbelow, stands_of_get (by rw [Tree.get_put, if_pos rfl])⟩
  · left
    rw [Tree.get_put, if_neg, Tree.get_drop, if_neg hq, hget]
    rintro rfl
    exact nomatch h.free.symm.trans hget

/-- The copy stands under the displaced name when the object goes. -/
theorem displaces_drop {s : Path} (hs : t.get s = some node) (h : Movable X host job p t s node)
    (hspares : Spares X t u) (hcopy : ¬ X s → Stands u (job ++ "displaced" :: p) node) :
    Displaces X job t (u.drop s) := by
  intro q own hget hown hX
  by_cases hq : q = s
  · subst hq
    obtain rfl := Option.some.inj (hs.symm.trans hget)
    obtain ⟨rfl, hbelow⟩ := h.straight hX
    refine .inr ⟨hbelow, ?_⟩
    unfold Stands
    rw [Tree.get_drop, if_neg]
    · exact hcopy hX
    · intro heq
      exact nomatch (heq ▸ h.free).symm.trans hget
  · left
    rw [Tree.get_drop, if_neg hq]
    exact hspares q own hget hown hX

/-- What can be read is no directory, followed or not. -/
theorem lstat_of_readFile {c : γ} (h : readFile t p = .ok c) : ∃ s node,
    locate t false p = .ok s ∧ t.get s = some node ∧ node.isDir = false := by
  obtain ⟨q, a, hq, hget⟩ := readFile_ok h
  obtain ⟨s, hs⟩ := locate_unfollowed hq
  by_cases hl : ∃ b target, t.get s = some (.link b target)
  · obtain ⟨b, target, hl⟩ := hl
    exact ⟨s, _, hs, hl, rfl⟩
  · have := locate_follow hs fun b target hget => hl ⟨b, target, hget⟩
    obtain rfl := Except.ok.inj (this.symm.trans hq)
    exact ⟨s, _, hs, hget, rfl⟩

theorem sat_copy_then_unlink {s : Path} {e : Errno} (hs : locate t false p = .ok s)
    (hget : t.get s = some node) (hnode : node.isDir = false)
    (h : Movable X host job p t s node)
    (hfail : rename host p (job ++ "displaced" :: p) t = .error e) :
    Sat (do copy2 host p (job ++ "displaced" :: p); step (unlink p) : FsM γ Unit) t
      (fun _ => Displaces X job t) fun _ => Displaces X job t := by
  refine (sat_copy2 (X := X) h.name h.free).mono (fun _ _ h => h) ?_ |>.bind ?_
  · exact fun _ _ h => h.displaces
  rintro - u ⟨hspares, halike, q, a, c, hq, hfile, hstands⟩
  rw [sat_step]
  cases hu : unlink p u with
  | error e' => exact hspares.displaces
  | ok v =>
    obtain ⟨s', node', hs', -, -, rfl⟩ := unlink_form hu
    obtain rfl := Except.ok.inj (hs.symm.trans (halike.symm.locate hs'))
    refine displaces_drop hget h hspares fun hX => ?_
    -- a link would not have had to cross devices, so the copy is one of the object itself
    have hl : node.isLink = false := by
      rw [← Bool.not_eq_true]
      intro hl
      rw [rename_free hs h.name hget hnode h.free, if_neg (not_not.mpr (h.device hX hl))] at hfail
      cases hfail
    have hfollow : locate t true p = .ok s := by
      refine locate_follow hs fun b target hlink => ?_
      obtain rfl := Option.some.inj (hget.symm.trans hlink)
      cases hl
    obtain rfl := Except.ok.inj (hfollow.symm.trans hq)
    obtain rfl := Option.some.inj (hget.symm.trans hfile)
    exact hstands

theorem sat_copy_nothing (h : ∀ c, readFile t p ≠ .ok c) (dst : Path) :
    Sat (do copy2 host p dst; step (unlink p) : FsM γ Unit) t
      (fun _ => Displaces X job t) fun _ => Displaces X job t := by
  unfold copy2
  rw [sat_bind, sat_bind, sat_ask]
  refine sat_copyfile_cases.mono (fun _ _ h => h) ?_ |>.bind ?_
  · rintro e u rfl
    exact (Spares.refl X u).displaces
  · rintro - u ⟨c, hread, -⟩
    exact absurd hread (h c)

theorem sat_displace (hoff : ∀ q, ¬ X (job ++ "displaced" :: q))
    (h : ExtraHarmless X host job p t) :
    Sat (displace host job p) t (fun _ => Displaces X job t) fun _ => Displaces X job t := by
  unfold displace
  refine (sat_makedirs_then (X := X) h).mono (fun _ _ h => h) (fun _ _ h => h.displaces) |>.bind ?_
  rintro - u ⟨htu, hmovable⟩
  have hnext : ∀ v, Displaces X job u v → Displaces X job t v :=
    fun v => htu.displaces.trans hoff
  rw [sat_bind, sat_attempt, sat_step]
  cases hr : rename host p (job ++ "displaced" :: p) u with
  | ok v =>
    obtain ⟨s, d, node, hs, hd, hget, hnode, -, rfl⟩ := rename_form hr
    have hm := hmovable s node hs hget hnode
    obtain rfl := Except.ok.inj (hm.name.symm.trans hd)
    exact hnext _ (displaces_rename hget hm)
  | error e =>
    rw [ends_error]
    refine Sat.mono ?_ (fun _ => hnext) fun _ => hnext
    by_cases hobject : ∃ s node, locate u false p = .ok s ∧ u.get s = some node ∧
        node.isDir = false
    · obtain ⟨s, node, hs, hget, hnode⟩ := hobject
      exact sat_copy_then_unlink hs hget hnode (hmovable s node hs hget hnode) hr
    · exact sat_copy_nothing (fun c hc => hobject (lstat_of_readFile hc)) _

/-! ## A whole apply -/

theorem Spares.final {ε α : Type} {R : PosixTree.Tree γ → Prop} {m : Prog (PosixTree.Tree γ) ε α}
    (h : Sat m t (fun _ => R) fun _ => R) : R (m.run t).final := by
  unfold Sat at h
  cases hr : (m.run t).result <;> rw [hr] at h <;> exact h

theorem sat_of_final {ε α : Type} {m : Prog (PosixTree.Tree γ) ε α}
    {Q : α → PosixTree.Tree γ → Prop} (h : ∀ a, Q a (m.run t).final) :
    Sat m t Q fun _ _ => True := by
  unfold Sat
  cases (m.run t).result with
  | ok a => exact h a
  | error e => trivial

theorem sat_applyEntry_spares {out : Tally} {e : Entry} (h : EntryHarmless X host job e t) :
    Sat (applyEntry (δ := δ) host job out e) t (fun _ => Spares X t) fun _ => Spares X t := by
  unfold applyEntry
  split_ifs with hroot
  · exact .refl X t
  · rw [sat_bind, sat_attempt]
    exact sat_restoreEntry hroot h

theorem sat_displaceExtra_harmless {out : Tally} (hoff : ∀ q, ¬ X (job ++ "displaced" :: q))
    (h : ExtraHarmless X host job p t) : Sat (displaceExtra (δ := δ) host job out p) t
      (fun _ => Displaces X job t) fun _ => Displaces X job t := by
  unfold displaceExtra
  rw [sat_bind, sat_attempt]
  exact sat_displace hoff h

theorem off_displaced (hoff : ∀ e ∈ entries, ¬ job ++ ["displaced"] <+: e.path) (q : Path) :
    ¬ Exempt entries job (job ++ "displaced" :: q) := by
  rintro (hmem | hlink | hreport)
  · obtain ⟨e, he, heq⟩ := List.mem_map.mp hmem
    exact hoff e he (heq ▸ below_displaced job q)
  · have hlen := congrArg List.length hlink
    cases job with
    | nil => simp [systemUpdateLink] at hlink
    | cons n job => simp [systemUpdateLink] at hlen
  · simp at hreport

theorem vacant_of_exempt {f : Bool} (h : locate t f p = .ok q) (hX : X q) : Vacant X t f p := by
  intro r node hr _ _
  rwa [← Except.ok.inj (h.symm.trans hr)]

theorem vacant_trigger : Vacant (Exempt entries job) t false systemUpdateLink := by
  have hplace : locate t false ["system-update"] = .ok ([] ++ ["system-update"]) :=
    resolve_last (by decide) fun _ _ _ => rfl
  exact vacant_of_exempt hplace (.inr (.inl rfl))

theorem spares_disarmed : Spares (Exempt entries job) t (disarmed t) := by
  refine Spares.final (R := Spares (Exempt entries job) t) ?_
  unfold disarm
  rw [sat_bind, sat_ask]
  split_ifs
  · exact sat_unlink_vacant vacant_trigger
  · exact .refl _ t

theorem sat_disarm : Sat (attempt (disarm systemUpdateLink) : Prog (PosixTree.Tree γ) δ _) t
    (fun _ u => u = disarmed t) fun _ _ => False := by
  rw [sat_attempt]
  unfold Sat disarmed
  cases ((disarm systemUpdateLink).run t).result <;> rfl

variable (hoff : ∀ e ∈ entries, ¬ job ++ ["displaced"] <+: e.path) {removeExtras : Bool}

include hoff

theorem sat_restoreTree (h : Harmless host job codec entries removeExtras t) :
    Sat (restoreTree (δ := Raised) host job entries removeExtras) (disarmed t)
      (fun _ => Displaces (Exempt entries job) job (disarmed t))
      fun _ => Displaces (Exempt entries job) job (disarmed t) := by
  have hround : ∀ out e (u : PosixTree.Tree γ), EntryHarmless (Exempt entries job) host job e u →
      Sat (applyEntry (δ := Raised) host job out e) u (fun _ => Spares (Exempt entries job) u)
        fun _ => Spares (Exempt entries job) u := fun _ _ _ => sat_applyEntry_spares
  have hentries := h.restoring.sat (Spares.refl _) (fun _ _ _ => Spares.trans) hround
  unfold restoreTree
  cases removeExtras with
  | false =>
    refine (hentries.mono (fun _ _ h => h.displaces) ?_).bind fun _ _ h => h
    exact fun _ _ h => h.displaces
  | true =>
    refine (hentries.and (h.displacing rfl)).mono (fun _ _ h => h) ?_ |>.bind ?_
    · exact fun _ _ h => h.1.displaces
    rintro out u ⟨hspares, hextras⟩
    rw [if_pos rfl, sat_bind, sat_ask]
    have hround : ∀ out p (v : PosixTree.Tree γ), ExtraHarmless (Exempt entries job) host job p v →
        Sat (displaceExtra (δ := Raised) host job out p) v
          (fun _ => Displaces (Exempt entries job) job v)
          fun _ => Displaces (Exempt entries job) job v :=
      fun _ _ _ => sat_displaceExtra_harmless (off_displaced hoff)
    have hmoved := hextras.sat (fun v => (Spares.refl _ v).displaces)
      (fun _ _ _ => Displaces.trans (off_displaced hoff)) hround
    have hall := fun v => Displaces.trans (v := v) (off_displaced hoff) hspares.displaces
    exact hmoved.mono (fun _ => hall) fun _ => hall

/-- One apply displaces what it takes away. -/
theorem sat_applyStaged_harmless (h : Harmless host job codec entries removeExtras t) :
    Sat (applyStaged host job codec systemUpdateLink removeExtras) t
      (fun _ => Displaces (Exempt entries job) job t)
      fun _ => Displaces (Exempt entries job) job t := by
  have hdisarmed : Displaces (Exempt entries job) job t (disarmed t) := spares_disarmed.displaces
  unfold applyStaged
  rw [sat_bind, sat_forbid]
  split_ifs
  · exact (Spares.refl _ t).displaces
  refine (sat_disarm (δ := Raised)).mono (fun _ _ h => h) (fun _ _ h => h.elim) |>.bind ?_
  rintro - u rfl
  rw [sat_bind, sat_mapError, sat_query]
  cases hm : readFile (disarmed t) (job ++ ["manifest.json"]) with
  | error e => exact hdisarmed
  | ok m =>
    rw [ends_ok]
    cases hes : codec.manifest m with
    | none => exact hdisarmed
    | some es =>
      obtain rfl := h.manifest m es hm hes
      have hreport : Sat (restoreTree (δ := Raised) host job es removeExtras) (disarmed t)
          (fun _ u => Vacant (Exempt es job) u true (job ++ ["result.json"])) fun _ _ => True :=
        sat_of_final fun _ => h.report
      refine ((sat_restoreTree hoff h).and hreport).mono (fun _ _ h => h)
        (fun _ _ h' => hdisarmed.trans (off_displaced hoff) h'.1) |>.bind ?_
      rintro out v ⟨hv, hreport⟩
      have htv := hdisarmed.trans (off_displaced hoff) hv
      rw [sat_bind, sat_mapError, sat_step]
      cases hw : writeFile host (job ++ ["result.json"]) (codec.result out) v with
      | error e => exact htv
      | ok w => exact htv.trans (off_displaced hoff) (writeFile_spares hw hreport).displaces

/-- What stands in the displaced tree stays there, whatever is done next. -/
theorem act_displaced (h : Act host job codec entries t u)
    (hget : t.get (job ++ "displaced" :: q) = some node) (hnode : node.isDir = false) :
    u.get (job ++ "displaced" :: q) = some node := by
  cases h with
  | apply removeExtras _ h =>
    have := Spares.final (sat_applyStaged_harmless hoff h)
    exact (this _ node hget hnode (off_displaced hoff q)).resolve_right fun ⟨hbelow, _⟩ =>
      hbelow (below_displaced job q)
  | live _ _ h => exact h q node hget hnode

theorem run_displaced (h : Relation.ReflTransGen (Act host job codec entries) t u)
    (hget : t.get (job ++ "displaced" :: q) = some node) (hnode : node.isDir = false) :
    u.get (job ++ "displaced" :: q) = some node := by
  induction h with
  | refl => exact hget
  | tail _ hact ih => exact act_displaced hoff hact ih hnode

/-- In every run of harmless applies no object is lost. -/
theorem nothing_deleted (h : Harmless host job codec entries removeExtras t)
    (hrun : Relation.ReflTransGen (Act host job codec entries)
      ((applyStaged host job codec systemUpdateLink removeExtras).run t).final v) :
    NothingLost entries job t
      ((applyStaged host job codec systemUpdateLink removeExtras).run t).final v := by
  have happly := Spares.final (sat_applyStaged_harmless hoff h)
  refine ⟨?_, ?_⟩
  · intro q node hget hnode hX
    rcases happly q node hget hnode hX with hstay | ⟨-, hmoved⟩
    · exact .inl hstay
    · obtain ⟨own, hown, hdir, hbare⟩ := hmoved.get hnode
      exact .inr ((stands_of_get (run_displaced hoff hrun hown hdir)).of_bare hbare)
  · intro q node hget hnode
    exact run_displaced hoff hrun
      (act_displaced hoff (.apply removeExtras t h) hget hnode) hnode

omit hoff

/-- A machine with a file in `/etc` that the point does not know, and the staged job. -/
def strayManifest : List Entry := [⟨["etc"], 0o755, 0, 0, .dir⟩]

def strayCodec : Codec String := ⟨fun _ => some strayManifest, fun _ => "result"⟩

def strayMachine : PosixTree.Tree String :=
  ((((⟨∅⟩ : PosixTree.Tree String).put [] plainDir).put ["etc"] plainDir).put
    ["etc", "stray"] (.file ⟨0o600, 0, 0⟩ "mine" true)).put ["var"] plainDir |>.put
    sealedJob plainDir |>.put
    (sealedJob ++ ["manifest.json"]) (.file ⟨0o600, 0, 0⟩ "entries" true) |>.put
    (sealedJob ++ ["READY"]) (.file ⟨0o600, 0, 0⟩ "staged\n" true)

theorem stray_movable : ExtraHarmless (Exempt strayManifest sealedJob) oneDevice sealedJob
    ["etc", "stray"] (((sortEntries strayManifest).foldlM (applyEntry (δ := Raised)
      oneDevice sealedJob) ⟨0, 0, []⟩).run (disarmed strayMachine)).final := by
  refine sat_of_final fun _ s node hs _ _ => ?_
  have hplace : locate ((makedirs oneDevice (sealedJob ++ "displaced" :: ["etc"])).run
      (((sortEntries strayManifest).foldlM (applyEntry (δ := Raised) oneDevice sealedJob)
        ⟨0, 0, []⟩).run (disarmed strayMachine)).final).final false ["etc", "stray"] =
      .ok ["etc", "stray"] := by decide
  obtain rfl := Except.ok.inj (hplace.symm.trans hs)
  exact ⟨by decide, by decide, fun _ => ⟨rfl, by decide⟩, fun _ _ => rfl⟩

theorem stray_extras : ((extrasUnder (((sortEntries strayManifest).foldlM
    (applyEntry (δ := Raised) oneDevice sealedJob) ⟨0, 0, []⟩).run (disarmed strayMachine)).final
      strayManifest).insertionSort fun p q => text q ≤ text p) = [["etc", "stray"]] := by decide

theorem stray_displacing : Sat ((sortEntries strayManifest).foldlM
    (applyEntry (δ := Raised) oneDevice sealedJob) ⟨0, 0, []⟩) (disarmed strayMachine)
      (fun out u => Throughout (ExtraHarmless (Exempt strayManifest sealedJob) oneDevice sealedJob)
        (displaceExtra (δ := Raised) oneDevice sealedJob)
        ((extrasUnder u strayManifest).insertionSort fun p q => text q ≤ text p) out u)
      fun _ _ => True := by
  apply sat_of_final
  intro out
  rw [stray_extras]
  exact ⟨stray_movable, sat_true⟩

theorem stray_report : Vacant (Exempt strayManifest sealedJob)
    ((restoreTree (δ := Raised) oneDevice sealedJob strayManifest true).run
      (disarmed strayMachine)).final true (sealedJob ++ ["result.json"]) := by
  refine vacant_of_exempt (q := sealedJob ++ ["result.json"]) ?_ (.inr (.inr rfl))
  decide

theorem stray_restoring : Throughout (EntryHarmless (Exempt strayManifest sealedJob) oneDevice
    sealedJob) (applyEntry (δ := Raised) oneDevice sealedJob) (sortEntries strayManifest)
      ⟨0, 0, []⟩ (disarmed strayMachine) := ⟨trivial, sat_true⟩

theorem stray_manifest (m : String) (es : List Entry) (hes : strayCodec.manifest m = some es) :
    es = strayManifest := (Option.some.inj hes).symm

theorem stray_harmless :
    Harmless oneDevice sealedJob strayCodec strayManifest true strayMachine where
  manifest m es _ hes := stray_manifest m es hes
  restoring := stray_restoring
  displacing _ := stray_displacing
  report := stray_report

theorem nothing_deleted_stray : NothingLost strayManifest sealedJob strayMachine
    ((applyStaged oneDevice sealedJob strayCodec systemUpdateLink true).run strayMachine).final
    ((applyStaged oneDevice sealedJob strayCodec systemUpdateLink true).run strayMachine).final :=
  nothing_deleted (by decide) stray_harmless .refl

/-- A file of the machine that has the temporary name of a restored one. -/
def siblingManifest : List Entry := [⟨["etc", "app"], 0o644, 0, 0, .file 3 "wax"⟩]

def siblingCodec : Codec String := ⟨fun _ => some siblingManifest, fun _ => "result"⟩

def siblingMachine : PosixTree.Tree String :=
  ((((⟨∅⟩ : PosixTree.Tree String).put [] plainDir).put ["etc"] plainDir).put
    ["etc", "app.sysible-new"] (.file ⟨0o600, 0, 0⟩ "mine" true)).put ["var"] plainDir |>.put
    sealedJob plainDir |>.put (sealedJob ++ ["tree"]) plainDir |>.put
    (sealedJob ++ ["tree", "etc"]) plainDir |>.put
    (sealedJob ++ ["tree", "etc", "app"]) (.file ⟨0o644, 0, 0⟩ "wax" true) |>.put
    (sealedJob ++ ["manifest.json"]) (.file ⟨0o600, 0, 0⟩ "entries" true) |>.put
    (sealedJob ++ ["READY"]) (.file ⟨0o600, 0, 0⟩ "staged\n" true)

theorem temporary_name_lost : ¬ ∀ (host : Host) (job : Path) (codec : Codec String)
    (entries : List Entry) (removeExtras : Bool) (t : PosixTree.Tree String), WellFormed t →
    (∃ m, readFile t (job ++ ["manifest.json"]) = .ok m ∧ codec.manifest m = some entries) →
    NothingLost entries job t
      ((applyStaged host job codec systemUpdateLink removeExtras).run t).final
      ((applyStaged host job codec systemUpdateLink removeExtras).run t).final := by
  intro hall
  have hlost := hall oneDevice sealedJob siblingCodec siblingManifest false siblingMachine
    (wellFormed_of_check (by decide)) ⟨"entries", by decide, rfl⟩
  have hexempt : ¬ Exempt siblingManifest sealedJob ["etc", "app.sysible-new"] := by
    unfold Exempt
    decide
  have hgone : (((applyStaged oneDevice sealedJob siblingCodec systemUpdateLink false).run
      siblingMachine).final).get ["etc", "app.sysible-new"] = none := by decide
  have hnowhere : (((applyStaged oneDevice sealedJob siblingCodec systemUpdateLink false).run
      siblingMachine).final).get (sealedJob ++ "displaced" :: ["etc", "app.sysible-new"]) =
        none := by decide
  rcases hlost.objects ["etc", "app.sysible-new"] (.file ⟨0o600, 0, 0⟩ "mine" true) (by decide) rfl
    hexempt with h | h
  · exact nomatch hgone.symm.trans h
  · obtain ⟨own, hget, -⟩ := h.get rfl
    exact nomatch hnowhere.symm.trans hget

end FlashbackRestore
