import SysibleController.RestoreEntry
import SysibleController.RestoreWalk
import Mathlib.Data.List.Dedup

/-! A restore point applied to the machine it was taken of. `F` is the machine without the
job, `G` the machine with the staged job and the trigger: which objects of `F` the apply leaves
in their places. -/
namespace FlashbackRestore

open AtomicSteps Prog EarlyExit PosixTree RestorePoint

variable {γ : Type}

/-- What stands somewhere, apart from its attributes. -/
def bare (node : Node γ) : Node γ := node.setAttrs ⟨0, 0, 0⟩

/-- Every object of `F` is at its place in `u`, with its content. -/
def InPlace (F u : PosixTree.Tree γ) : Prop :=
  ∀ q node, F.get q = some node → (u.get q).map bare = some (bare node)

/-- `G` is `F` with a job that is staged at `j`, where `job` leads to, and perhaps the trigger. -/
structure Staged (cfg : RestorePoint.Settings γ) (codec : Codec γ) (F G : PosixTree.Tree γ)
    (roots : List Path) (job j : Path) : Prop where
  wf : WellFormed G
  way : ∃ p c s, job = p ++ s ∧ j = c ++ s ∧ Leads F p c ∧ ∀ n ∈ s, ValidName n
  dir : DirAt G j
  fresh : F.get j = none
  old : ∀ q node, F.get q = some node → G.get q = some node
  new : ∀ q, F.get q = none → q <+: j ∨ j <+: q ∨
    (q = systemUpdateLink ∧ ∃ a target, G.get q = some (.link a target)) ∨ G.get q = none
  ready : ∃ a m, G.get (j ++ ["READY"]) = some (.file a m true)
  manifest : ∃ a m, G.get (j ++ ["manifest.json"]) = some (.file a m true) ∧
    codec.manifest m = some (rpWalk cfg F roots)
  tree : ∀ d c n a body, Captured cfg F roots d c → F.get (c ++ [n]) = some (.file a body true) →
    ∃ b, G.get (j ++ "tree" :: (d ++ [n])) = some (.file b body true)
  only : ∀ n, G.get (j ++ [n]) ≠ none → n = "READY" ∨ n = "manifest.json" ∨ n = "tree"

/-- Every object in a captured directory is a directory, a captured directory under its own path,
or recorded. -/
def Complete (cfg : RestorePoint.Settings γ) (F : PosixTree.Tree γ) (roots : List Path) : Prop :=
  ∀ d c n node, Captured cfg F roots d c → F.get (c ++ [n]) = some node → node.isDir = false →
    (∃ c', Captured cfg F roots (d ++ [n]) c') ∨ isdir F (d ++ [n]) = false ∧
      rpExcluded cfg (d ++ [n]) = false ∧ (objectEntry cfg (d ++ [n]) node).isSome

/-- No temporary name leads astray, nothing stands at the trigger's place, and no path of the
walk runs into the bound on links. -/
structure Regular (cfg : RestorePoint.Settings γ) (F G : PosixTree.Tree γ) (roots : List Path) :
    Prop where
  temporary : ∀ d c n a body, Captured cfg F roots d c →
    F.get (c ++ [n]) = some (.file a body true) →
    G.get (c ++ [n ++ ".sysible-new"]) = none ∨ DirAt G (c ++ [n ++ ".sysible-new"]) ∨
      (∃ b body', G.get (c ++ [n ++ ".sysible-new"]) = some (.file b body' true)) ∧
        ¬ DirAt G (c ++ [n ++ ".sysible-new" ++ ".sysible-new"])
  trigger : ∀ node, F.get systemUpdateLink = some node → node.isDir = true
  links : ∀ d c n, Captured cfg F roots d c → isdir F (c ++ [n]) = true →
    isdir F (d ++ [n]) = true

/-- The captured directories and the job are on one device. -/
def OneDevice (cfg : RestorePoint.Settings γ) (F : PosixTree.Tree γ) (roots : List Path)
    (j : Path) (host : Host) : Prop :=
  ∀ d c, Captured cfg F roots d c → host.device c = host.device (j ++ "displaced" :: d)

/-- The apply runs to its end, displaces nothing and leaves every object of `F` in its place. -/
def Agrees (host : Host) (codec : Codec γ) (F G : PosixTree.Tree γ) (job : Path) : Prop :=
  Sat (applyStaged host job codec systemUpdateLink true) G
    (fun out u => out.displaced = 0 ∧ InPlace F u) fun _ _ => False

/-! ## While the entries are put back -/

/-- Everything of `F` is in its place but the lost files. -/
structure Between (F G : PosixTree.Tree γ) (j : Path) (lost : Path → Prop)
    (u : PosixTree.Tree γ) : Prop where
  old : ∀ q node, F.get q = some node → (u.get q).map bare = some (bare node) ∨
    u.get q = none ∧ lost q ∧ ∃ a body, node = .file a body true
  new : ∀ q, F.get q = none → q <+: j ∨ j <+: q ∨ u.get q = none
  way : ∀ q, q <+: j → DirAt u q
  job : ∀ q, j <+: q → u.get q = G.get q
  skeleton : Skeleton F u

variable {cfg : RestorePoint.Settings γ} {codec : Codec γ} {F G u v : PosixTree.Tree γ}
  {roots : List Path} {job j d c q : Path} {n : Name} {e : Entry} {host : Host} {lost lost' : Path → Prop}

theorem dirAt_of_bare {node : Node γ} (h : (u.get q).map bare = some (bare node)) :
    DirAt u q ↔ node.isDir = true := by
  obtain ⟨own, hget, hown⟩ := Option.map_eq_some_iff.mp h
  rw [dirAt_iff]
  simp only [hget, Option.some.injEq, exists_eq_left']
  cases own <;> cases node <;> simp_all [bare, Node.setAttrs, Node.isDir]

/-- Nothing of `F` is where the job is. -/
theorem Staged.none_below (h : Staged cfg codec F G roots job j) (wf : WellFormed F)
    (hq : j <+: q) : F.get q = none := wf.none_below h.fresh hq

theorem Staged.leads_job (h : Staged cfg codec F G roots job j) (wf : WellFormed F) :
    Leads G job j := by
  obtain ⟨p, b, s, rfl, rfl, hp, hn⟩ := h.way
  refine (hp.extend wf.dirClosed ?_).append h.wf.dirClosed hn h.dir
  intro q hq
  obtain ⟨node, hnode⟩ := Option.ne_none_iff_exists'.mp hq
  rw [h.old q node hnode, hnode]

namespace Between

variable (h : Between F G j lost u)

include h

theorem dirClosed (hs : Staged cfg codec F G roots job j) (wf : WellFormed F) : DirClosed u := by
  refine ⟨h.way [] (List.nil_prefix), ?_⟩
  intro p m hdir
  by_cases hbelow : j <+: p ++ [m]
  · rcases List.prefix_concat_iff.mp (by simpa using hbelow) with heq | hp
    · exact h.way p (heq ▸ List.prefix_append p [m])
    · obtain ⟨a, l, hget⟩ := hdir
      rw [h.job _ hbelow] at hget
      obtain ⟨b, l', hparent⟩ := hs.wf.parent p m (by simp [hget])
      exact ⟨b, l', (h.job p hp).trans hparent⟩
  · cases hF : F.get (p ++ [m]) with
    | some node => exact h.skeleton.dirs p (wf.parent p m (by simp [hF]))
    | none =>
      rcases h.new _ hF with hpre | hpre | hnone
      · exact h.way p ((List.prefix_append p [m]).trans hpre)
      · exact absurd hpre hbelow
      · obtain ⟨a, l, hget⟩ := hdir
        rw [hnone] at hget
        cases hget

theorem dirAt_staged (hs : Staged cfg codec F G roots job j) (hq : DirAt u q) : DirAt G q := by
  cases hF : F.get q with
  | some node =>
    rcases h.old q node hF with hbare | ⟨hnone, -⟩
    · obtain ⟨a, l, rfl⟩ : ∃ a l, node = .dir a l := by
        have := (dirAt_of_bare hbare).mp hq
        cases node with
        | dir a l => exact ⟨a, l, rfl⟩
        | file | link | special => cases this
      exact ⟨a, l, hs.old q _ hF⟩
    · obtain ⟨a, l, hget⟩ := hq
      rw [hnone] at hget
      cases hget
  | none =>
    rcases h.new q hF with hpre | hpre | hnone
    · exact (hs.wf.plain hs.dir).dirs q hpre
    · obtain ⟨a, l, hget⟩ := hq
      exact ⟨a, l, (h.job q hpre).symm.trans hget⟩
    · obtain ⟨a, l, hget⟩ := hq
      rw [hnone] at hget
      cases hget

theorem leads (wf : WellFormed F) (hd : Leads F d c) : Leads u d c := hd.skeleton wf h.skeleton

theorem leads_job (hs : Staged cfg codec F G roots job j) (wf : WellFormed F) : Leads u job j := by
  obtain ⟨p, b, s, rfl, rfl, hp, hn⟩ := hs.way
  exact (h.leads wf hp).append (h.dirClosed hs wf) hn (h.way _ (List.prefix_refl _))

/-- A change at a place that is no directory and on the way to none of `F` blocks no path. -/
theorem steady (hs : Staged cfg codec F G roots job j) (wf : WellFormed F) (hd : Leads F d c)
    (hq : ¬ DirAt u q)
    (hlink : ∀ a target, F.get q = some (.link a target) → isdir F q = false) :
    Steady u d c q := by
  intro w hout hwq
  have hdirs : ∀ r, DirAt u r → DirAt w r := by
    intro r hr
    have hne : r ≠ q := by
      rintro rfl
      exact hq hr
    obtain ⟨a, l, hget⟩ := hr
    exact ⟨a, l, (hout r hne).trans hget⟩
  have hcu := h.dirClosed hs wf
  refine ⟨⟨hdirs _ hcu.root, ?_⟩, hd.skeleton wf ⟨fun r hr => hdirs r (h.skeleton.dirs r hr), ?_⟩⟩
  · intro p m hdir
    have hne : p ++ [m] ≠ q := by
      rintro rfl
      exact hwq hdir
    obtain ⟨a, l, hget⟩ := hdir
    exact hdirs p (hcu.parent p m ⟨a, l, (hout _ hne).symm.trans hget⟩)
  · intro r a target hget hdir
    have hne : r ≠ q := by
      rintro rfl
      rw [hlink a target hget] at hdir
      cases hdir
    rw [hout r hne]
    exact h.skeleton.links r a target hget hdir

/-- Where nothing has changed but objects of `F`. -/
theorem next (hs : Staged cfg codec F G roots job j) (wf : WellFormed F)
    (hnew : ∀ q, F.get q = none → v.get q = u.get q) (hskel : Skeleton F v)
    (hold : ∀ q node, F.get q = some node → (v.get q).map bare = some (bare node) ∨
      v.get q = none ∧ lost' q ∧ ∃ a body, node = .file a body true) :
    Between F G j lost' v := by
  refine ⟨hold, ?_, ?_, ?_, hskel⟩
  · intro q hF
    rw [hnew q hF]
    exact h.new q hF
  · intro q hq
    cases hF : F.get q with
    | none =>
      obtain ⟨a, l, hget⟩ := h.way q hq
      exact ⟨a, l, (hnew q hF).trans hget⟩
    | some node =>
      refine hskel.dirs q ?_
      rcases h.old q node hF with hbare | ⟨hnone, -⟩
      · rw [dirAt_iff]
        exact ⟨node, hF, (dirAt_of_bare hbare).mp (h.way q hq)⟩
      · obtain ⟨a, l, hget⟩ := h.way q hq
        rw [hnone] at hget
        cases hget
  · intro q hq
    rw [hnew q (hs.none_below wf hq)]
    exact h.job q hq

/-- The old part of the next state, away from the place `p` of the entry. -/
theorem keeps (hv : ∀ q, q ≠ c → v.get q = u.get q) (hlost : ∀ q, q ≠ c → lost q → lost' q)
    (hq : q ≠ c) {node : Node γ} (hF : F.get q = some node) :
    (v.get q).map bare = some (bare node) ∨
      v.get q = none ∧ lost' q ∧ ∃ a body, node = .file a body true := by
  rw [hv q hq]
  exact (h.old q node hF).imp_right fun ⟨hnone, hl, hfile⟩ => ⟨hnone, hlost q hq hl, hfile⟩

end Between

/-! ## One entry -/

namespace Between

theorem sat_dir (h : Between F G j lost u) (hs : Staged cfg codec F G roots job j)
    (wf : WellFormed F) (hcap : Captured cfg F roots d c) (he : e.path = d) (hp : e.payload = .dir)
    (hlost : ∀ q, lost q → lost' q) :
    Sat (restoreEntry host job e) u (fun _ v => Between F G j lost' v)
      fun _ v => Between F G j lost' v := by
  obtain ⟨a, hF⟩ := hcap.listable
  have hd := h.leads wf (hcap.leads wf)
  obtain ⟨b, l, hget⟩ := hd.dir
  simp only [restoreEntry, hp, he]
  rw [sat_bind]
  refine sat_makedirs_of_isdir (h.dirClosed hs wf) hd.isdir ?_
  rw [sat_bind, sat_step, chmod_leads hd hget, ends_ok, sat_pure]
  have hput : ∀ r, r ≠ c → (u.put c (.dir { b with mode := orDefault e.mode 0o755 } l)).get r =
      u.get r := by
    intro r hr
    rw [Tree.get_put, if_neg hr]
  refine h.next hs wf ?_ ⟨?_, ?_⟩ ?_
  · intro q hq
    refine hput q ?_
    rintro rfl
    rw [hF] at hq
    cases hq
  · intro r hr
    by_cases hrc : r = c
    · rw [hrc]
      exact ⟨_, l, by rw [Tree.get_put, if_pos rfl]⟩
    · obtain ⟨a', l', hr⟩ := h.skeleton.dirs r hr
      exact ⟨a', l', (hput r hrc).trans hr⟩
  · intro r a' target hr hdir
    rw [hput r]
    · exact h.skeleton.links r a' target hr hdir
    · rintro rfl
      rw [hF] at hr
      cases hr
  · intro q node hq
    by_cases hqc : q = c
    · subst hqc
      left
      rw [Tree.get_put, if_pos rfl]
      obtain rfl := Option.some.inj (hF.symm.trans hq)
      rcases h.old q _ hF with hbare | ⟨hnone, -⟩
      · rw [hget] at hbare
        exact hbare
      · rw [hget] at hnone
        cases hnone
    · exact h.keeps hput (fun q _ => hlost q) hqc hq

theorem sat_link (h : Between F G j lost u) (hs : Staged cfg codec F G roots job j)
    (wf : WellFormed F) (hcap : Captured cfg F roots d c) (he : e.path = d ++ [n]) {a : Attrs}
    {target : String} (hF : F.get (c ++ [n]) = some (.link a target))
    (hp : e.payload = .link target) (hdir : isdir F (c ++ [n]) = false)
    (hlost : ∀ q, q ≠ c ++ [n] → lost q → lost' q) :
    Sat (restoreEntry host job e) u (fun _ v => Between F G j lost' v)
      fun _ v => Between F G j lost' v := by
  have hnd : ¬ DirAt u (c ++ [n]) := by
    intro hd
    obtain ⟨b, l, hget⟩ := h.dirAt_staged hs hd
    rw [hs.old _ _ hF] at hget
    cases hget
  refine sat_restore_link he hp (wf.targets _ a target hF) (wf.names c n (by simp [hF]))
    (h.dirClosed hs wf) (h.leads wf (hcap.leads wf))
    (fun _ => h.steady hs wf (hcap.leads wf) hnd fun _ _ _ => hdir) ?_ fun hd => absurd hd hnd
  intro _ v hv
  have hother : ∀ r, r ≠ c ++ [n] → v.get r = u.get r := by
    intro r hr
    rw [hv, if_neg hr]
  refine h.next hs wf ?_ ⟨?_, ?_⟩ ?_
  · intro q hq
    refine hother q ?_
    rintro rfl
    rw [hF] at hq
    cases hq
  · intro r hr
    obtain ⟨b, l, hget⟩ := h.skeleton.dirs r hr
    refine ⟨b, l, (hother r ?_).trans hget⟩
    rintro rfl
    exact hnd ⟨b, l, hget⟩
  · intro r b target' hr hrdir
    rw [hother r]
    · exact h.skeleton.links r b target' hr hrdir
    · rintro rfl
      rw [hdir] at hrdir
      cases hrdir
  · intro q node hq
    by_cases hqc : q = c ++ [n]
    · subst hqc
      obtain rfl := Option.some.inj (hF.symm.trans hq)
      left
      rw [hv, if_pos rfl]
      rfl
    · exact h.keeps hother hlost hqc hq

/-- The staged file of an object is where the apply looks for it. -/
theorem holds_staged (h : Between F G j lost u) (hs : Staged cfg codec F G roots job j)
    (wf : WellFormed F) (hroots : ∀ r ∈ roots, ∀ n ∈ r, ValidName n)
    (hcap : Captured cfg F roots d c) {a : Attrs} {body : γ}
    (hF : F.get (c ++ [n]) = some (.file a body true)) :
    Holds u (job ++ "tree" :: (d ++ [n])) (j ++ "tree" :: (d ++ [n])) body := by
  obtain ⟨b, hget⟩ := hs.tree d c n a body hcap hF
  have hcu := h.dirClosed hs wf
  have hassoc : ∀ x : Path, x ++ "tree" :: (d ++ [n]) = (x ++ "tree" :: d) ++ [n] := by
    intro x
    simp
  have hbelow : ∀ r, u.get (j ++ r) = G.get (j ++ r) := fun r => h.job _ (List.prefix_append j r)
  have hparent : DirAt u (j ++ "tree" :: d) := by
    obtain ⟨a', l, hdir⟩ := hs.wf.parent (j ++ "tree" :: d) n (by simp [← hassoc, hget])
    exact ⟨a', l, (hbelow _).trans hdir⟩
  have hd : Leads u (job ++ "tree" :: d) (j ++ "tree" :: d) := by
    refine (h.leads_job hs wf).append hcu ?_ hparent
    intro m hm
    rcases List.mem_cons.mp hm with rfl | hm
    · decide
    · exact hcap.names wf hroots m hm
  rw [hassoc, hassoc]
  rw [hassoc] at hget
  have hown : u.get ((j ++ "tree" :: d) ++ [n]) = some (.file b body true) := by
    rw [← hget, List.append_assoc]
    exact hbelow _
  exact holds_child hcu hd (wf.names c n (by simp [hF])) hown

theorem not_below (hs : Staged cfg codec F G roots job j) (wf : WellFormed F)
    (hc : DirAt F c) : ¬ j <+: c := by
  intro hpre
  obtain ⟨a, l, hget⟩ := hc
  rw [hs.none_below wf hpre] at hget
  cases hget

/-- What is new in a directory of `F` is a directory. -/
theorem dirAt_new (h : Between F G j lost u) (hs : Staged cfg codec F G roots job j)
    (wf : WellFormed F) (hc : DirAt F c) (hF : F.get (c ++ [n]) = none)
    (hget : u.get (c ++ [n]) ≠ none) : DirAt u (c ++ [n]) := by
  rcases h.new _ hF with hpre | hpre | hnone
  · exact h.way _ hpre
  · rcases List.prefix_concat_iff.mp (by simpa using hpre) with heq | hpre
    · exact h.way _ (heq ▸ List.prefix_refl _)
    · exact absurd hpre (not_below hs wf hc)
  · exact absurd hnone hget

/-- What stands at the temporary name of a file: a directory, nothing, or a file. -/
theorem temporary_cases (h : Between F G j lost u) (hs : Staged cfg codec F G roots job j)
    (wf : WellFormed F) (hreg : Regular cfg F G roots) (hcap : Captured cfg F roots d c)
    {a : Attrs} {body : γ} (hF : F.get (c ++ [n]) = some (.file a body true)) :
    DirAt u (c ++ [n ++ ".sysible-new"]) ∨
      (F.get (c ++ [n ++ ".sysible-new"]) = none ∧ u.get (c ++ [n ++ ".sysible-new"]) = none) ∨
      ∃ b body', F.get (c ++ [n ++ ".sysible-new"]) = some (.file b body' true) := by
  cases hFm : F.get (c ++ [n ++ ".sysible-new"]) with
  | none =>
    by_cases hget : u.get (c ++ [n ++ ".sysible-new"]) = none
    · exact Or.inr (Or.inl ⟨rfl, hget⟩)
    · exact Or.inl (h.dirAt_new hs wf hcap.listable.dirAt hFm hget)
  | some node =>
    have hG := hs.old _ node hFm
    rcases hreg.temporary d c n a body hcap hF with hnone | ⟨b, l, hdir⟩ | ⟨⟨b, body', hfile⟩, -⟩
    · rw [hG] at hnone
      cases hnone
    · obtain rfl := Option.some.inj (hG.symm.trans hdir)
      exact Or.inl (h.skeleton.dirs _ ⟨b, l, hFm⟩)
    · obtain rfl := Option.some.inj (hG.symm.trans hfile)
      exact Or.inr (Or.inr ⟨b, body', rfl⟩)

theorem sat_file (h : Between F G j lost u) (hs : Staged cfg codec F G roots job j)
    (wf : WellFormed F) (hroots : ∀ r ∈ roots, ∀ n ∈ r, ValidName n)
    (hreg : Regular cfg F G roots) (hcap : Captured cfg F roots d c) (he : e.path = d ++ [n])
    {a : Attrs} {body : γ} (hF : F.get (c ++ [n]) = some (.file a body true)) {size : ℕ}
    {sha : String} (hp : e.payload = .file size sha)
    (hlost : ∀ q, q ≠ c ++ [n] → lost q → lost' q)
    (hblocked : DirAt G (c ++ [n ++ ".sysible-new"]) → lost (c ++ [n]) → lost' (c ++ [n]))
    (hnew : (∃ b body', F.get (c ++ [n ++ ".sysible-new"]) = some (.file b body' true)) →
      lost' (c ++ [n ++ ".sysible-new"])) :
    Sat (restoreEntry host job e) u (fun _ v => Between F G j lost' v)
      fun _ v => Between F G j lost' v := by
  have hcu := h.dirClosed hs wf
  have hd := h.leads wf (hcap.leads wf)
  have hsrc := h.holds_staged hs wf hroots hcap hF
  rw [← he] at hsrc
  by_cases hblock : DirAt u (c ++ [n ++ ".sysible-new"])
  · refine sat_restore_blocked he hp hcu hd hsrc (Or.inl hblock) fun _ =>
      ⟨?_, h.new, h.way, h.job, h.skeleton⟩
    intro q node hq
    refine (h.old q node hq).imp_right fun ⟨hnone, hl, hfile⟩ => ⟨hnone, ?_, hfile⟩
    by_cases hqc : q = c ++ [n]
    · subst hqc
      exact hblocked (h.dirAt_staged hs hblock) hl
    · exact hlost q hqc hl
  · have htemp := (h.temporary_cases hs wf hreg hcap hF).resolve_left hblock
    have hplace : ¬ DirAt u (c ++ [n]) := by
      intro hdir
      obtain ⟨b, l, hget⟩ := h.dirAt_staged hs hdir
      rw [hs.old _ _ hF] at hget
      cases hget
    have hnolink : ∀ b target, F.get (c ++ [n ++ ".sysible-new"]) ≠ some (.link b target) := by
      intro b target hl
      rcases htemp with ⟨hnone, -⟩ | ⟨b', body', hfile⟩
      · rw [hnone] at hl
        cases hl
      · rw [hfile] at hl
        cases hl
    refine sat_restore_file he hp (wf.names c n (by simp [hF])) hcu hd
      (h.steady hs wf (hcap.leads wf) hblock fun b target hl => absurd hl (hnolink b target)) hsrc
      ?_ ?_ ?_ fun hdir => absurd hdir hplace
    · intro heq
      refine not_below hs wf hcap.listable.dirAt ?_
      rw [he] at heq
      have := congrArg List.dropLast heq
      rw [List.dropLast_concat, ← List.cons_append, ← List.append_assoc, List.dropLast_concat] at this
      exact this ▸ List.prefix_append j _
    · rcases htemp with ⟨-, hnone⟩ | ⟨b, body', hfile⟩
      · exact Or.inl hnone
      · rcases h.old _ _ hfile with hbare | ⟨hnone, -⟩
        · obtain ⟨own, hget, hown⟩ := Option.map_eq_some_iff.mp hbare
          cases own with
          | file b' body'' r => exact Or.inr ⟨b', body'', r, hget⟩
          | dir | link | special => cases hown
        · exact Or.inl hnone
    · intro _ v hv
      refine h.next hs wf ?_ ⟨?_, ?_⟩ ?_
      · intro q hq
        rw [hv, if_neg]
        · split_ifs with hqm
          · rcases htemp with ⟨-, hnone⟩ | ⟨b, body', hfile⟩
            · rw [hqm, hnone]
            · rw [hqm, hfile] at hq
              cases hq
          · rfl
        · rintro rfl
          rw [hF] at hq
          cases hq
      · intro r hr
        obtain ⟨b, l, hget⟩ := h.skeleton.dirs r hr
        refine ⟨b, l, ?_⟩
        rw [hv, if_neg, if_neg, hget]
        · rintro rfl
          exact hblock ⟨b, l, hget⟩
        · rintro rfl
          exact hplace ⟨b, l, hget⟩
      · intro r b target hr hdir
        rw [hv, if_neg, if_neg]
        · exact h.skeleton.links r b target hr hdir
        · rintro rfl
          exact hnolink b target hr
        · rintro rfl
          rw [hF] at hr
          cases hr
      · intro q node hq
        by_cases hqc : q = c ++ [n]
        · subst hqc
          obtain rfl := Option.some.inj (hF.symm.trans hq)
          left
          rw [hv, if_pos rfl]
          rfl
        · by_cases hqm : q = c ++ [n ++ ".sysible-new"]
          · subst hqm
            right
            rw [hv, if_neg hqc, if_pos rfl]
            rcases htemp with ⟨hnone, -⟩ | ⟨b, body', hfile⟩
            · rw [hnone] at hq
              cases hq
            · obtain rfl := Option.some.inj (hfile.symm.trans hq)
              exact ⟨rfl, hnew ⟨b, body', hfile⟩, b, body', rfl⟩
          · rw [hv, if_neg hqc, if_neg hqm]
            exact (h.old q node hq).imp_right fun ⟨hnone, hl, hfile⟩ =>
              ⟨hnone, hlost q hqc hl, hfile⟩

/-- Every entry leaves everything in its place but lost files. -/
theorem sat_entry (h : Between F G j lost u) (hs : Staged cfg codec F G roots job j)
    (wf : WellFormed F) (hroots : ∀ r ∈ roots, ∀ n ∈ r, ValidName n)
    (hreg : Regular cfg F G roots) (hmem : e ∈ rpWalk cfg F roots)
    (hlost : ∀ q, lost q → lost' q ∨ e.isDir = false ∧
      ∃ d c n, Captured cfg F roots d c ∧ e.path = d ++ [n] ∧ q = c ++ [n])
    (hblocked : ∀ d c n, Captured cfg F roots d c → e.path = d ++ [n] →
      DirAt G (c ++ [n ++ ".sysible-new"]) → lost (c ++ [n]) → lost' (c ++ [n]))
    (hnew : ∀ d c n a body b body', Captured cfg F roots d c → e.path = d ++ [n] →
      e.isDir = false → F.get (c ++ [n]) = some (.file a body true) →
      F.get (c ++ [n ++ ".sysible-new"]) = some (.file b body' true) →
      lost' (c ++ [n ++ ".sysible-new"])) :
    Sat (restoreEntry host job e) u (fun _ v => Between F G j lost' v)
      fun _ v => Between F G j lost' v := by
  cases recorded_of_rpWalk wf hmem with
  | dir hcap hnode =>
    refine h.sat_dir hs wf hcap rfl rfl fun q hl => (hlost q hl).resolve_right ?_
    rintro ⟨hnd, -⟩
    cases hnd
  | @object d c n node _ hcap hF hdir hex he =>
    obtain ⟨hpath, hnd⟩ := objectEntry_path he
    have hlost' : ∀ q, q ≠ c ++ [n] → lost q → lost' q := by
      intro q hq hl
      refine (hlost q hl).resolve_right ?_
      rintro ⟨-, d', c', m, hcap', hpath', rfl⟩
      obtain ⟨rfl, hm⟩ := List.append_inj' (hpath.symm.trans hpath') rfl
      obtain rfl := (hcap.leads wf).unique (hcap'.leads wf)
      exact hq (by rw [hm])
    rcases node with ⟨a, l⟩ | ⟨a, body, _ | _⟩ | ⟨a, target⟩ | ⟨a, k⟩
    · cases he
    · cases he
    · simp only [objectEntry] at he
      split at he
      · cases he
      · refine h.sat_file hs wf hroots hreg hcap hpath hF (by rw [← Option.some.inj he]) hlost'
          (hblocked d c n hcap hpath) ?_
        rintro ⟨b, body', hfile⟩
        exact hnew d c n a body b body' hcap hpath hnd hF hfile
    · have hplace : isdir F (c ++ [n]) = false := by
        rw [← Bool.not_eq_true]
        intro hplace
        rw [hreg.links d c n hcap hplace] at hdir
        cases hdir
      exact h.sat_link hs wf hcap hpath hF (by rw [← Option.some.inj he]) hplace hlost'
    · cases he

end Between

end FlashbackRestore
