import SysibleController.RestoreLoop
import Mathlib.Data.List.Dedup

/-! Extras moved out of the way of a restore, on any machine: of what the entries have put back,
nothing changes. -/
namespace FlashbackRestore

open AtomicSteps Prog EarlyExit PosixTree RestorePoint

variable {γ : Type} {cfg : RestorePoint.Settings γ} {codec : Codec γ} {L t u v w : PosixTree.Tree γ}
  {M : List Entry} {job d p q r s : Path} {n m : Name} {e : Entry} {host : Host} {gone : List Path}

/-! ## One object moved -/

/-- At most `p` and `q` have changed, and neither is a directory. -/
structure Moved (t u : PosixTree.Tree γ) (p q : Path) : Prop where
  others : ∀ r, r ≠ p → r ≠ q → u.get r = t.get r
  here : ¬ DirAt u p
  there : ¬ DirAt u q

namespace Moved

theorem refl (hp : ¬ DirAt t p) (hq : ¬ DirAt t q) : Moved t t p q := ⟨fun _ _ _ => rfl, hp, hq⟩

theorem not_dirAt_put {node : Node γ} (hnode : node.isDir = false) (h : ¬ DirAt u r) :
    ¬ DirAt (u.put q node) r := by
  rintro ⟨a, l, hget⟩
  rw [Tree.get_put] at hget
  split_ifs at hget
  · obtain rfl := Option.some.inj hget
    cases hnode
  · exact h ⟨a, l, hget⟩

theorem put (h : Moved t u p q) {node : Node γ} (hnode : node.isDir = false) :
    Moved t (u.put q node) p q := by
  refine ⟨?_, not_dirAt_put hnode h.here, not_dirAt_put hnode h.there⟩
  intro r hp hq
  rw [Tree.get_put, if_neg hq, h.others r hp hq]

theorem not_dirAt_drop (h : ¬ DirAt u r) : ¬ DirAt (u.drop p) r := by
  rintro ⟨a, l, hget⟩
  rw [Tree.get_drop] at hget
  split_ifs at hget
  exact h ⟨a, l, hget⟩

theorem drop (h : Moved t u p q) : Moved t (u.drop p) p q := by
  refine ⟨?_, not_dirAt_drop h.here, not_dirAt_drop h.there⟩
  intro r hp hq
  rw [Tree.get_drop, if_neg hp, h.others r hp hq]

theorem dirAt_iff (h : Moved t u p q) (hp : ¬ DirAt t p) (hq : ¬ DirAt t q) :
    DirAt u r ↔ DirAt t r := by
  by_cases hrp : r = p
  · subst hrp
    exact iff_of_false h.here hp
  by_cases hrq : r = q
  · subst hrq
    exact iff_of_false h.there hq
  unfold DirAt
  rw [h.others r hrp hrq]

theorem dirClosed (h : Moved t u p q) (hp : ¬ DirAt t p) (hq : ¬ DirAt t q) (hc : DirClosed t) :
    DirClosed u := by
  refine ⟨(h.dirAt_iff hp hq).mpr hc.root, ?_⟩
  intro x n hdir
  exact (h.dirAt_iff hp hq).mpr (hc.parent x n ((h.dirAt_iff hp hq).mp hdir))

end Moved

theorem rename_ok (hc : DirClosed t) (hd : Leads t d d) (hn : ValidName n) (hs : Leads t s s)
    (h : rename host (d ++ [n]) (s ++ [n]) t = .ok u) : ∃ node : Node γ, node.isDir = false ∧
      u = (t.drop (d ++ [n])).put (s ++ [n]) node := by
  unfold rename at h
  rw [locate_child hc hd hn, locate_child hc hs hn] at h
  simp only [bind, Except.bind] at h
  rcases hget : t.get (d ++ [n]) with _ | (_ | _ | _ | _)
  · simp [hget] at h
  · simp [hget] at h
  all_goals
    simp only [hget] at h
    split_ifs at h
    exact ⟨_, rfl, (Except.ok.inj h).symm⟩

section Move

variable (hc : DirClosed w) (hd : Leads w d d) (hdn : ∀ m ∈ d, ValidName m) (hn : ValidName n)
  (hs : Leads w s s) (hsn : ∀ m ∈ s, ValidName m) (hnd : ¬ DirAt w (d ++ [n]))
  (hnone : w.get (s ++ [n]) = none)

include hc hd hdn hn hs hsn hnd hnone

omit hs hsn in
theorem sat_unlink (h : Moved w u (d ++ [n]) (s ++ [n])) : Ends
    (fun u => Moved w u (d ++ [n]) (s ++ [n])) (fun _ => Moved w u (d ++ [n]) (s ++ [n]))
    (unlink (d ++ [n]) u) := by
  have hndq : ¬ DirAt w (s ++ [n]) := by
    rintro ⟨a, l, hget⟩
    exact nomatch hnone.symm.trans hget
  have hcu := h.dirClosed hnd hndq hc
  have hdu := hcu.leads hdn ((h.dirAt_iff hnd hndq).mpr hd.dir)
  rw [unlink_child hcu hdu hn]
  rcases u.get (d ++ [n]) with _ | (_ | _ | _ | _)
  · exact h
  · exact h
  all_goals exact h.drop

/-- A copy onto a free name, and the original removed. -/
theorem sat_copy_unlink : Sat (copy2 host (d ++ [n]) (s ++ [n]) >>= fun _ => step (unlink (d ++ [n])))
    w (fun _ u => Moved w u (d ++ [n]) (s ++ [n])) fun _ u => Moved w u (d ++ [n]) (s ++ [n]) := by
  have hndq : ¬ DirAt w (s ++ [n]) := by
    rintro ⟨a, l, hget⟩
    exact nomatch hnone.symm.trans hget
  have hstart := Moved.refl hnd hndq
  have hclosed : ∀ u, Moved w u (d ++ [n]) (s ++ [n]) → DirClosed u :=
    fun u hu => hu.dirClosed hnd hndq hc
  have hfree : isdir w (s ++ [n]) = false := by
    rw [← Bool.not_eq_true]
    intro hdir
    obtain ⟨c, hlead⟩ := Leads.of_isdir hdir
    have hloc := locate_child_follow hc hs hn (by simp [hnone])
    rw [hlead.locate] at hloc
    exact hndq (Except.ok.inj hloc ▸ hlead.dir)
  rw [copy2, sat_bind, sat_bind, sat_ask, hfree, if_neg Bool.false_ne_true, sat_bind, copyfile,
    sat_bind, sat_forbid]
  split_ifs
  · exact hstart
  rw [sat_bind, sat_forbid]
  split_ifs
  · exact hstart
  rw [sat_bind, sat_query]
  cases hread : readFile w (d ++ [n]) with
  | error err => exact hstart
  | ok body =>
    rw [ends_ok, sat_step, writeFile_new hc hs hn hnone, ends_ok, sat_bind, sat_query]
    have hwritten : Moved w (w.put (s ++ [n]) (.file (newFile host (attrsOf w s)) body true))
        (d ++ [n]) (s ++ [n]) := hstart.put rfl
    cases hstat : stat (w.put (s ++ [n]) (.file (newFile host (attrsOf w s)) body true))
      (d ++ [n]) with
    | error err => exact hwritten
    | ok node =>
      have hc₁ := hclosed _ hwritten
      have hs₁ := hc₁.leads hsn ((hwritten.dirAt_iff hnd hndq).mpr hs.dir)
      rw [ends_ok, sat_step, chmod_child hc₁ hs₁ hn (by rw [Tree.get_put, if_pos rfl]) rfl, ends_ok,
        sat_step]
      exact sat_unlink hc hd hdn hn hnd hnone (hwritten.put rfl)

/-- A rename, or else a copy. -/
theorem sat_move : Sat (do
      match ← attempt (step (rename host (d ++ [n]) (s ++ [n]))) with
      | .ok () => pure ()
      | .error _ =>
        copy2 host (d ++ [n]) (s ++ [n])
        step (unlink (d ++ [n])) : FsM γ Unit)
    w (fun _ u => Moved w u (d ++ [n]) (s ++ [n])) fun _ u => Moved w u (d ++ [n]) (s ++ [n]) := by
  have hndq : ¬ DirAt w (s ++ [n]) := by
    rintro ⟨a, l, hget⟩
    exact nomatch hnone.symm.trans hget
  rw [sat_bind, sat_attempt, sat_step]
  cases hren : rename host (d ++ [n]) (s ++ [n]) w with
  | ok u =>
    obtain ⟨node, hnode, rfl⟩ := rename_ok hc hd hn hs hren
    exact (Moved.refl hnd hndq).drop.put hnode
  | error err => exact sat_copy_unlink hc hd hdn hn hs hsn hnd hnone

end Move

/-! ## Extras -/

/-- An object in a directory of the manifest that no entry names. -/
structure Extra (M : List Entry) (job : Path) (u : PosixTree.Tree γ) (d : Path) (n : Name) :
    Prop where
  dir : DirAt u d
  names : ∀ m ∈ d, ValidName m
  name : ValidName n
  nodir : ¬ DirAt u (d ++ [n])
  apart : ¬ job <+: d ++ [n]
  unnamed : ∀ e ∈ M, e.path ≠ d ++ [n]

theorem During.extra (h : During cfg host L M job (sortEntries M) [] u) (hM : Manifest M)
    (hfree : Unobstructed L M job) (hprep : Prepared cfg codec L M job)
    (hp : p ∈ extrasUnder u M) : ∃ d n, p = d ++ [n] ∧ Extra M job u d n := by
  obtain ⟨d, hd, hp⟩ := List.mem_flatMap.mp hp
  obtain ⟨e, he, rfl⟩ := List.mem_map.mp (List.mem_dedup.mp hd)
  obtain ⟨he, hedir⟩ := List.mem_filter.mp he
  have hdir := (putBack_dir hedir).mp (h.objects e (mem_sortEntries.mpr he))
  have hnames := hM.names e he
  have hlead := h.closed.leads hnames hdir
  cases hlist : listdir u e.path with
  | error err =>
    rw [hlist] at hp
    cases hp
  | ok ns =>
    obtain ⟨-, rfl⟩ := listable_of_listdir hlead hlist
    rw [hlist] at hp
    obtain ⟨hp, hextra⟩ := List.mem_filter.mp hp
    obtain ⟨n, hn, rfl⟩ := List.mem_map.mp hp
    simp only [decide_eq_true_eq] at hextra
    obtain ⟨hwant, hnotdir⟩ := hextra
    have hv := h.names hM hprep.wf (mem_names.mp hn)
    have hnd : ¬ DirAt u (e.path ++ [n]) := fun hdir =>
      hnotdir ((dirAt_child h.closed hlead hv).mpr hdir)
    refine ⟨e.path, n, rfl, hdir, hnames, hv, hnd, ?_, ?_⟩
    · intro hpre
      rcases List.prefix_concat_iff.mp (by simpa using hpre) with heq | hpre
      · exact hnd (heq ▸ h.kept job hprep.dir)
      · exact hfree.apart e he hpre
    · intro e' he' hpath
      exact hwant (List.mem_filter.mpr ⟨List.mem_map.mpr ⟨e', he', hpath⟩, by simp⟩)

theorem names_nodup (t : PosixTree.Tree γ) (p : Path) : (PosixTree.names t p).Nodup := by
  refine List.Nodup.filterMap ?_ t.nodes.nodupKeys
  intro q r n hq hr
  rw [Option.mem_def, childName_eq_some] at hq hr
  rw [hq, hr]

theorem extrasUnder_nodup (u : PosixTree.Tree γ) (M : List Entry) : (extrasUnder u M).Nodup := by
  have hsnoc : ∀ {d : Path} {ns : List Name} {f : Path → Bool} {p : Path},
      p ∈ (ns.map fun n => d ++ [n]).filter f → p.dropLast = d := by
    intro d ns f p hp
    obtain ⟨n, -, rfl⟩ := List.mem_map.mp (List.mem_filter.mp hp).1
    simp
  refine List.nodup_flatMap.mpr ⟨?_, ?_⟩
  · intro d _
    cases hlist : listdir u d with
    | error err => exact List.nodup_nil
    | ok ns =>
      refine List.Nodup.filter _ (List.Nodup.map ?_ ?_)
      · intro a b hab
        simpa using hab
      · unfold listdir at hlist
        cases hloc : locate u true d with
        | error err => simp [bind, Except.bind, hloc] at hlist
        | ok c =>
          simp only [bind, Except.bind, hloc] at hlist
          split at hlist
          · obtain rfl := Except.ok.inj hlist
            exact names_nodup u c
          all_goals cases hlist
  · refine (List.nodup_dedup _).imp ?_
    intro d d' hne p hp hp'
    refine hne ?_
    cases hlist : listdir u d with
    | error err => simp [hlist] at hp
    | ok ns =>
      cases hlist' : listdir u d' with
      | error err => simp [hlist'] at hp'
      | ok ns' =>
        simp only [hlist] at hp
        simp only [hlist'] at hp'
        exact (hsnoc hp).symm.trans (hsnoc hp')

/-! ## The loop over the extras -/

/-- While extras are moved: the entries stay as `u` has them, and below the place for what is
displaced stand directories of `u` and what has gone there. -/
structure Displacing (M : List Entry) (job : Path) (u : PosixTree.Tree γ) (gone : List Path)
    (v : PosixTree.Tree γ) : Prop where
  closed : DirClosed v
  dirs : ∀ q, DirAt u q → DirAt v q
  back : ∀ q, DirAt v q → DirAt u q ∨ job ++ ["displaced"] <+: q
  kept : ∀ e ∈ M, v.get e.path = u.get e.path
  below : ∀ s, v.get (job ++ "displaced" :: s) ≠ none →
    DirAt u s ∧ DirAt v (job ++ "displaced" :: s) ∨ s ∈ gone ∧ ¬ DirAt u s
  result : v.get (job ++ ["result.json"]) = u.get (job ++ ["result.json"])

theorem During.displacing (h : During cfg host L M job (sortEntries M) [] u)
    (hprep : Prepared cfg codec L M job) : Displacing M job u [] u := by
  refine ⟨h.closed, fun _ => id, fun _ => Or.inl, fun _ _ => rfl, ?_, rfl⟩
  intro s hs
  refine absurd ?_ hs
  rw [h.job _ (List.prefix_append job _)]
  have hnone : L.get (job ++ ["displaced"]) = none := by
    by_contra hne
    have := hprep.only "displaced" hne
    simp at this
  exact hprep.wf.none_below hnone ⟨s, by simp⟩

theorem snoc_displaced (job r : Path) (n : Name) :
    job ++ "displaced" :: (r ++ [n]) = (job ++ "displaced" :: r) ++ [n] := by
  simp

/-- The directories made for an extra are in the job. -/
theorem outside_of_grown (hw : Grown host v w job s) (hq : ¬ job <+: q) : w.get q = v.get q := by
  refine hw.kept q (Or.inr ?_)
  rintro s - rfl
  exact hq (List.prefix_append job s)

section Displace

variable (h : Displacing M job u gone v) (hx : Extra M job u d n) (hjob : DirAt u job)
  (hclosed : DirClosed u)

include h hx hjob hclosed

/-- What has gone there is no directory of `u`, so it is not on the way. -/
theorem Displacing.clear : Clear v job ("displaced" :: d) := by
  intro s hs
  cases s with
  | nil => exact Or.inl (by simpa using h.dirs job hjob)
  | cons x s =>
    obtain ⟨rfl, r, rfl⟩ := List.cons_prefix_cons.mp hs
    by_cases hnone : v.get (job ++ "displaced" :: s) = none
    · exact Or.inr hnone
    · rcases h.below s hnone with ⟨-, hdir⟩ | ⟨-, hnd⟩
      · exact Or.inl hdir
      · exact absurd (hclosed.of_append hx.dir) hnd

theorem Displacing.moved (hapart : ∀ e ∈ M, ¬ job <+: e.path)
    (hw : Grown host v w job ("displaced" :: d)) (hndw : ¬ DirAt w (d ++ [n]))
    (hndq : ¬ DirAt w ((job ++ "displaced" :: d) ++ [n]))
    (ht : Moved w t (d ++ [n]) ((job ++ "displaced" :: d) ++ [n])) :
    Displacing M job u (gone ++ [d ++ [n]]) t := by
  have hjv := h.dirs job hjob
  have hclear := h.clear hx hjob hclosed
  have hcw := hw.dirClosed hclear hjv h.closed
  have hdirs : ∀ q, DirAt t q ↔ DirAt w q := fun q => ht.dirAt_iff hndw hndq
  refine ⟨ht.dirClosed hndw hndq hcw, ?_, ?_, ?_, ?_, ?_⟩
  · exact fun q hq => (hdirs q).mpr (hw.extends.dirAt (h.dirs q hq))
  · intro q hq
    obtain ⟨a, l, hget⟩ := (hdirs q).mp hq
    by_cases hnone : v.get q = none
    · by_cases hmade : ∀ s, s <+: "displaced" :: d → q ≠ job ++ s
      · rw [hw.kept q (Or.inr hmade), hnone] at hget
        cases hget
      · push Not at hmade
        obtain ⟨s, hs, rfl⟩ := hmade
        cases s with
        | nil => exact Or.inl (by simpa using hjob)
        | cons x s =>
          obtain ⟨rfl, -⟩ := List.cons_prefix_cons.mp hs
          exact Or.inr ⟨s, by simp⟩
    · exact h.back q ⟨a, l, (hw.kept q (Or.inl hnone)).symm.trans hget⟩
  · intro e he
    rw [ht.others _ (hx.unnamed e he), outside_of_grown hw (hapart e he), h.kept e he]
    intro heq
    exact hapart e he (heq ▸ ⟨"displaced" :: d ++ [n], by simp⟩)
  · intro s hs
    by_cases hsp : s = d ++ [n]
    · exact Or.inr ⟨by simp [hsp], hsp ▸ hx.nodir⟩
    have hne : job ++ "displaced" :: s ≠ d ++ [n] := fun heq =>
      hx.apart (heq ▸ List.prefix_append job _)
    have hnq : job ++ "displaced" :: s ≠ (job ++ "displaced" :: d) ++ [n] := by
      rw [← snoc_displaced]
      intro heq
      exact hsp (by simpa using heq)
    rw [ht.others _ hne hnq] at hs
    rw [hdirs]
    by_cases hnone : v.get (job ++ "displaced" :: s) = none
    · by_cases hmade : ∀ r, r <+: "displaced" :: d → job ++ "displaced" :: s ≠ job ++ r
      · rw [hw.kept _ (Or.inr hmade), hnone] at hs
        exact absurd rfl hs
      · push Not at hmade
        obtain ⟨r, hr, heq⟩ := hmade
        obtain rfl := List.append_cancel_left heq
        obtain ⟨-, x, rfl⟩ := List.cons_prefix_cons.mp hr
        exact Or.inl ⟨hclosed.of_append hx.dir, hw.dirAt hclear hjv hr⟩
    · rcases h.below s hnone with ⟨hdu, hdv⟩ | ⟨hgone, hnd⟩
      · exact Or.inl ⟨hdu, hw.extends.dirAt hdv⟩
      · exact Or.inr ⟨by simp [hgone], hnd⟩
  · rw [ht.others, hw.kept, h.result]
    · refine Or.inr ?_
      intro s hs heq
      obtain rfl := List.append_cancel_left heq
      have := (List.cons_prefix_cons.mp hs).1
      simp at this
    · intro heq
      exact hx.apart (heq ▸ List.prefix_append job _)
    · simp

/-- One extra moved, whichever way it goes. -/
theorem Displacing.sat_displace (hjn : ∀ m ∈ job, ValidName m)
    (hapart : ∀ e ∈ M, ¬ job <+: e.path) (hnew : d ++ [n] ∉ gone) :
    Sat (displace host job (d ++ [n])) v (fun _ w => Displacing M job u (gone ++ [d ++ [n]]) w)
      fun _ w => Displacing M job u (gone ++ [d ++ [n]]) w := by
  have hjv := h.dirs job hjob
  have hclear := h.clear hx hjob hclosed
  have hlead := h.closed.leads hjn hjv
  have hnames : ∀ m ∈ "displaced" :: d, ValidName m := by
    intro m hm
    rcases List.mem_cons.mp hm with rfl | hm
    · decide
    · exact hx.names m hm
  unfold displace
  rw [List.dropLast_concat, sat_bind]
  refine sat_makedirs h.closed hlead hnames hclear fun w hw => ?_
  have hcw := hw.dirClosed hclear hjv h.closed
  have hndv : ¬ DirAt v (d ++ [n]) := by
    intro hdir
    rcases h.back _ hdir with hdir | hpre
    · exact hx.nodir hdir
    · exact hx.apart ((List.prefix_append job _).trans hpre)
  have hndw : ¬ DirAt w (d ++ [n]) := by
    unfold DirAt at hndv ⊢
    rwa [outside_of_grown hw hx.apart]
  have hfree : v.get ((job ++ "displaced" :: d) ++ [n]) = none := by
    rw [← snoc_displaced]
    by_contra hne
    rcases h.below _ hne with ⟨hdir, -⟩ | ⟨hgone, -⟩
    · exact hx.nodir hdir
    · exact hnew hgone
  have hdst : w.get ((job ++ "displaced" :: d) ++ [n]) = none := by
    rw [List.append_assoc, hw.kept _ (Or.inr fun s hs heq => append_snoc_ne hs heq.symm)]
    simpa using hfree
  have hndq : ¬ DirAt w ((job ++ "displaced" :: d) ++ [n]) := by
    rintro ⟨a, l, hget⟩
    exact nomatch hdst.symm.trans hget
  have hdw := hcw.leads hx.names (hw.extends.dirAt (h.dirs d hx.dir))
  have hsw : Leads w (job ++ "displaced" :: d) (job ++ "displaced" :: d) :=
    hw.leads hclear h.closed hlead hnames
  have hsn : ∀ m ∈ job ++ "displaced" :: d, ValidName m := by
    intro m hm
    rcases List.mem_append.mp hm with hm | hm
    · exact hjn m hm
    · exact hnames m hm
  rw [snoc_displaced]
  refine (sat_move hcw hdw hx.names hx.name hsw hsn hndw hdst).mono ?_ ?_
  · exact fun _ t ht => h.moved hx hjob hclosed hapart hw hndw hndq ht
  · exact fun _ t ht => h.moved hx hjob hclosed hapart hw hndw hndq ht

end Displace

theorem sat_displaceExtra_ok {δ : Type} {R : PosixTree.Tree γ → Prop}
    {F : δ → PosixTree.Tree γ → Prop} {out : Tally}
    (h : Sat (displace host job p) t (fun _ => R) fun _ => R) :
    Sat (displaceExtra host job out p) t
      (fun out' u => (out'.errors = [] → out.errors = []) ∧ R u) F := by
  unfold displaceExtra
  rw [sat_bind, sat_attempt]
  refine h.mono (fun _ _ hR => ⟨id, hR⟩) ?_
  intro err u hR
  exact ⟨fun hnil => by simp at hnil, hR⟩

theorem sat_errors_grow {δ : Type} {F : δ → PosixTree.Tree γ → Prop} (extras : List Path)
    (out : Tally) (t : PosixTree.Tree γ) : Sat (extras.foldlM (displaceExtra host job) out) t
      (fun out' _ => out'.errors = [] → out.errors = []) F := by
  refine @Sat.foldlM _ _ _ F _ (fun _ _ out' _ => out'.errors = [] → out.errors = [])
    (displaceExtra host job) ?_ extras [] out t id
  intro done p todo out' u h
  exact (sat_displaceExtra_ok sat_true).mono (fun _ _ hout => h ∘ hout.1) fun _ _ h => h

theorem During.sat_extras {δ : Type} {F : δ → PosixTree.Tree γ → Prop} {out : Tally}
    (h : During cfg host L M job (sortEntries M) [] u) (hM : Manifest M)
    (hfree : Unobstructed L M job) (hprep : Prepared cfg codec L M job) (extras : List Path)
    (hperm : extras.Perm (extrasUnder u M)) :
    Sat (extras.foldlM (displaceExtra host job) out) u
      (fun _ v => Displacing M job u extras v) F := by
  refine (@Sat.foldlM _ _ _ F _ (fun done todo _ v => done ++ todo = extras ∧
    Displacing M job u done v) (displaceExtra host job) ?_ extras [] out u
    ⟨rfl, h.displacing hprep⟩).mono (fun _ _ h => by simpa using h.2) fun _ _ h => h
  rintro done p todo out' v ⟨hsplit, hv⟩
  have hmem : p ∈ extrasUnder u M := hperm.mem_iff.mp (by rw [← hsplit]; simp)
  have hnodup : (done ++ p :: todo).Nodup := hsplit ▸ hperm.nodup_iff.mpr (extrasUnder_nodup u M)
  obtain ⟨d, n, rfl, hx⟩ := h.extra hM hfree hprep hmem
  have hnew : d ++ [n] ∉ done := by
    intro hdone
    exact (List.nodup_append.mp hnodup).2.2 _ hdone _ List.mem_cons_self rfl
  refine (sat_displaceExtra_ok (hv.sat_displace hx (h.kept job hprep.dir) h.closed
    (hprep.wf.plain hprep.dir).names hfree.apart hnew)).mono ?_ fun _ _ h => h
  exact fun _ w hw => ⟨by simpa using hsplit, hw.2⟩

end FlashbackRestore
