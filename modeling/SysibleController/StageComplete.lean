import SysibleController.RestoreStage

/-! What the staged tree holds when `stage` returns, after any number of interrupted calls for the
same job and manifest. -/
namespace FlashbackStage

open AtomicSteps Prog EarlyExit PosixTree
open FlashbackRestore (orDefault)
open RestorePoll (Entry components partPath)

variable {γ : Type} {cfg : Settings γ} {host : Host} {job p q : Path} {n : Name} {e x : Entry}
  {t u v : PosixTree.Tree γ} {entries pre post : List Entry}

/-- What the walk of a machine writes into a manifest: distinct normal paths, a directory for the
root, and a digest for each file. -/
structure Walked (entries : List Entry) : Prop where
  distinct : (entries.map fun e => components e.path).Nodup
  root : ∀ e ∈ entries, components e.path = [""] → kindOf e = .dir
  names : ∀ e ∈ entries, components e.path ≠ [""] → ∀ n ∈ components e.path, ValidName n
  hashed : ∀ e ∈ entries, kindOf e = .file → e.sha256 ≠ ""

/-- No entry lies below a link entry, and no file comes after a link or file under its temporary
name. -/
structure Undisturbed (entries : List Entry) : Prop where
  links : ∀ e ∈ entries, kindOf e = .link → ∀ e' ∈ entries,
    components e.path <+: components e'.path → components e.path = components e'.path
  order : ∀ pre e post, entries = pre ++ e :: post → kindOf e = .file → ∀ e' ∈ pre,
    kindOf e' ≠ .dir → components e'.path ≠ partPath (components e.path)

/-- The place of an entry in the staged tree. -/
def spot (job : Path) (e : Entry) : Path := straight (dest job e)

/-- A regular file whose content hashes to the entry's digest. -/
def Right (cfg : Settings γ) (job : Path) (u : PosixTree.Tree γ) (e : Entry) : Prop :=
  ∃ a c r, u.get (spot job e) = some (.file a c r) ∧ cfg.sha256 c = e.sha256

def Holds (cfg : Settings γ) (job : Path) (u : PosixTree.Tree γ) (e : Entry) : Prop :=
  match kindOf e with
  | .dir => DirAt u (spot job e)
  | .link => ∃ a, u.get (spot job e) = some (.link a e.target)
  | .file => Right cfg job u e

/-- A link stands under the temporary name of the file, or of the file under that name, and so
on. -/
inductive Pinned (job : Path) (entries : List Entry) (u : PosixTree.Tree γ) : Entry → Prop where
  | link {e : Entry} : LinkAt u (partPath (spot job e)) → Pinned job entries u e
  | file {e e' : Entry} : e' ∈ entries → kindOf e' = .file → spot job e' = partPath (spot job e) →
      Pinned job entries u e' → Pinned job entries u e

def SpecialAt (u : PosixTree.Tree γ) (q : Path) : Prop := ∃ a k, u.get q = some (.special a k)

/-- What calls that were cut off leave behind: links at link entries only, and a file that could
not be written any more is there. -/
structure Resumable (cfg : Settings γ) (job : Path) (entries : List Entry)
    (u : PosixTree.Tree γ) : Prop where
  rooted : Rooted u job
  links : ∀ q, job <+: q → LinkAt u q → ∃ e ∈ entries, kindOf e = .link ∧ q = spot job e
  specials : ∀ q, job <+: q → ¬ SpecialAt u q
  right : ∀ e ∈ entries, kindOf e = .file → Pinned job entries u e → Right cfg job u e

/-- The state between two entries of a call. -/
structure Underway (cfg : Settings γ) (job : Path) (entries pre : List Entry)
    (u : PosixTree.Tree γ) : Prop extends Resumable cfg job entries u where
  tree : DirAt u (job ++ ["tree"])
  done : ∀ e ∈ pre, Holds cfg job u e

/-- From `u` to `v`, places of `A` may have changed and links may have come at places of `L`. -/
structure Touches (A L : Path → Prop) (u v : PosixTree.Tree γ) : Prop where
  kept : ∀ q, ¬ A q → v.get q = u.get q
  dirs : ∀ q, DirAt u q → DirAt v q
  links : ∀ q, LinkAt v q → LinkAt u q ∨ L q
  specials : ∀ q, SpecialAt v q → SpecialAt u q

/-! ## Single changes -/

theorem touches_put (node : Node γ) (hdir : ¬ DirAt u q ∨ node.isDir = true)
    (hspecial : ∀ a k, node = .special a k → SpecialAt u q) :
    Touches (· = q) (fun r => r = q ∧ node.isLink = true) u (u.put q node) := by
  refine ⟨fun r hr => ?_, fun r hr => ?_, fun r hr => ?_, fun r hr => ?_⟩
  · rw [Tree.get_put, if_neg hr]
  · by_cases hrq : r = q
    · subst hrq
      exact dirAt_iff.mpr ⟨node, by simp, hdir.resolve_left (not_not.mpr hr)⟩
    · obtain ⟨a, l, hget⟩ := hr
      exact ⟨a, l, by rw [Tree.get_put, if_neg hrq, hget]⟩
  · obtain ⟨a, target, hget⟩ := hr
    rw [Tree.get_put] at hget
    split_ifs at hget with hrq
    · obtain rfl := Option.some.inj hget
      exact .inr ⟨hrq, rfl⟩
    · exact .inl ⟨a, target, hget⟩
  · obtain ⟨a, k, hget⟩ := hr
    rw [Tree.get_put] at hget
    split_ifs at hget with hrq
    · exact hrq ▸ hspecial a k (Option.some.inj hget)
    · exact ⟨a, k, hget⟩

theorem touches_drop (hdir : ¬ DirAt u q) : Touches (· = q) (fun _ => False) u (u.drop q) := by
  refine ⟨fun r hr => ?_, fun r hr => ?_, fun r hr => ?_, fun r hr => ?_⟩
  · rw [Tree.get_drop, if_neg hr]
  · have hrq : r ≠ q := by
      rintro rfl
      exact hdir hr
    obtain ⟨a, l, hget⟩ := hr
    exact ⟨a, l, by rw [Tree.get_drop, if_neg hrq, hget]⟩
  · obtain ⟨a, target, hget⟩ := hr
    rw [Tree.get_drop] at hget
    split_ifs at hget
    exact .inl ⟨a, target, hget⟩
  · obtain ⟨a, k, hget⟩ := hr
    rw [Tree.get_drop] at hget
    split_ifs at hget
    exact ⟨a, k, hget⟩

theorem Pinned.of_links (h : Pinned job entries v e) (hl : ∀ q, LinkAt v q → LinkAt u q) :
    Pinned job entries u e := by
  induction h with
  | link hlink => exact .link (hl _ hlink)
  | file hmem hkind hspot _ ih => exact .file hmem hkind hspot ih

theorem Right.kept (h : Right cfg job u e) (hget : v.get (spot job e) = u.get (spot job e)) :
    Right cfg job v e := by
  unfold Right at h ⊢
  rwa [hget]

theorem Holds.touches {A L : Path → Prop} (h : Holds cfg job u e) (hT : Touches A L u v)
    (hA : kindOf e ≠ .dir → ¬ A (spot job e)) : Holds cfg job v e := by
  unfold Holds at h ⊢
  cases hk : kindOf e with
  | dir =>
    rw [hk] at h
    exact hT.dirs _ h
  | link =>
    rw [hk] at h
    obtain ⟨a, hget⟩ := h
    exact ⟨a, (hT.kept _ (hA (by simp [hk]))).trans hget⟩
  | file =>
    rw [hk] at h
    exact Right.kept h (hT.kept _ (hA (by simp [hk])))

/-- A change that makes no link. -/
theorem Resumable.touches {A : Path → Prop} (h : Resumable cfg job entries u)
    (hT : Touches A (fun _ => False) u v)
    (hright : ∀ x ∈ entries, kindOf x = .file → A (spot job x) → Pinned job entries u x →
      Right cfg job v x) : Resumable cfg job entries v := by
  have hl : ∀ q, LinkAt v q → LinkAt u q := fun q hq => (hT.links q hq).resolve_right id
  refine ⟨⟨h.rooted.names, fun s hs hne => hT.dirs s (h.rooted.dirs s hs hne),
    fun hjob => h.rooted.place (hl _ hjob)⟩, fun q hq hlink => h.links q hq (hl q hlink),
    fun q hq hspecial => h.specials q hq (hT.specials q hspecial), ?_⟩
  intro x hx hkind hpin
  have hpin' := hpin.of_links hl
  by_cases hA : A (spot job x)
  · exact hright x hx hkind hA hpin'
  · exact (h.right x hx hkind hpin').kept (hT.kept _ hA)

theorem Underway.touches {A : Path → Prop} (h : Underway cfg job entries pre u)
    (hT : Touches A (fun _ => False) u v)
    (hdone : ∀ e ∈ pre, kindOf e ≠ .dir → ¬ A (spot job e))
    (hright : ∀ x ∈ entries, kindOf x = .file → A (spot job x) → Pinned job entries u x →
      Right cfg job v x) : Underway cfg job entries pre v :=
  ⟨h.toResumable.touches hT hright, hT.dirs _ h.tree,
    fun e he => (h.done e he).touches hT (hdone e he)⟩

theorem Touches.mono {A A' L L' : Path → Prop} (h : Touches A L u v) (hA : ∀ q, A q → A' q)
    (hL : ∀ q, L q → L' q) : Touches A' L' u v :=
  ⟨fun q hq => h.kept q fun hAq => hq (hA q hAq), h.dirs,
    fun q hq => (h.links q hq).imp_right (hL q), h.specials⟩

theorem touches_put_plain (node : Node γ) (hdir : ¬ DirAt u q ∨ node.isDir = true)
    (hlink : node.isLink = false) (hspecial : ∀ a k, node = .special a k → SpecialAt u q) :
    Touches (· = q) (fun _ => False) u (u.put q node) :=
  (touches_put node hdir hspecial).mono (fun _ hr => hr) fun r hr => by simp [hlink] at hr

theorem mkdir_touches (h : mkdir host p u = .ok v) :
    Touches (fun q => u.get q = none) (fun _ => False) u v := by
  obtain ⟨q, a, -, hnone, rfl⟩ := mkdir_form h
  have hput := touches_put_plain (.dir a true) (.inl (not_dirAt_of_none hnone)) rfl
    (by simp)
  exact hput.mono (fun r hr => hr ▸ hnone) fun _ hr => hr

theorem Right.get_ne (h : Right cfg job u e) : u.get (spot job e) ≠ none := by
  obtain ⟨a, c, r, hget, -⟩ := h
  simp [hget]

theorem Holds.get_ne (h : Holds cfg job u e) : u.get (spot job e) ≠ none := by
  unfold Holds at h
  split at h
  · obtain ⟨a, l, hget⟩ := h
    simp [hget]
  · obtain ⟨a, hget⟩ := h
    simp [hget]
  · exact h.get_ne

theorem keeps_mkdir_resumable :
    Keeps (Resumable cfg job entries) (step (mkdir host p) : FsM γ Unit) :=
  keeps_step fun _ _ hs h => hs.touches (mkdir_touches h) fun x hx hkind hnone hpin =>
    absurd hnone (hs.right x hx hkind hpin).get_ne

theorem keeps_mkdir_underway :
    Keeps (Underway cfg job entries pre) (step (mkdir host p) : FsM γ Unit) :=
  keeps_step fun _ _ hs h => hs.touches (mkdir_touches h)
    (fun e he _ hnone => absurd hnone (hs.done e he).get_ne) fun x hx hkind hnone hpin =>
    absurd hnone (hs.right x hx hkind hpin).get_ne

/-! ## Paths of entries -/

theorem spot_eq (hroot : Rooted t job) (hn : ∀ n ∈ components e.path, ValidName n) :
    spot job e = dest job e := by
  refine straight_of_names fun n hmem => ?_
  rcases List.mem_append.mp hmem with hmem | hmem
  · exact hroot.names n hmem
  · rcases List.mem_cons.mp hmem with rfl | hmem
    · decide
    · exact hn n hmem

theorem Walked.eq_of_path (hW : Walked entries) {e e' : Entry} (he : e ∈ entries)
    (he' : e' ∈ entries) (h : components e.path = components e'.path) : e = e' :=
  List.inj_on_of_nodup_map hW.distinct he he' h

theorem partPath_snoc (d : Path) (n : Name) : partPath (d ++ [n]) = d ++ [n ++ ".part"] := by
  simp [partPath]

theorem validName_part (n : Name) : ValidName (n ++ ".part") := by
  have hlast : ∀ s : Name, s.toList.getLast? ≠ some 't' → n ++ ".part" ≠ s := by
    rintro s hs rfl
    exact hs (by simp)
  exact ⟨hlast _ (by decide), hlast _ (by decide), hlast _ (by decide)⟩

theorem dest_snoc (job : Path) {d : Path} (hd : components e.path = d ++ [n]) :
    dest job e = (job ++ "tree" :: d) ++ [n] := by simp [dest, hd]

section Paths

variable (hW : Walked entries) (hU : Undisturbed entries) (h : Resumable cfg job entries u)

include hW h in
theorem Resumable.direct {comps : Path} {f : Bool} (hn : ∀ n ∈ comps, ValidName n)
    (hl : ∀ e ∈ entries, kindOf e = .link → components e.path <+: comps →
      components e.path = comps ∧ f = false) :
    Direct (LinkAt u) f (job ++ "tree" :: comps) := by
  have hnames : ∀ n ∈ job ++ "tree" :: comps, ValidName n := by
    intro n hmem
    rcases List.mem_append.mp hmem with hmem | hmem
    · exact h.rooted.names n hmem
    · rcases List.mem_cons.mp hmem with rfl | hmem
      · decide
      · exact hn n hmem
  refine ⟨fun hup => (hnames _ hup).2.2 rfl, fun s r heq hr hlink => ?_⟩
  have hs : s <+: job ++ "tree" :: comps := ⟨r, heq⟩
  rw [straight_of_names fun n hmem => hnames n (hs.subset hmem)] at hlink
  rcases List.prefix_or_prefix_of_prefix hs (List.prefix_append job _) with hpre | hpre
  · by_cases hjob : s = job
    · exact h.rooted.place (hjob ▸ hlink)
    · obtain ⟨a, k, hdir⟩ := h.rooted.dirs s hpre hjob
      obtain ⟨b, target, hget⟩ := hlink
      rw [hdir] at hget
      cases hget
  · obtain ⟨e, he, hkind, rfl⟩ := h.links s hpre hlink
    have hne : components e.path ≠ [""] := fun hempty => by
      rw [hW.root e he hempty] at hkind
      cases hkind
    rw [spot_eq h.rooted (hW.names e he hne)] at heq
    have hrest : components e.path ++ r = comps := by
      have := heq
      rw [dest, List.append_assoc] at this
      simpa using List.append_cancel_left this
    obtain ⟨hall, hf⟩ := hl e he hkind ⟨r, hrest⟩
    rw [hall] at hrest
    have hnil : r = [] := by simpa using hrest
    rw [hr hnil] at hf
    cases hf

variable (he : e ∈ entries) (hne : components e.path ≠ [""])

include hW hU h he hne

theorem Resumable.direct_dest : Direct (LinkAt u) false (dest job e) := by
  refine h.direct hW (hW.names e he hne) fun e' he' hkind hpre => ⟨?_, rfl⟩
  exact hU.links e' he' hkind e he hpre

theorem Resumable.followed_dest (hkind : kindOf e ≠ .link) :
    Direct (LinkAt u) true (dest job e) := by
  refine h.direct hW (hW.names e he hne) fun e' he' hkind' hpre => absurd ?_ hkind
  rw [← hW.eq_of_path he' he (hU.links e' he' hkind' e he hpre)]
  exact hkind'

theorem Resumable.direct_part : Direct (LinkAt u) false (partPath (dest job e)) := by
  obtain ⟨d, n, hd⟩ := (List.eq_nil_or_concat' (components e.path)).resolve_left
    (components_ne_nil _)
  have hpart : partPath (dest job e) = job ++ "tree" :: (d ++ [n ++ ".part"]) := by
    rw [dest_snoc job hd, partPath_snoc]
    simp
  have hnames := hW.names e he hne
  rw [hd] at hnames
  rw [hpart]
  refine h.direct hW ?_ fun e' he' hkind hpre => ?_
  · intro m hm
    rcases List.mem_append.mp hm with hm | hm
    · exact hnames m (by simp [hm])
    · exact List.mem_singleton.mp hm ▸ validName_part n
  · rcases List.prefix_concat_iff.mp hpre with heq | hpre
    · exact ⟨heq, rfl⟩
    · have hin : components e'.path <+: components e.path :=
        hd ▸ hpre.trans (List.prefix_append d [n])
      rw [hU.links e' he' hkind e he hin, hd] at hpre
      have hlen := hpre.length_le
      rw [List.length_append, List.length_singleton] at hlen
      omega

end Paths

/-! ## One entry -/

section Step

variable (hW : Walked entries) (hU : Undisturbed entries)

include hW

theorem spot_entry (h : Rooted u job) (he : e ∈ entries) (hne : components e.path ≠ [""]) :
    spot job e = job ++ "tree" :: components e.path := spot_eq h (hW.names e he hne)

theorem named_of_kind (he : e ∈ entries) (hkind : kindOf e ≠ .dir) : components e.path ≠ [""] :=
  fun hempty => hkind (hW.root e he hempty)

theorem eq_of_spot (h : Rooted u job) {e e' : Entry} (he : e ∈ entries) (he' : e' ∈ entries)
    (hne : components e.path ≠ [""]) (hne' : components e'.path ≠ [""])
    (hspot : spot job e = spot job e') : e = e' := by
  rw [spot_entry hW h he hne, spot_entry hW h he' hne'] at hspot
  have := List.append_cancel_left hspot
  exact hW.eq_of_path he he' (by simpa using this)

theorem partPath_spot (h : Rooted u job) (he : e ∈ entries) (hne : components e.path ≠ [""]) :
    partPath (spot job e) = job ++ "tree" :: partPath (components e.path) := by
  obtain ⟨d, n, hd⟩ := (List.eq_nil_or_concat' (components e.path)).resolve_left
    (components_ne_nil _)
  rw [spot_entry hW h he hne, hd, partPath_snoc]
  have happ : job ++ "tree" :: (d ++ [n]) = (job ++ "tree" :: d) ++ [n] := by simp
  rw [happ, partPath_snoc]
  simp

include hU

/-- A file whose temporary name belongs to an entry comes before that. -/
theorem before_part (h : Rooted u job) (hsplit : entries = pre ++ post) (hx : x ∈ entries)
    (hkind : kindOf x = .file) (he : e ∈ pre) (hdir : kindOf e ≠ .dir)
    (hspot : spot job e = partPath (spot job x)) : x ∈ pre := by
  rw [hsplit] at hx
  rcases List.mem_append.mp hx with hx | hx
  · exact hx
  · obtain ⟨a, b, rfl⟩ := List.append_of_mem hx
    have he' : e ∈ entries := by simp [hsplit, he]
    have hx' : x ∈ entries := by simp [hsplit]
    have hxne := named_of_kind hW hx' (by simp [hkind])
    rw [spot_entry hW h he' (named_of_kind hW he' hdir), partPath_spot hW h hx' hxne] at hspot
    refine absurd ?_ (hU.order (pre ++ a) x b (by simp [hsplit]) hkind e (by simp [he]) hdir)
    have := List.append_cancel_left hspot
    simpa using this

variable (hsplit : entries = pre ++ e :: post)

omit hU in
theorem spot_ne_of_done (h : Rooted u job) (hsplit : entries = pre ++ e :: post)
    (hne : components e.path ≠ [""]) (hx : x ∈ pre) (hkind : kindOf x ≠ .dir) :
    spot job x ≠ spot job e := by
  intro hspot
  have hxin : x ∈ entries := by simp [hsplit, hx]
  obtain rfl := eq_of_spot hW h hxin (by simp [hsplit]) (named_of_kind hW hxin hkind) hne hspot
  have hnodup := hW.distinct
  rw [hsplit, List.map_append, List.map_cons] at hnodup
  have hdisjoint := (List.nodup_append.mp hnodup).2.2
  exact hdisjoint _ (List.mem_map.mpr ⟨x, hx, rfl⟩) _ List.mem_cons_self rfl

include hsplit

omit hU in
/-- What one call may do to the entry's own place. -/
theorem Underway.own {w : PosixTree.Tree γ} (h : Underway cfg job entries pre u)
    (hne : components e.path ≠ [""]) (hT : Touches (· = spot job e) (fun _ => False) u w)
    (hright : kindOf e = .file → Right cfg job w e) : Underway cfg job entries pre w := by
  refine h.touches hT (fun x hx hkind => spot_ne_of_done hW h.rooted hsplit hne hx hkind) ?_
  intro x hx hkind hspot _
  have hxne := named_of_kind hW hx (by simp [hkind])
  obtain rfl := eq_of_spot hW h.rooted hx (by simp [hsplit]) hxne hne hspot
  exact hright hkind

theorem Underway.temp {w : PosixTree.Tree γ} (h : Underway cfg job entries pre u)
    (hkind : kindOf e = .file) (hnot : ¬ Right cfg job u e)
    (hT : Touches (· = partPath (spot job e)) (fun _ => False) u w) :
    Underway cfg job entries pre w := by
  have he : e ∈ entries := by simp [hsplit]
  refine h.touches hT (fun x hx hxkind hspot => ?_) fun x hx hxkind hspot hpin => ?_
  · have hin := before_part hW hU h.rooted hsplit he hkind hx hxkind hspot
    have hsame := spot_ne_of_done hW h.rooted hsplit
      (named_of_kind hW he (by simp [hkind])) hin (by simp [hkind])
    exact hsame rfl
  · exact absurd (h.right e he hkind (.file hx hxkind hspot hpin)) hnot

theorem Underway.plant {a : Attrs} (h : Underway cfg job entries pre u) (hkind : kindOf e = .link)
    (hnone : u.get (spot job e) = none) :
    Underway cfg job entries pre (u.put (spot job e) (.link a e.target)) := by
  have he : e ∈ entries := by simp [hsplit]
  have hne := named_of_kind hW he (by simp [hkind])
  have hT := touches_put (.link a e.target) (.inl (not_dirAt_of_none hnone)) (by simp)
  set v := u.put (spot job e) (.link a e.target)
  have hkept : ∀ x ∈ entries, kindOf x = .file → v.get (spot job x) = u.get (spot job x) := by
    intro x hx hxkind
    refine hT.kept _ fun hspot => ?_
    obtain rfl := eq_of_spot hW h.rooted hx he (named_of_kind hW hx (by simp [hxkind])) hne hspot
    rw [hkind] at hxkind
    cases hxkind
  have hsplit' : entries = (pre ++ [e]) ++ post := by simp [hsplit]
  -- A file pinned by the new link comes before it in the manifest.
  have hpinned : ∀ x, Pinned job entries v x → x ∈ entries → kindOf x = .file →
      Pinned job entries u x ∨ x ∈ pre := by
    intro x hpin
    have hbefore : ∀ x ∈ entries, kindOf x = .file → ∀ y ∈ pre ++ [e], kindOf y ≠ .dir →
        spot job y = partPath (spot job x) → x ∈ pre := by
      intro x hx hxkind y hy hydir hspot
      have hin := before_part hW hU h.rooted hsplit' hx hxkind hy hydir hspot
      rcases List.mem_append.mp hin with hin | hin
      · exact hin
      · obtain rfl := List.mem_singleton.mp hin
        rw [hkind] at hxkind
        cases hxkind
    induction hpin with
    | @link x hlink =>
      intro hx hxkind
      rcases hT.links _ hlink with hold | ⟨hspot, -⟩
      · exact .inl (.link hold)
      · exact .inr (hbefore x hx hxkind e (by simp) (by simp [hkind]) hspot.symm)
    | @file x y hy hykind hspot _ ih =>
      intro hx hxkind
      rcases ih hy hykind with hold | hin
      · exact .inl (.file hy hykind hspot hold)
      · exact .inr (hbefore x hx hxkind y (by simp [hin]) (by simp [hykind]) hspot)
  refine ⟨⟨⟨h.rooted.names, fun s hs hjob => hT.dirs s (h.rooted.dirs s hs hjob), ?_⟩, ?_, ?_, ?_⟩,
    hT.dirs _ h.tree, fun x hx => (h.done x hx).touches hT ?_⟩
  · intro hjob
    rcases hT.links _ hjob with hold | ⟨hspot, -⟩
    · exact h.rooted.place hold
    · have := congrArg List.length hspot
      rw [spot_entry hW h.rooted he hne] at this
      simp at this
  · intro q hq hlink
    rcases hT.links q hlink with hold | ⟨rfl, -⟩
    · exact h.links q hq hold
    · exact ⟨e, he, hkind, rfl⟩
  · exact fun q hq hspecial => h.specials q hq (hT.specials q hspecial)
  · intro x hx hxkind hpin
    refine Right.kept ?_ (hkept x hx hxkind)
    rcases hpinned x hpin hx hxkind with hold | hin
    · exact h.right x hx hxkind hold
    · have := h.done x hin
      unfold Holds at this
      rwa [hxkind] at this
  · exact fun hxkind => spot_ne_of_done hW h.rooted hsplit hne hx hxkind

theorem Underway.chmod {w : PosixTree.Tree γ} {mode : ℕ} (h : Underway cfg job entries pre u)
    (hne : components e.path ≠ [""]) (hkind : kindOf e ≠ .link) (hholds : Holds cfg job u e)
    (hrun : chmod (dest job e) mode u = .ok w) :
    Underway cfg job entries pre w ∧ Holds cfg job w e := by
  have he : e ∈ entries := by simp [hsplit]
  obtain ⟨q, node, a, hq, hget, rfl⟩ := chmod_form hrun
  obtain rfl := locate_straight (fun _ h => h)
    (h.toResumable.followed_dest hW hU he hne hkind) hq
  have hnode : node.isLink = false ∧ (∀ b k, node ≠ .special b k) ∧
      Holds cfg job (u.put (spot job e) (node.setAttrs a)) e := by
    unfold Holds at hholds ⊢
    cases hk : kindOf e with
    | link => exact absurd hk hkind
    | dir =>
      rw [hk] at hholds
      obtain ⟨b, l, hdir⟩ := hholds
      obtain rfl := Option.some.inj (hget.symm.trans hdir)
      exact ⟨rfl, by simp, a, l, by simp [Node.setAttrs]⟩
    | file =>
      rw [hk] at hholds
      obtain ⟨b, c, r, hfile, hsha⟩ := hholds
      obtain rfl := Option.some.inj (hget.symm.trans hfile)
      exact ⟨rfl, by simp, a, c, r, by simp [Node.setAttrs], hsha⟩
  obtain ⟨hlink, hspecial, hafter⟩ := hnode
  have hT : Touches (· = spot job e) (fun _ => False) u
      (u.put (spot job e) (node.setAttrs a)) := by
    refine touches_put_plain _ ?_ ?_ fun b k heq => ?_
    · by_cases hdir : DirAt u (spot job e)
      · exact .inr ((isDir_setAttrs node a).trans (isDir_of_dirAt hdir hget))
      · exact .inl hdir
    · cases node <;> first | rfl | cases hlink
    · cases node with
      | special b' k' => exact absurd rfl (hspecial b' k')
      | _ => cases heq
  refine ⟨h.own hW hsplit hne hT fun hfile => ?_, hafter⟩
  unfold Holds at hafter
  rwa [hfile] at hafter

theorem ensures_chmodTo {default : ℕ} (h : Underway cfg job entries pre u)
    (hne : components e.path ≠ [""]) (hkind : kindOf e ≠ .link) (hholds : Holds cfg job u e) :
    Ensures (Underway cfg job entries pre) (chmodTo (dest job e) e.mode default : StageM γ Unit) u
      fun _ v => Holds cfg job v e := by
  unfold chmodTo
  split
  · exact ensures_raise h
  · exact (ensures_step h fun v hv => h.chmod hW hU hsplit hne hkind hholds hv).mapError

theorem ensures_stageDir {out : Summary} (h : Underway cfg job entries pre u)
    (hne : components e.path ≠ [""]) (hkind : kindOf e = .dir) :
    Ensures (Underway cfg job entries pre) (stageDir host job out e : StageM γ Summary) u
      fun _ v => Holds cfg job v e := by
  have he : e ∈ entries := by simp [hsplit]
  obtain ⟨d, n, hd⟩ := (List.eq_nil_or_concat' (dest job e)).resolve_left (by simp [dest])
  have hmade : Ensures (Underway cfg job entries pre) (makedirs host (dest job e) : FsM γ Unit) u
      fun _ v => Holds cfg job v e := by
    unfold Holds
    rw [hkind, hd]
    refine ensures_makedirs (fun q _ => keeps_mkdir_underway) h (fun w v hw hv => ?_) fun w hw hv => ?_
    · obtain ⟨q, a, hq, -, rfl⟩ := mkdir_form hv
      obtain rfl := locate_straight (fun _ h => h)
        (hd ▸ hw.toResumable.direct_dest hW hU he hne) hq
      exact ⟨a, true, by simp [spot, hd]⟩
    · obtain ⟨c, hc, hdir⟩ := isdir_iff.mp hv
      obtain rfl := locate_straight (fun _ h => h)
        (hd ▸ hw.toResumable.followed_dest hW hU he hne (by simp [hkind])) hc
      rwa [spot, hd]
  unfold stageDir
  refine hmade.mapError.bind fun _ v hv hholds => ?_
  exact (ensures_chmodTo hW hU hsplit hv hne (by simp [hkind]) hholds).bind
    fun _ w hw hholds => ensures_pure hw hholds

theorem ensures_stageLink {out : Summary} (h : Underway cfg job entries pre u)
    (hkind : kindOf e = .link) :
    Ensures (Underway cfg job entries pre) (stageLink host job out e : StageM γ Summary) u
      fun _ v => Holds cfg job v e := by
  have he : e ∈ entries := by simp [hsplit]
  have hne := named_of_kind hW he (by simp [hkind])
  have hput : ∀ w, Underway cfg job entries pre w → Ensures (Underway cfg job entries pre)
      (os (step (symlink e.target (dest job e))) >>= fun _ =>
        (pure { out with links := out.links + 1 } : StageM γ Summary)) w
      fun _ v => Holds cfg job v e := by
    intro w hw
    have hmade : Ensures (Underway cfg job entries pre)
        (step (symlink e.target (dest job e)) : FsM γ Unit) w fun _ v => Holds cfg job v e := by
      refine ensures_step hw fun v hv => ?_
      obtain ⟨q, a, hq, hnone, rfl⟩ := symlink_form hv
      obtain rfl := locate_straight (fun _ h => h) (hw.toResumable.direct_dest hW hU he hne) hq
      refine ⟨hw.plant hW hU hsplit hkind hnone, ?_⟩
      unfold Holds
      rw [hkind]
      exact ⟨a, by simp [spot]⟩
    exact hmade.mapError.bind fun _ v hv hholds => ensures_pure hv hholds
  have hparent : Keeps (Underway cfg job entries pre)
      (makedirs host (dest job e).dropLast : FsM γ Unit) :=
    keeps_makedirs fun q _ => keeps_mkdir_underway
  unfold stageLink
  refine (ensures_of_keeps hparent h).mapError.bind fun _ v hv _ => ?_
  refine (ensures_ask (Q := fun _ w => w = v) hv rfl).bind fun b w hw _ => ?_
  cases b with
  | true =>
    have hgone : Ensures (Underway cfg job entries pre) (step (unlink (dest job e)) : FsM γ Unit) w
        fun _ _ => True := by
      refine ensures_step hw fun v' hv' => ⟨?_, trivial⟩
      obtain ⟨q, node, hq, hget, hdir, rfl⟩ := unlink_form hv'
      obtain rfl := locate_straight (fun _ h => h) (hw.toResumable.direct_dest hW hU he hne) hq
      refine hw.own hW hsplit hne (touches_drop (not_dirAt_of_get hget hdir)) fun hfile => ?_
      rw [hkind] at hfile
      cases hfile
    exact hgone.mapError.bind fun _ x hx _ => hput x hx
  | false => exact hput w hw

/-- What is reused is right, and what is fetched was not. -/
theorem ensures_alreadyStaged (h : Underway cfg job entries pre u) (hkind : kindOf e = .file)
    (hpaved : Paved u (dest job e).dropLast) :
    Ensures (Underway cfg job entries pre) (alreadyStaged cfg (dest job e) e.sha256) u
      fun b v => v = u ∧ (b = true ↔ Right cfg job u e) := by
  have he : e ∈ entries := by simp [hsplit]
  have hne := named_of_kind hW he (by simp [hkind])
  have hsha := hW.hashed e he hkind
  obtain ⟨d, n, hd⟩ := (List.eq_nil_or_concat' (dest job e)).resolve_left (by simp [dest])
  have hspot : spot job e = d ++ [n] := by
    rw [← hd]
    exact spot_eq h.rooted (hW.names e he hne)
  have hnames : ∀ m ∈ d ++ [n], ValidName m := by
    intro m hm
    rw [← hd] at hm
    rcases List.mem_append.mp hm with hm | hm
    · exact h.rooted.names m hm
    · rcases List.mem_cons.mp hm with rfl | hm
      · decide
      · exact hW.names e he hne m hm
  rw [hd, List.dropLast_concat] at hpaved
  -- A file that is there can be found, and is no link.
  have hfound : ∀ a c r, u.get (spot job e) = some (.file a c r) →
      pathExists u (dest job e) = true ∧ islink u (dest job e) = false ∧
        (∀ c', readFile u (dest job e) = .ok c' → c' = c) := by
    intro a c r hget
    have hnolink : ¬ LinkAt u (d ++ [n]) := by
      rintro ⟨b, target, hlink⟩
      rw [hspot, hlink] at hget
      cases hget
    rw [hspot] at hget
    have hloc : ∀ f, locate u f (d ++ [n]) = .ok (d ++ [n]) := fun f =>
      locate_paved hpaved (fun m hm => hnames m (by simp [hm])) (hnames n (by simp))
        fun hl => absurd hl hnolink
    rw [hd]
    refine ⟨?_, ?_, fun c' hc' => ?_⟩
    · simp [pathExists, stat, nodeAt, hloc, hget, bind, Except.bind, Except.isOk, Except.toBool]
    · simp [islink, lstat, nodeAt, hloc, hget, bind, Except.bind, Node.isLink]
    · obtain ⟨q, a', hq, hfile⟩ := readFile_ok hc'
      obtain rfl := Except.ok.inj ((hloc true).symm.trans hq)
      rw [hget] at hfile
      cases hfile
      rfl
  unfold alreadyStaged
  refine (ensures_ask (Q := fun b w => w = u ∧ b = (pathExists u (dest job e) &&
    !islink u (dest job e) && decide (e.sha256 ≠ ""))) h ⟨rfl, rfl⟩).bind fun b v hv hb => ?_
  obtain ⟨rfl, rfl⟩ := hb
  split_ifs with hask
  · refine Ensures.bind (Q := fun c w => w = v ∧ readFile v (dest job e) = .ok c) ?_ ?_
    · refine ⟨(keeps_query _).mapError v h, ?_⟩
      rw [os, sat_mapError, sat_query]
      cases hr : readFile v (dest job e) with
      | error e => trivial
      | ok c => exact ⟨rfl, rfl⟩
    · rintro c w hw ⟨rfl, hread⟩
      refine ensures_pure hw ⟨rfl, ?_⟩
      obtain ⟨q, a, hq, hget⟩ := readFile_ok hread
      obtain rfl := locate_straight (fun _ h => h)
        (h.toResumable.followed_dest hW hU he hne (by simp [hkind])) hq
      constructor
      · intro hdec
        exact ⟨a, c, true, hget, by simpa using hdec⟩
      · rintro ⟨b, c', r, hget', hsha'⟩
        obtain rfl := (hfound b c' r hget').2.2 c hread
        simpa using hsha'
  · refine ensures_pure h ⟨rfl, by simp, ?_⟩
    rintro ⟨a, c, r, hget, -⟩
    obtain ⟨hex, hlink, -⟩ := hfound a c r hget
    simp [hex, hlink, hsha] at hask

theorem ensures_parent (h : Underway cfg job entries pre u) (hne : components e.path ≠ [""]) :
    Ensures (Underway cfg job entries pre)
      (os (makedirs host (dest job e).dropLast) : StageM γ Unit) u
      fun _ v => Paved v (dest job e).dropLast := by
  have he : e ∈ entries := by simp [hsplit]
  obtain ⟨c, m, hc⟩ := (List.eq_nil_or_concat' (components e.path)).resolve_left
    (components_ne_nil _)
  obtain ⟨d, n, hd⟩ := (List.eq_nil_or_concat' (job ++ "tree" :: c)).resolve_left (by simp)
  have hparent : (dest job e).dropLast = d ++ [n] := by
    rw [dest_snoc job hc, List.dropLast_concat, hd]
  have hnames : ∀ x ∈ d ++ [n], ValidName x := by
    intro x hx
    rw [← hd] at hx
    rcases List.mem_append.mp hx with hx | hx
    · exact h.rooted.names x hx
    · rcases List.mem_cons.mp hx with rfl | hx
      · decide
      · exact hW.names e he hne x (by simp [hc, hx])
  have hdirect : ∀ w, Underway cfg job entries pre w → Direct (LinkAt w) true (d ++ [n]) := by
    intro w hw
    rw [← hd]
    refine hw.toResumable.direct hW (fun x hx => hW.names e he hne x (by simp [hc, hx])) ?_
    intro e' he' hkind hpre
    have hin : components e'.path <+: components e.path :=
      hc ▸ hpre.trans (List.prefix_append c [m])
    rw [hU.links e' he' hkind e he hin, hc] at hpre
    have hlen := hpre.length_le
    rw [List.length_append, List.length_singleton] at hlen
    omega
  rw [hparent]
  refine (ensures_makedirs (fun q _ => keeps_mkdir_underway) h (fun w v hw hv => ?_)
    fun w hw hv => ?_).mapError
  · have hv' : Underway cfg job entries pre v := hw.touches (mkdir_touches hv)
      (fun x hx _ hnone => absurd hnone (hw.done x hx).get_ne) fun x hx hkind hnone hpin =>
      absurd hnone (hw.right x hx hkind hpin).get_ne
    obtain ⟨q, a, hq, hnone, rfl⟩ := mkdir_form hv
    obtain rfl := locate_straight (fun _ h => h) (hdirect w hw).unfollowed hq
    rw [straight_of_names hnames] at *
    have hw' : Paved (w.put (d ++ [n]) (.dir a true)) (d ++ [n]) := by
      intro s hs hsne
      by_cases hall : s = d ++ [n]
      · exact ⟨a, true, by simp [hall]⟩
      · obtain ⟨b, k, hdir⟩ := paved_below hnames (hdirect w hw).unfollowed hq hs hall hsne
        exact ⟨b, k, by simpa [hall] using hdir⟩
    exact hw'
  · obtain ⟨q, hq, hdir⟩ := isdir_iff.mp hv
    obtain rfl := locate_straight (fun _ h => h) (hdirect w hw) hq
    rw [straight_of_names hnames] at hq hdir
    exact paved_of_locate hnames (hdirect w hw).unfollowed hq hdir

omit hW hU hsplit in
theorem writeFile_plain {c : γ} (h : writeFile host p c u = .ok v)
    (hplain : ∀ q, locate u true p = .ok q → ¬ SpecialAt u q) : ∃ q a,
    locate u true p = .ok q ∧ ¬ DirAt u q ∧ v = u.put q (.file a c true) := by
  obtain ⟨q, hq, h⟩ := EarlyExit.bind_ok h
  split at h
  · next hnone => exact ⟨q, _, hq, not_dirAt_of_none hnone, (Except.ok.inj h).symm⟩
  · next a c' r hnode => exact ⟨q, a, hq, not_dirAt_of_get hnode rfl, (Except.ok.inj h).symm⟩
  · next a hnode => exact absurd ⟨a, _, hnode⟩ (hplain q hq)
  · cases h
  · cases h

omit hW hU hsplit in
theorem partPath_ne (hp : p ≠ []) : p ≠ partPath p := by
  obtain ⟨d, n, rfl⟩ := (List.eq_nil_or_concat' p).resolve_left hp
  rw [partPath_snoc]
  intro h
  have hname := congrArg (fun s : Name => s.toList.length)
    (List.singleton_inj.mp (List.append_cancel_left h))
  simp at hname

theorem ensures_fetchFile {body : Option γ} (h : Underway cfg job entries pre u)
    (hkind : kindOf e = .file) (hnot : ¬ Right cfg job u e) :
    Ensures (Underway cfg job entries pre) (fetchFile cfg host body (dest job e) e.sha256) u
      fun _ v => Holds cfg job v e := by
  have he : e ∈ entries := by simp [hsplit]
  have hne := named_of_kind hW he (by simp [hkind])
  have hsha := hW.hashed e he hkind
  have hspot : spot job e = dest job e := spot_eq h.rooted (hW.names e he hne)
  have hpart : straight (partPath (dest job e)) = partPath (spot job e) := by
    rw [← hspot, partPath_spot hW h.rooted he hne]
    obtain ⟨d, n, hd⟩ := (List.eq_nil_or_concat' (components e.path)).resolve_left
      (components_ne_nil _)
    refine straight_of_names fun m hm => ?_
    rcases List.mem_append.mp hm with hm | hm
    · exact h.rooted.names m hm
    rcases List.mem_cons.mp hm with rfl | hm
    · decide
    rw [hd, partPath_snoc] at hm
    rcases List.mem_append.mp hm with hm | hm
    · exact hW.names e he hne m (by simp [hd, hm])
    · exact List.mem_singleton.mp hm ▸ validName_part n
  have hin : job <+: partPath (spot job e) := by
    rw [partPath_spot hW h.rooted he hne]
    exact List.prefix_append job _
  have hspotne : spot job e ≠ partPath (spot job e) := partPath_ne (by simp [hspot, dest])
  unfold fetchFile
  cases body with
  | none => exact ensures_raise h
  | some c =>
    dsimp only
    split_ifs with hbad
    · exact ensures_raise h
    have hright : cfg.sha256 c = e.sha256 := by
      by_contra hne'
      exact hbad ⟨hsha, hne'⟩
    have hfree : ¬ LinkAt u (partPath (spot job e)) := fun hlink =>
      hnot (h.right e he hkind (.link hlink))
    have hwrite : Ensures (Underway cfg job entries pre)
        (step (writeFile host (partPath (dest job e)) c) : FsM γ Unit) u
        fun _ v => ¬ Right cfg job v e ∧ ∃ a r, v.get (partPath (spot job e)) =
          some (.file a c r) := by
      refine ensures_step h fun v hv => ?_
      have hdirect := (h.toResumable.direct_part hW hU he hne).followed (hpart ▸ hfree)
      have hplace : ∀ q, locate u true (partPath (dest job e)) = .ok q →
          q = partPath (spot job e) :=
        fun q hq => (locate_straight (fun _ h => h) hdirect hq).trans hpart
      obtain ⟨q, a, hq, hndir, rfl⟩ := writeFile_plain hv fun q hq =>
        hplace q hq ▸ h.specials _ hin
      obtain rfl := hplace q hq
      refine ⟨h.temp hW hU hsplit hkind hnot (touches_put_plain _ (.inl hndir) rfl (by simp)),
        fun hr => hnot ?_, a, true, by simp⟩
      exact Right.kept hr (by simp [hspotne])
    refine hwrite.mapError.bind fun _ v hv hwritten => ?_
    obtain ⟨hnot', a, r, hget⟩ := hwritten
    refine (ensures_step hv fun w hw => ?_).mapError
    obtain ⟨s, d, node, hs, hd, hnode, -, hndir, rfl⟩ := rename_form hw
    obtain rfl := (locate_straight (fun _ h => h)
      (hv.toResumable.direct_part hW hU he hne) hs).trans hpart
    obtain rfl := locate_straight (fun _ h => h) (hv.toResumable.direct_dest hW hU he hne) hd
    obtain rfl := Option.some.inj (hget.symm.trans hnode)
    have hgone : Underway cfg job entries pre (v.drop (partPath (spot job e))) :=
      hv.temp hW hU hsplit hkind hnot' (touches_drop (not_dirAt_of_get hget rfl))
    have hndir' : ¬ DirAt (v.drop (partPath (spot job e))) (spot job e) := by
      rintro ⟨b, l, hdir⟩
      rw [Tree.get_drop, if_neg hspotne] at hdir
      exact hndir ⟨b, l, hdir⟩
    have hthere : Right cfg job ((v.drop (partPath (spot job e))).put (spot job e)
        (.file a c r)) e := ⟨a, c, r, by simp, hright⟩
    refine ⟨hgone.own hW hsplit hne (touches_put_plain _ (.inl hndir') rfl (by simp))
      fun _ => hthere, ?_⟩
    unfold Holds
    rw [hkind]
    exact hthere

theorem ensures_stageFile {body : Option γ} {out : Summary} (h : Underway cfg job entries pre u)
    (hkind : kindOf e = .file) :
    Ensures (Underway cfg job entries pre) (stageFile cfg host job body out e) u
      fun _ v => Holds cfg job v e := by
  have hne := named_of_kind hW (show e ∈ entries by simp [hsplit]) (by simp [hkind])
  have hholds : ∀ w, Right cfg job w e → Holds cfg job w e := by
    intro w hr
    unfold Holds
    rwa [hkind]
  unfold stageFile
  refine (ensures_parent hW hU hsplit h hne).bind fun _ v hv hpaved => ?_
  refine (ensures_alreadyStaged hW hU hsplit hv hkind hpaved).bind fun b w hw hb => ?_
  obtain ⟨rfl, hiff⟩ := hb
  cases b with
  | true =>
    exact (ensures_chmodTo hW hU hsplit hw hne (by simp [hkind]) (hholds w (hiff.mp rfl))).bind
      fun _ x hx hx' => ensures_pure hx hx'
  | false =>
    refine (ensures_fetchFile hW hU hsplit hw hkind fun hr => ?_).bind fun _ x hx hx' => ?_
    · cases hiff.mpr hr
    · exact (ensures_chmodTo hW hU hsplit hx hne (by simp [hkind]) hx').bind
        fun _ y hy hy' => ensures_pure hy hy'

theorem ensures_stageEntry {body : Option γ} {out : Summary}
    (h : Underway cfg job entries pre u) :
    Ensures (Underway cfg job entries pre) (stageEntry cfg host job body out e) u
      fun _ v => Holds cfg job v e := by
  unfold stageEntry
  split_ifs with hroot
  · refine ensures_pure h ?_
    unfold Holds
    rw [hW.root e (by simp [hsplit]) hroot]
    have hspot : spot job e = job ++ ["tree"] := by
      rw [spot, dest, hroot, straight_append, straight_of_names h.rooted.names]
      simp [straight]
    simpa only [hspot] using h.tree
  · split
    · next hkind => exact ensures_stageDir hW hU hsplit h hroot hkind
    · next hkind => exact ensures_stageLink hW hU hsplit h hkind
    · next hkind => exact ensures_stageFile hW hU hsplit h hkind

end Step

/-! ## All entries, and any number of calls -/

variable {fetchBlob : ℕ → String → Option γ} {l : List Entry}

theorem ensures_entries (hW : Walked entries) (hU : Undisturbed entries) (i : ℕ) (out : Summary)
    (hsplit : entries = pre ++ l) (h : Underway cfg job entries pre u) :
    Ensures (Resumable cfg job entries) ((l.zipIdx i).foldlM
      (fun out x => stageEntry cfg host job (fetchBlob x.2 x.1.sha256) out x.1) out) u
      fun _ v => Underway cfg job entries entries v := by
  induction l generalizing pre i out u with
  | nil =>
    rw [List.append_nil] at hsplit
    exact ensures_pure h.toResumable (hsplit ▸ h)
  | cons e l ih =>
    rw [List.zipIdx_cons, List.foldlM_cons]
    have hentry := @ensures_stageEntry γ cfg host job e u entries pre l hW hU hsplit
      (fetchBlob i e.sha256) out h
    refine Ensures.bind (hentry.mono (R := fun _ v => Underway cfg job entries (pre ++ [e]) v)
      (fun v hv => hv.toResumable) fun _ v hv hholds => ?_) fun out' v _ hv =>
        ih (i + 1) out' (by simp [hsplit]) hv
    refine ⟨hv.toResumable, hv.tree, fun x hx => ?_⟩
    rcases List.mem_append.mp hx with hx | hx
    · exact hv.done x hx
    · exact List.mem_singleton.mp hx ▸ hholds

/-- A change of one of the job's own files. -/
theorem Resumable.ownFile (hW : Walked entries) (h : Resumable cfg job entries u) (htree : n ≠ "tree")
    (hT : Touches (· = job ++ [n]) (fun _ => False) u v) : Resumable cfg job entries v ∧
      ∀ pre ⊆ entries, Underway cfg job entries pre u → Underway cfg job entries pre v := by
  have hspot : ∀ x ∈ entries, kindOf x ≠ .dir → spot job x ≠ job ++ [n] := by
    intro x hx hkind heq
    rw [spot_entry hW h.rooted hx (named_of_kind hW hx hkind)] at heq
    have := List.append_cancel_left heq
    simp only [List.cons.injEq] at this
    exact htree this.1.symm
  have hright : ∀ x ∈ entries, kindOf x = .file → spot job x = job ++ [n] →
      Pinned job entries u x → Right cfg job v x :=
    fun x hx hkind heq _ => absurd heq (hspot x hx (by simp [hkind]))
  exact ⟨h.touches hT hright, fun pre hpre hu =>
    hu.touches hT (fun x hx hkind => hspot x (hpre hx) hkind) hright⟩

theorem Resumable.direct_own (h : Resumable cfg job entries u) (hW : Walked entries)
    (hn : ValidName n) (htree : n ≠ "tree") : Direct (LinkAt u) true (job ++ [n]) := by
  have hown : ¬ LinkAt u (job ++ [n]) := by
    intro hlink
    obtain ⟨e, he, hkind, heq⟩ := h.links _ (List.prefix_append job [n]) hlink
    rw [spot_entry hW h.rooted he (named_of_kind hW he (by simp [hkind]))] at heq
    have := List.append_cancel_left heq
    simp only [List.cons.injEq] at this
    exact htree this.1
  have hdirect : Direct (Planted u job []) true (job ++ [n]) := own_direct h.rooted hn htree hown
  exact hdirect.anti fun q hq => .inl hq

theorem ensures_tree (hW : Walked entries) (h : Resumable cfg job entries u) :
    Ensures (Resumable cfg job entries) (os (makedirs host (job ++ ["tree"])) : StageM γ Unit) u
      fun _ v => Underway cfg job entries [] v := by
  have hdirect : ∀ w, Resumable cfg job entries w →
      Direct (LinkAt w) true (job ++ ["tree"]) ∧ straight (job ++ ["tree"]) = job ++ ["tree"] := by
    intro w hw
    refine ⟨hw.direct hW (by simp) fun e _ _ hpre => ?_, straight_of_names ?_⟩
    · exact absurd (List.prefix_nil.mp hpre) (components_ne_nil _)
    · intro m hm
      rcases List.mem_append.mp hm with hm | hm
      · exact hw.rooted.names m hm
      · obtain rfl := List.mem_singleton.mp hm
        decide
  have hmade : Ensures (Resumable cfg job entries) (makedirs host (job ++ ["tree"]) : FsM γ Unit) u
      fun _ v => DirAt v (job ++ ["tree"]) := by
    refine ensures_makedirs (fun q _ => keeps_mkdir_resumable) h (fun w v hw hv => ?_)
      fun w hw hv => ?_
    · obtain ⟨hd, hs⟩ := hdirect w hw
      obtain ⟨q, a, hq, -, rfl⟩ := mkdir_form hv
      obtain rfl := (locate_straight (fun _ h => h) hd.unfollowed hq).trans hs
      exact ⟨a, true, by simp⟩
    · obtain ⟨hd, hs⟩ := hdirect w hw
      obtain ⟨q, hq, hdir⟩ := isdir_iff.mp hv
      obtain rfl := (locate_straight (fun _ h => h) hd hq).trans hs
      exact hdir
  exact (hmade.mono (fun _ hv => hv) fun _ v hv hdir => ⟨hv, hdir, nofun⟩).mapError

theorem ensures_ownFile (hW : Walked entries) {c : γ} (hn : ValidName n) (htree : n ≠ "tree")
    (h : Underway cfg job entries entries u) :
    Ensures (Resumable cfg job entries) (os (step (writeFile host (job ++ [n]) c)) : StageM γ Unit) u
      fun _ v => Underway cfg job entries entries v := by
  refine (ensures_step h.toResumable fun v hv => ?_).mapError
  rcases writeFile_form hv with rfl | ⟨q, a, hq, hndir, rfl⟩
  · exact ⟨h.toResumable, h⟩
  · have hplace := locate_straight (fun _ h => h) (h.direct_own hW hn htree) hq
    rw [straight_append, straight_of_names h.rooted.names, straight_of_names (by simpa)] at hplace
    subst hplace
    obtain ⟨hres, hunder⟩ := h.toResumable.ownFile hW htree
      (touches_put_plain (.file a c true) (.inl hndir) rfl (by simp))
    exact ⟨hres, hunder entries (List.Subset.refl _) h⟩

theorem ensures_stage (hW : Walked entries) (hU : Undisturbed entries)
    (h : Resumable cfg job entries u) :
    Ensures (Resumable cfg job entries) (stage cfg host job fetchBlob entries) u
      fun _ v => ∀ e ∈ entries, Holds cfg job v e := by
  have hloop : ∀ w, Underway cfg job entries [] w → Ensures (Resumable cfg job entries)
      (entries.zipIdx.foldlM (fun out x =>
        stageEntry cfg host job (fetchBlob x.2 x.1.sha256) out x.1) ⟨0, 0, 0, 0, 0⟩ >>= fun out =>
        (os (step (writeFile host (job ++ ["manifest.json"]) (cfg.manifest entries)))) >>= fun _ =>
        (os (step (writeFile host (job ++ ["READY"]) cfg.staged))) >>= fun _ =>
          (pure out : StageM γ Summary)) w fun _ v => ∀ e ∈ entries, Holds cfg job v e := by
    intro w hw
    refine (ensures_entries hW hU 0 _ (List.nil_append entries).symm hw).bind fun out v _ hv => ?_
    refine (ensures_ownFile hW (by decide) (by decide) hv).bind fun _ v' _ hv' => ?_
    exact (ensures_ownFile hW (by decide) (by decide) hv').bind
      fun _ x hx hx' => ensures_pure hx hx'.done
  unfold stage
  refine (ensures_tree hW h).bind fun _ v hv hv' => ?_
  refine (ensures_ask (Q := fun _ w => w = v) hv rfl).bind fun b w hw hwv => ?_
  obtain rfl := hwv
  cases b with
  | true =>
    have hdrop : Ensures (Resumable cfg job entries)
        (step (unlink (job ++ ["READY"])) : FsM γ Unit) w
        fun _ v => Underway cfg job entries [] v := by
      refine ensures_step hw fun x hx => ?_
      obtain ⟨q, node, hq, hget, hdir, rfl⟩ := unlink_form hx
      have hplace := locate_straight (fun _ h => h)
        (hw.direct_own hW (n := "READY") (by decide) (by decide)).unfollowed hq
      rw [straight_append, straight_of_names hw.rooted.names,
        straight_of_names (by simp [ValidName])] at hplace
      subst hplace
      obtain ⟨hres, hunder⟩ := hw.ownFile hW (by decide) (touches_drop (not_dirAt_of_get hget hdir))
      exact ⟨hres, hunder [] (by simp) hv'⟩
    exact hdrop.mapError.bind fun _ x _ hx => hloop x hx
  | false => exact hloop w hv'

/-- The machine as calls for the same job and manifest may have left it, whatever they fetched and
wherever they were cut off; the rest of the machine may change in between. -/
inductive Left (cfg : Settings γ) (host : Host) (job : Path) (entries : List Entry) :
    PosixTree.Tree γ → Prop where
  | start {t : PosixTree.Tree γ} : Rooted t job → (∀ q, job <+: q → t.get q = none) →
      Left cfg host job entries t
  | elsewhere {t u : PosixTree.Tree γ} : Left cfg host job entries t → Rooted u job →
      (∀ q, job <+: q → u.get q = t.get q) → Left cfg host job entries u
  | cut {t u : PosixTree.Tree γ} (fetchBlob : ℕ → String → Option γ) :
      Left cfg host job entries t →
      u ∈ ((stage cfg host job fetchBlob entries).run t).past ++
        [((stage cfg host job fetchBlob entries).run t).final] → Left cfg host job entries u

theorem spot_inside (hroot : Rooted u job) (e : Entry) :
    job <+: spot job e ∧ job <+: partPath (spot job e) := by
  have hspot := straight_dest hroot e
  obtain ⟨d, n, hd⟩ := (List.eq_nil_or_concat' ("tree" :: straight (components e.path))).resolve_left
    (by simp)
  rw [spot, hspot, hd, ← List.append_assoc, partPath_snoc, List.append_assoc, List.append_assoc]
  exact ⟨List.prefix_append job _, List.prefix_append job _⟩

theorem Pinned.congr (hroot : Rooted u job) (h : Pinned job entries v e)
    (hsame : ∀ q, job <+: q → v.get q = u.get q) : Pinned job entries u e := by
  induction h with
  | @link e hlink =>
    obtain ⟨a, target, hget⟩ := hlink
    exact .link ⟨a, target, (hsame _ (spot_inside hroot e).2).symm.trans hget⟩
  | file hmem hkind hspot _ ih => exact .file hmem hkind hspot ih

theorem Left.resumable (hW : Walked entries) (hU : Undisturbed entries)
    (h : Left cfg host job entries t) : Resumable cfg job entries t := by
  induction h with
  | @start t hroot hnone =>
    have hpinned : ∀ x, ¬ Pinned job entries t x := by
      intro x hpin
      induction hpin with
      | @link e hlink =>
        obtain ⟨a, target, hget⟩ := hlink
        rw [hnone _ (spot_inside hroot e).2] at hget
        cases hget
      | file _ _ _ _ ih => exact ih
    refine ⟨hroot, ?_, ?_, fun x _ _ hpin => absurd hpin (hpinned x)⟩
    · rintro q hq ⟨a, target, hget⟩
      rw [hnone q hq] at hget
      cases hget
    · rintro q hq ⟨a, k, hget⟩
      rw [hnone q hq] at hget
      cases hget
  | @elsewhere t u _ hroot hsame ih =>
    refine ⟨hroot, ?_, ?_, ?_⟩
    · rintro q hq ⟨a, target, hget⟩
      exact ih.links q hq ⟨a, target, (hsame q hq).symm.trans hget⟩
    · rintro q hq ⟨a, k, hget⟩
      exact ih.specials q hq ⟨a, k, (hsame q hq).symm.trans hget⟩
    · intro x hx hkind hpin
      exact (ih.right x hx hkind (hpin.congr ih.rooted hsame)).kept
        (hsame _ (spot_inside hroot x).1)
  | cut fetchBlob _ hmem ih =>
    obtain ⟨⟨hpast, hfinal⟩, -⟩ := @ensures_stage γ cfg host job _ entries fetchBlob hW hU ih
    rcases List.mem_append.mp hmem with hmem | hmem
    · exact hpast _ hmem
    · exact List.mem_singleton.mp hmem ▸ hfinal

theorem smallMachine_rooted : Rooted smallMachine ["stage", "7"] := by
  refine ⟨by decide, fun s hs hne => ?_, smallMachine_links _⟩
  have hcases : s ∈ ["stage", "7"].inits := (List.mem_inits _ _).mpr hs
  have hshort : s = [] ∨ s = ["stage"] := by simpa [hne] using hcases
  rcases hshort with rfl | rfl
  · exact ⟨⟨0o755, 0, 0⟩, true, by decide⟩
  · exact ⟨⟨0o755, 0, 0⟩, true, by decide⟩

theorem smallMachine_fresh (q : Path) (hq : ["stage", "7"] <+: q) :
    smallMachine.get q = none := by
  obtain ⟨r, rfl⟩ := hq
  simp only [smallMachine, Tree.get_put]
  rw [if_neg (by simp), if_neg (by simp), if_neg (by simp)]
  rfl

def stageMotd : Run (PosixTree.Tree String) Raised Summary :=
  (stage plainSettings ⟨0o022, fun _ => 0⟩ ["stage", "7"] (fun _ _ => some "hello") [motd]).run
    smallMachine

/-- The file is written under the name that the entry before it has taken, and takes that along. -/
def stagePart : Run (PosixTree.Tree String) Raised Summary :=
  (stage plainSettings ⟨0o022, fun _ => 0⟩ ["stage", "7"] (fun _ sha => some sha)
    [⟨"/etc/a.part", "f", "", some 0o644, "one"⟩, ⟨"/etc/a", "f", "", some 0o644, "two"⟩]).run
    smallMachine

end FlashbackStage
