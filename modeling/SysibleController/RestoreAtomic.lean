import SysibleController.RestoreFaithful
import SysibleController.StraightPaths

/-! What the paths of a manifest hold when an apply is cut off between any two of its calls. -/
namespace FlashbackRestore

open AtomicSteps Prog EarlyExit PosixTree RestorePoint

variable {γ δ : Type} {cfg : RestorePoint.Settings γ} {codec : Codec γ} {host : Host}
  {L u v : PosixTree.Tree γ} {M todo : List Entry} {job link d p q : Path} {gone : List Path}
  {d : Path} {n : Name} {e e' : Entry}

/-- What the apply makes of an entry. -/
def Made (cfg : RestorePoint.Settings γ) (e : Entry) : Node γ → Prop
  | .dir a _ => e.payload = .dir ∧ a.mode = orDefault e.mode 0o755
  | .link _ target => e.payload = .link target
  | .file a c _ => a = ⟨orDefault e.mode 0o644, e.uid, e.gid⟩ ∧
    ∃ size, e.payload = .file size (cfg.sha256 c)
  | .special _ _ => False

/-- The path of the entry holds what it held on `L` or what the entry says. -/
def Whole (cfg : RestorePoint.Settings γ) (L u : PosixTree.Tree γ) (e : Entry) : Prop :=
  u.get e.path = L.get e.path ∨ ∃ node, u.get e.path = some node ∧ Made cfg e node

/-- Nothing that the apply has to take away or build up in place. -/
structure Swappable (L : PosixTree.Tree γ) (M : List Entry) (job link : Path) : Prop where
  unique : ∀ e ∈ M, ∀ e' ∈ M, e.path = e'.path → e = e'
  names : ∀ e ∈ M, ∀ n ∈ e.path, ValidName n
  nested : ∀ e ∈ M, e.isDir = false → e.path ≠ [] → ∀ e' ∈ M, e.path <+: e'.path →
    e.path = e'.path
  ways : ∀ e ∈ M, ∀ s, s <+: e.path → s ≠ e.path → ¬ LinkAt L s
  dirs : ∀ e ∈ M, e.isDir = true → e.path ≠ [] → L.get e.path ≠ none ∧ ¬ LinkAt L e.path
  links : ∀ e ∈ M, ∀ target, e.payload = .link target →
    (L.get e.path = none ∨ DirAt L e.path) ∧ M.count e ≤ 1
  temporary : ∀ e ∈ M, ∀ size sha, e.payload = .file size sha →
    ¬ LinkAt L (sysibleNew e.path) ∧ (∀ a, L.get (sysibleNew e.path) ≠ some (.special a .device)) ∧
      ∀ e' ∈ M, e'.path = sysibleNew e.path → DirAt L e'.path
  apart : ∀ e ∈ M, ¬ job <+: e.path
  trigger : Direct (LinkAt L) false link ∧ ¬ job <+: straight link ∧
    ∀ e ∈ M, e.path ≠ [] → e.path ≠ straight link

/-- The machine between two calls of an apply. The links of `todo` are still to come, and `gone`
has been moved away. -/
structure Intact (cfg : RestorePoint.Settings γ) (L : PosixTree.Tree γ) (M : List Entry)
    (job : Path) (gone : List Path) (todo : List Entry) (u : PosixTree.Tree γ) : Prop where
  whole : ∀ e ∈ M, Whole cfg L u e
  todo : ∀ e ∈ todo, ∀ target, e.payload = .link target → u.get e.path = L.get e.path
  links : ∀ q, LinkAt u q → LinkAt L q ∨
    (∃ e ∈ M, e.path ≠ [] ∧ ∃ target, e.payload = .link target ∧ q = e.path) ∨
    ∃ p ∈ gone, q = job ++ "displaced" :: p ∧ ∀ e ∈ M, ¬ p <+: e.path
  names : ∀ q, u.get q ≠ none → ∀ n ∈ q, ValidName n
  dirs : ∀ q, DirAt L q → DirAt u q

/-- The machine while entries are put back: the job is as it was, and no device has come. -/
structure Entering (cfg : RestorePoint.Settings γ) (L : PosixTree.Tree γ) (M : List Entry)
    (job : Path) (todo : List Entry) (u : PosixTree.Tree γ) : Prop
    extends Intact cfg L M job [] todo u where
  job : ∀ q, job <+: q → u.get q = L.get q
  devices : ∀ q a, u.get q = some (.special a .device) →
    ∃ b, L.get q = some (.special b .device)

/-! ## Single changes -/

theorem Intact.put {node : Node γ} (h : Intact cfg L M job gone todo u)
    (hq : ∀ e ∈ M, e.path ≠ [] → e.path ≠ q) (hroot : q ≠ [])
    (htodo : ∀ e ∈ todo, e ∈ M) (hn : ∀ n ∈ q, ValidName n)
    (hdir : DirAt u q → node.isDir = true)
    (hlink : node.isLink = true → LinkAt u q ∨ ∃ p ∈ gone, q = job ++ "displaced" :: p ∧
      ∀ e ∈ M, ¬ p <+: e.path) : Intact cfg L M job gone todo (u.put q node) := by
  refine ⟨?_, ?_, ?_, ?_, ?_⟩
  · intro e he
    have hw := h.whole e he
    have hne : e.path ≠ q := fun heq => hq e he (heq ▸ hroot) heq
    unfold Whole at hw ⊢
    rwa [Tree.get_put, if_neg hne]
  · intro e he target hp
    by_cases hne : e.path = []
    · rw [Tree.get_put, if_neg fun heq => hroot (heq.symm.trans hne)]
      exact h.todo e he target hp
    · rw [Tree.get_put, if_neg (hq e (htodo e he) hne)]
      exact h.todo e he target hp
  · rintro r ⟨a, target, hget⟩
    rw [Tree.get_put] at hget
    split_ifs at hget with hr
    · obtain rfl := Option.some.inj hget
      rcases hlink rfl with hold | hgone
      · exact hr ▸ h.links q hold
      · exact .inr (.inr (hr ▸ hgone))
    · exact h.links r ⟨a, target, hget⟩
  · intro r hr
    rw [Tree.get_put] at hr
    split_ifs at hr with hrq
    · exact hrq ▸ hn
    · exact h.names r hr
  · intro r hr
    by_cases hrq : r = q
    · subst hrq
      exact dirAt_iff.mpr ⟨node, by simp, hdir (h.dirs r hr)⟩
    · obtain ⟨a, l, hget⟩ := h.dirs r hr
      exact ⟨a, l, by rw [Tree.get_put, if_neg hrq, hget]⟩

theorem Intact.drop (h : Intact cfg L M job gone todo u)
    (hq : ∀ e ∈ M, e.path ≠ [] → e.path ≠ q) (hroot : q ≠ []) (htodo : ∀ e ∈ todo, e ∈ M)
    (hdir : ¬ DirAt u q) : Intact cfg L M job gone todo (u.drop q) := by
  refine ⟨?_, ?_, ?_, ?_, ?_⟩
  · intro e he
    have hw := h.whole e he
    have hne : e.path ≠ q := fun heq => hq e he (heq ▸ hroot) heq
    unfold Whole at hw ⊢
    rwa [Tree.get_drop, if_neg hne]
  · intro e he target hp
    by_cases hne : e.path = []
    · rw [Tree.get_drop, if_neg fun heq => hroot (heq.symm.trans hne)]
      exact h.todo e he target hp
    · rw [Tree.get_drop, if_neg (hq e (htodo e he) hne)]
      exact h.todo e he target hp
  · rintro r ⟨a, target, hget⟩
    rw [Tree.get_drop] at hget
    split_ifs at hget
    exact h.links r ⟨a, target, hget⟩
  · intro r hr
    rw [Tree.get_drop] at hr
    split_ifs at hr with hrq
    · exact absurd rfl hr
    · exact h.names r hr
  · intro r hr
    have hrq : r ≠ q := by
      rintro rfl
      exact hdir (h.dirs r hr)
    obtain ⟨a, l, hget⟩ := h.dirs r hr
    exact ⟨a, l, by rw [Tree.get_drop, if_neg hrq, hget]⟩

/-- An entry is put in its place. -/
theorem Intact.swap {node : Node γ} (hS : Swappable L M job link)
    (h : Intact cfg L M job gone todo u) (he : e ∈ M) (hne : e.path ≠ [])
    (htodo : ∀ e ∈ todo, e ∈ M)
    (hlast : ∀ target, e.payload = .link target → e ∉ todo) (hmade : Made cfg e node)
    (hdir : DirAt u e.path → node.isDir = true) :
    Intact cfg L M job gone todo (u.put e.path node) := by
  refine ⟨?_, ?_, ?_, ?_, ?_⟩
  · intro x hx
    have hw := h.whole x hx
    unfold Whole at hw ⊢
    rw [Tree.get_put]
    split_ifs with hxe
    · obtain rfl := hS.unique x hx e he hxe
      exact .inr ⟨node, rfl, hmade⟩
    · exact hw
  · intro x hx target hp
    have hxe : x.path ≠ e.path := by
      intro heq
      obtain rfl := hS.unique x (htodo x hx) e he heq
      exact hlast target hp hx
    rw [Tree.get_put, if_neg hxe]
    exact h.todo x hx target hp
  · rintro r ⟨a, target, hget⟩
    rw [Tree.get_put] at hget
    split_ifs at hget with hr
    · obtain rfl := Option.some.inj hget
      exact .inr (.inl ⟨e, he, hne, target, hmade, hr⟩)
    · exact h.links r ⟨a, target, hget⟩
  · intro r hr
    rw [Tree.get_put] at hr
    split_ifs at hr with hrq
    · exact hrq ▸ hS.names e he
    · exact h.names r hr
  · intro r hr
    by_cases hrq : r = e.path
    · subst hrq
      exact dirAt_iff.mpr ⟨node, by simp, hdir (h.dirs _ hr)⟩
    · obtain ⟨a, l, hget⟩ := h.dirs r hr
      exact ⟨a, l, by rw [Tree.get_put, if_neg hrq, hget]⟩

/-- A change outside the job, by a node that is no device that was not there. -/
theorem Entering.of_intact {node : Node γ} (h : Entering cfg L M job todo u)
    (hv : Intact cfg L M job [] todo (u.put q node)) (hjob : ¬ job <+: q)
    (hdevice : ∀ a, node = .special a .device → ∃ b, u.get q = some (.special b .device)) :
    Entering cfg L M job todo (u.put q node) := by
  refine ⟨hv, fun r hr => ?_, fun r a hget => ?_⟩
  · have hrq : r ≠ q := by
      rintro rfl
      exact hjob hr
    rw [Tree.get_put, if_neg hrq]
    exact h.job r hr
  · rw [Tree.get_put] at hget
    split_ifs at hget with hrq
    · obtain ⟨b, hb⟩ := hdevice a (Option.some.inj hget)
      exact hrq ▸ h.devices q b hb
    · exact h.devices r a hget

theorem Entering.drop (h : Entering cfg L M job todo u)
    (hv : Intact cfg L M job [] todo (u.drop q)) (hjob : ¬ job <+: q) :
    Entering cfg L M job todo (u.drop q) := by
  refine ⟨hv, fun r hr => ?_, fun r a hget => ?_⟩
  · have hrq : r ≠ q := by
      rintro rfl
      exact hjob hr
    rw [Tree.get_drop, if_neg hrq]
    exact h.job r hr
  · rw [Tree.get_drop] at hget
    split_ifs at hget
    exact h.devices r a hget

theorem Entering.later (h : Entering cfg L M job (e :: todo) u) : Entering cfg L M job todo u :=
  ⟨⟨h.whole, fun x hx => h.todo x (List.mem_cons_of_mem e hx), h.links, h.names, h.dirs⟩,
    h.job, h.devices⟩

/-! ## Where the paths of entries lead -/

/-- A place that no call turns into a link. -/
structure Unlinked (L : PosixTree.Tree γ) (M : List Entry) (job s : Path) : Prop where
  link : ¬ LinkAt L s
  entry : ∀ e ∈ M, e.path ≠ [] → ∀ target, e.payload = .link target → s ≠ e.path
  outside : ¬ job <+: s

theorem Intact.direct {f : Bool} (h : Intact cfg L M job gone todo u)
    (hn : ∀ n ∈ p, ValidName n) (hp : ∀ s, s <+: p → (s = p → f = true) → Unlinked L M job s) :
    Direct (LinkAt u) f p := by
  refine ⟨fun hup => (hn _ hup).2.2 rfl, fun s r heq hr hlink => ?_⟩
  have hs : s <+: p := ⟨r, heq⟩
  rw [straight_of_names fun n hmem => hn n (hs.subset hmem)] at hlink
  have hfree := hp s hs fun hsp => hr (by simpa [hsp] using heq)
  rcases h.links s hlink with hold | ⟨e, he, hne, target, hpay, rfl⟩ | ⟨p', -, rfl, -⟩
  · exact hfree.link hold
  · exact hfree.entry e he hne target hpay rfl
  · exact hfree.outside (List.prefix_append job _)

theorem isDir_of_link {target : String} (h : e.payload = .link target) : e.isDir = false := by
  simp [Entry.isDir, h]

section Ways

variable (hS : Swappable L M job link) (he : e ∈ M)

include hS he

theorem Swappable.unlinked_way {s : Path} (hs : s <+: e.path) (hne : s ≠ e.path) :
    Unlinked L M job s := by
  refine ⟨hS.ways e he s hs hne, ?_, fun hjob => hS.apart e he (hjob.trans hs)⟩
  rintro x hx hroot target hp rfl
  exact hne (hS.nested x hx (isDir_of_link hp) hroot e he hs)

theorem Swappable.unlinked_dir (hd : e.isDir = true) (hne : e.path ≠ []) :
    Unlinked L M job e.path := by
  refine ⟨(hS.dirs e he hd hne).2, ?_, hS.apart e he⟩
  intro x hx _ target hp heq
  obtain rfl := hS.unique e he x hx heq
  rw [isDir_of_link hp] at hd
  cases hd

/-- The temporary file is not followed to another place. -/
theorem Swappable.unlinked_temporary {size : ℕ} {sha : String} {d : Path}
    (hp : e.payload = .file size sha) (hd : e.path = d ++ [n]) (hjob : DirAt L job)
    (hfree : ¬ DirAt L (d ++ [n ++ ".sysible-new"])) :
    Unlinked L M job (d ++ [n ++ ".sysible-new"]) := by
  obtain ⟨hlink, -, hentry⟩ := hS.temporary e he size sha hp
  rw [hd, sysibleNew_snoc] at hlink hentry
  refine ⟨hlink, fun x hx _ target _ heq => hfree (heq ▸ hentry x hx heq.symm), fun hpre => ?_⟩
  rcases List.prefix_concat_iff.mp hpre with heq | hpre
  · exact hfree (heq ▸ hjob)
  · exact hS.apart e he (hpre.trans ⟨[n], hd.symm⟩)

end Ways

/-! ## Directories -/

section Entries

variable (hS : Swappable L M job link) (hroot : DirAt L []) (htodo : ∀ e ∈ todo, e ∈ M)
  (he : e ∈ M)

include hS hroot htodo he

theorem keeps_mkdir_entering (hq : q <+: e.path)
    (hdir : q = e.path → e.isDir = true) :
    Keeps (Entering cfg L M job todo) (step (mkdir host q) : FsM γ Unit) := by
  refine keeps_step fun s t hs h => ?_
  have hn : ∀ n ∈ q, ValidName n := fun n hmem => hS.names e he n (hq.subset hmem)
  obtain ⟨place, a, hplace, hnone, rfl⟩ := mkdir_form h
  have hdirect : Direct (LinkAt s) false q := by
    refine hs.direct hn fun r hr hfollow => hS.unlinked_way he (hr.trans hq) ?_
    rintro rfl
    exact absurd (hfollow (hr.sublist.antisymm hq.sublist)) (by decide)
  obtain rfl := locate_straight (fun _ h => h) hdirect hplace
  rw [straight_of_names hn] at hnone ⊢
  have hother : ∀ x ∈ M, x.path ≠ [] → x.path ≠ q := by
    rintro x hx hxne rfl
    have hxdir : x.isDir = true := by
      by_contra hnd
      have heq := hS.nested x hx (by simpa using hnd) hxne e he hq
      obtain rfl := hS.unique x hx e he heq
      exact hnd (hdir rfl)
    rcases hs.whole x hx with hsame | ⟨node, hget, -⟩
    · exact (hS.dirs x hx hxdir hxne).1 (hsame ▸ hnone)
    · rw [hnone] at hget
      cases hget
  have hne' : q ≠ [] := by
    rintro rfl
    obtain ⟨a, l, hget⟩ := hs.dirs [] hroot
    rw [hnone] at hget
    cases hget
  exact hs.of_intact (hs.put hother hne' htodo hn (fun _ => rfl) nofun)
    (fun hpre => hS.apart e he (hpre.trans hq)) nofun

/-- The directory of an object is made, and then it is there. -/
theorem ensures_parent {d : Path} (hd : e.path = d ++ [n]) (h : Entering cfg L M job todo u) :
    Ensures (Entering cfg L M job todo) (makedirs host d : FsM γ Unit) u fun _ _ => True := by
  refine ensures_of_keeps (keeps_makedirs fun q hq => ?_) h
  refine keeps_mkdir_entering hS hroot htodo he (hd ▸ hq.trans (List.prefix_append d [n])) ?_
  rintro rfl
  have hlen := hq.length_le
  rw [hd, List.length_append, List.length_singleton] at hlen
  omega

omit hroot htodo in
theorem direct_entry {f : Bool} (h : Intact cfg L M job gone todo u)
    (hf : f = true → e.isDir = true ∧ e.path ≠ []) : Direct (LinkAt u) f e.path := by
  refine h.direct (hS.names e he) fun s hs hfollow => ?_
  by_cases hse : s = e.path
  · obtain ⟨hdir, hne⟩ := hf (hfollow hse)
    exact hse ▸ hS.unlinked_dir he hdir hne
  · exact hS.unlinked_way he hs hse

theorem ensures_dir (hdir : e.isDir = true) (hne : e.path ≠ [])
    (h : Entering cfg L M job todo u) :
    Ensures (Entering cfg L M job todo) (makedirs host e.path : FsM γ Unit) u
      fun _ v => DirAt v e.path := by
  obtain ⟨d, n, hd⟩ := (List.eq_nil_or_concat' e.path).resolve_left hne
  have hnames := straight_of_names (hS.names e he)
  have hmk : ∀ q, q <+: e.path →
      Keeps (Entering cfg L M job todo) (step (mkdir host q) : FsM γ Unit) :=
    fun q hq => keeps_mkdir_entering hS hroot htodo he hq fun _ => hdir
  have hmade : ∀ w v, Entering cfg L M job todo w → mkdir host e.path w = .ok v →
      DirAt v e.path := by
    intro w v hw hv
    obtain ⟨q, a, hq, -, rfl⟩ := mkdir_form hv
    obtain rfl := locate_straight (fun _ h => h)
      (direct_entry hS he hw.toIntact (by simp)) hq
    exact ⟨a, true, by simp [hnames]⟩
  have hthere : ∀ w, Entering cfg L M job todo w → isdir w e.path = true → DirAt w e.path := by
    intro w hw hv
    obtain ⟨q, hq, hat⟩ := isdir_iff.mp hv
    obtain rfl := locate_straight (fun _ h => h)
      (direct_entry hS he hw.toIntact fun _ => ⟨hdir, hne⟩) hq
    exact hnames ▸ hat
  rw [hd] at hmk hmade hthere ⊢
  exact ensures_makedirs hmk h hmade hthere

/-! ## One entry -/

theorem keeps_restoreDir (hp : e.payload = .dir) (hne : e.path ≠ [])
    (h : Entering cfg L M job todo u) :
    KeepsFrom (Entering cfg L M job todo) (restoreEntry host job e) u := by
  have hdir : e.isDir = true := by simp [Entry.isDir, hp]
  have hnames := straight_of_names (hS.names e he)
  unfold restoreEntry
  rw [hp]
  refine ((ensures_dir hS hroot htodo he hdir hne h).bind (R := fun _ _ => True)
    fun _ v hv hat => ?_).1
  refine (ensures_step (Q := fun _ _ => True) hv fun w hw => ⟨?_, trivial⟩).bind
    fun _ w hw _ => ensures_pure hw trivial
  obtain ⟨q, hq, hw⟩ := EarlyExit.bind_ok hw
  obtain rfl := locate_straight (fun _ h => h)
    (direct_entry hS he hv.toIntact fun _ => ⟨hdir, hne⟩) hq
  obtain ⟨a, l, hget⟩ := hat
  rw [hnames, hget] at hw
  obtain rfl := Except.ok.inj hw
  refine hv.of_intact (hv.swap hS he hne htodo (fun target ht => ?_) ⟨hp, rfl⟩ fun _ => rfl)
    (hS.apart e he) (fun _ heq => by cases heq)
  rw [hp] at ht
  cases ht

/-- The link of an entry that has nothing to take away. -/
theorem keeps_restoreLink {target : String} (hp : e.payload = .link target) (hne : e.path ≠ [])
    (hlast : e ∉ todo) (h : Entering cfg L M job (e :: todo) u) :
    KeepsFrom (Entering cfg L M job todo) (restoreEntry host job e) u := by
  obtain ⟨d, n, hd⟩ := (List.eq_nil_or_concat' e.path).resolve_left hne
  have hnames := straight_of_names (hS.names e he)
  have htodo' : ∀ x ∈ e :: todo, x ∈ M := by simpa [he] using htodo
  have hplace : ∀ v q, Entering cfg L M job (e :: todo) v → locate v false e.path = .ok q →
      q = e.path := by
    intro v q hv hq
    rw [locate_straight (fun _ h => h)
      (direct_entry hS he hv.toIntact (by simp)) hq, hnames]
  have hunlink : ∀ v w, Entering cfg L M job (e :: todo) v → unlink e.path v ≠ .ok w := by
    intro v w hv hw
    obtain ⟨q, node, hq, hget, hdir, -⟩ := unlink_form hw
    obtain rfl := hplace v q hv hq
    rw [hv.todo e (by simp) target hp] at hget
    rcases (hS.links e he target hp).1 with hnone | hat
    · rw [hnone] at hget
      cases hget
    · exact not_dirAt_of_get hget hdir hat
  have hlink : ∀ v, Entering cfg L M job (e :: todo) v →
      Ensures (Entering cfg L M job todo) (step (symlink target e.path) : FsM γ Unit) v
        fun _ _ => True := by
    intro v hv
    refine ensures_step hv.later fun w hw => ⟨?_, trivial⟩
    obtain ⟨q, a, hq, hnone, rfl⟩ := symlink_form hw
    obtain rfl := hplace v q hv hq
    exact hv.later.of_intact (hv.later.swap hS he hne htodo (fun _ _ => hlast) hp
      fun hat => absurd hat (not_dirAt_of_none hnone)) (hS.apart e he) nofun
  have hparent : Ensures (Entering cfg L M job todo) (makedirs host e.path.dropLast : FsM γ Unit) u
      fun _ v => Entering cfg L M job (e :: todo) v := by
    have hmk := @ensures_parent γ cfg host L u M (e :: todo) job link n e hS hroot htodo' he d hd h
    rw [hd, List.dropLast_concat]
    exact hmk.mono (fun _ hv => hv.later) fun _ v hv _ => hv
  simp only [restoreEntry, hp]
  refine (hparent.bind (R := fun _ _ => True) fun _ v _ hv => ?_).1
  refine (ensures_ask (Q := fun _ w => w = v) hv.later rfl).bind fun b w hw hwv => ?_
  subst hwv
  have hend : Ensures (Entering cfg L M job todo)
      (step (symlink target e.path) >>= fun _ => pure 1 : FsM γ ℕ) w fun _ _ => True :=
    (hlink w hv).bind fun _ _ hx _ => ensures_pure hx trivial
  cases b with
  | true =>
    refine (ensures_step (Q := fun _ _ => False) hw fun x hx => absurd hx (hunlink w x hv)).bind
      fun _ _ _ hfalse => hfalse.elim
  | false => exact hend

section File

variable {size : ℕ} {sha : String} {d : Path} {body : γ} {a : Attrs}
  (hp : e.payload = .file size sha) (hd : e.path = d ++ [n])

include hp hd

omit hroot htodo hp in
theorem temporary_names : ∀ m ∈ d ++ [n ++ ".sysible-new"], ValidName m := by
  have hnames := hS.names e he
  rw [hd] at hnames
  intro m hm
  rcases List.mem_append.mp hm with hm | hm
  · exact hnames m (by simp [hm])
  · exact List.mem_singleton.mp hm ▸ validName_sysibleNew n

omit hroot htodo in
/-- The temporary name leads to its own place. -/
theorem direct_temporary (hjob : DirAt L job) (h : Entering cfg L M job todo u) :
    Direct (LinkAt u) true (d ++ [n ++ ".sysible-new"]) := by
  have hnames := temporary_names hS he hd
  have hway : Direct (LinkAt u) false (d ++ [n ++ ".sysible-new"]) := by
    refine h.direct hnames fun s hs hfollow => hS.unlinked_way he ?_ ?_
    all_goals rcases List.prefix_concat_iff.mp hs with rfl | hs
    · exact absurd (hfollow rfl) (by decide)
    · exact hs.trans ⟨[n], hd.symm⟩
    · exact absurd (hfollow rfl) (by decide)
    · rintro rfl
      have hlen := hs.length_le
      rw [hd, List.length_append, List.length_singleton] at hlen
      omega
  refine hway.followed ?_
  rw [straight_of_names hnames]
  rintro hlink
  by_cases hdir : DirAt L (d ++ [n ++ ".sysible-new"])
  · obtain ⟨a, l, hget⟩ := h.dirs _ hdir
    obtain ⟨b, target, hget'⟩ := hlink
    rw [hget] at hget'
    cases hget'
  · have hfree := hS.unlinked_temporary he hp hd hjob hdir
    rcases h.links _ hlink with hold | ⟨x, hx, hne, target, hpay, heq⟩ | ⟨p', hgone, -⟩
    · exact hfree.link hold
    · exact hfree.entry x hx hne target hpay heq
    · cases hgone

omit hroot in
/-- A change at the temporary name. -/
theorem put_temporary {c : γ} {r : Bool} (hjob : DirAt L job) (h : Entering cfg L M job todo u)
    (hndir : ¬ DirAt u (d ++ [n ++ ".sysible-new"])) :
    Entering cfg L M job todo (u.put (d ++ [n ++ ".sysible-new"]) (.file a c r)) := by
  have hnames := temporary_names hS he hd
  have hfree := hS.unlinked_temporary he hp hd hjob fun hdir => hndir (h.dirs _ hdir)
  have hentry := (hS.temporary e he size sha hp).2.2
  rw [hd, sysibleNew_snoc] at hentry
  refine h.of_intact (h.put (fun x hx _ heq => ?_) (by simp) htodo hnames
    (fun hdir => absurd hdir hndir) nofun) hfree.outside nofun
  exact hndir (h.dirs _ (heq ▸ hentry x hx heq))

omit hroot htodo in
theorem locate_temporary {f : Bool} (hjob : DirAt L job) (h : Entering cfg L M job todo u)
    (hpaved : Paved u d) : locate u f (d ++ [n ++ ".sysible-new"]) =
      .ok (d ++ [n ++ ".sysible-new"]) := by
  have hnames := temporary_names hS he hd
  have hdirect := direct_temporary hS he hp hd hjob h
  refine locate_paved hpaved (fun m hm => hnames m (by simp [hm])) (validName_sysibleNew n) ?_
  intro hlink
  have hfree := hdirect.links _ [] (List.append_nil _) fun _ => rfl
  rw [straight_of_names hnames] at hfree
  exact absurd hlink hfree

omit hroot in
/-- The staged content is written under the temporary name. -/
theorem ensures_writeFile (hjob : DirAt L job) (h : Entering cfg L M job todo u) :
    Ensures (Entering cfg L M job todo)
      (step (writeFile host (d ++ [n ++ ".sysible-new"]) body) : FsM γ Unit) u fun _ v =>
        (∃ a, v.get (d ++ [n ++ ".sysible-new"]) = some (.file a body true)) ∧ Paved v d := by
  have hnames := temporary_names hS he hd
  have hdirect := direct_temporary hS he hp hd hjob h
  refine ensures_step h fun v hv => ?_
  obtain ⟨q, a, hq, hndir, rfl⟩ : ∃ q a, locate u true (d ++ [n ++ ".sysible-new"]) = .ok q ∧
      ¬ DirAt u q ∧ v = u.put q (.file a body true) := by
    obtain ⟨q, hq, hv⟩ := EarlyExit.bind_ok hv
    have hplace := locate_straight (fun _ h => h) hdirect hq
    rw [straight_of_names hnames] at hplace
    split at hv
    · next hnone => exact ⟨q, _, hq, not_dirAt_of_none hnone, (Except.ok.inj hv).symm⟩
    · next a c' r hnode => exact ⟨q, a, hq, not_dirAt_of_get hnode rfl, (Except.ok.inj hv).symm⟩
    · next a hnode =>
      obtain ⟨b, hb⟩ := h.devices q a hnode
      have hplain := (hS.temporary e he size sha hp).2.1 b
      rw [hd, sysibleNew_snoc, ← hplace] at hplain
      exact absurd hb hplain
    · cases hv
    · cases hv
  have hpaved : Paved u d := by
    intro s hs hne
    refine paved_below hnames hdirect.unfollowed hq (hs.trans (List.prefix_append d _)) ?_ hne
    rintro rfl
    have hlen := hs.length_le
    rw [List.length_append, List.length_singleton] at hlen
    omega
  obtain rfl := locate_straight (fun _ h => h) hdirect hq
  rw [straight_of_names hnames] at hndir ⊢
  have hput := put_temporary (a := a) (c := body) (r := true) hS htodo he hp hd hjob h hndir
  exact ⟨hput, ⟨a, by simp⟩, hpaved.put⟩

omit hroot in
/-- The owner and the mode of the temporary file, and its place in the end. -/
theorem ensures_finish {n' : Name} (hjob : DirAt L job) (hn' : n' = n ++ ".sysible-new")
    (hsha : cfg.sha256 body = sha) (h : Entering cfg L M job todo u) (hpaved : Paved u d)
    (hget : u.get (d ++ [n']) = some (.file a body true)) :
    Ensures (Entering cfg L M job todo) (do
      let _ ← attempt (step (chown (d ++ [n']) e.uid e.gid))
      step (chmod (d ++ [n']) (orDefault e.mode 0o644))
      step (rename host (d ++ [n']) e.path)
      return 1 : FsM γ ℕ) u fun _ _ => True := by
  subst hn'
  have hput : ∀ {w : PosixTree.Tree γ} {a b : Attrs}, Entering cfg L M job todo w → Paved w d →
      w.get (d ++ [n ++ ".sysible-new"]) = some (.file a body true) →
      Entering cfg L M job todo (w.put (d ++ [n ++ ".sysible-new"]) (.file b body true)) :=
    fun hw _ hat => put_temporary hS htodo he hp hd hjob hw (not_dirAt_of_get hat rfl)
  have hloc : ∀ {w : PosixTree.Tree γ}, Entering cfg L M job todo w → Paved w d →
      locate w true (d ++ [n ++ ".sysible-new"]) = .ok (d ++ [n ++ ".sysible-new"]) :=
    fun hw hw' => locate_temporary hS he hp hd hjob hw hw'
  have hchown : chown (d ++ [n ++ ".sysible-new"]) e.uid e.gid u =
      .ok (u.put (d ++ [n ++ ".sysible-new"])
        (.file ⟨a.mode % 0o2000, e.uid, e.gid⟩ body true)) := by
    unfold chown
    simp [hloc h hpaved, hget, bind, Except.bind]
  refine (ensures_attempt (Q := fun _ w => w = _) hchown h (hput h hpaved hget) rfl).bind
    fun _ w hw hwv => ?_
  have hpaved' : Paved w d := hwv ▸ hpaved.put
  have hget' : w.get (d ++ [n ++ ".sysible-new"]) =
      some (.file ⟨a.mode % 0o2000, e.uid, e.gid⟩ body true) := by simp [hwv]
  have hchmod : chmod (d ++ [n ++ ".sysible-new"]) (orDefault e.mode 0o644) w =
      .ok (w.put (d ++ [n ++ ".sysible-new"])
        (.file ⟨orDefault e.mode 0o644, e.uid, e.gid⟩ body true)) := by
    unfold chmod
    simp [hloc hw hpaved', hget', bind, Except.bind, Node.setAttrs, Node.attrs]
  refine (ensures_step (Q := fun _ x => x = w.put (d ++ [n ++ ".sysible-new"])
    (.file ⟨orDefault e.mode 0o644, e.uid, e.gid⟩ body true)) hw fun x hx => ?_).bind
    fun _ x hx hxw => ?_
  · obtain rfl := Except.ok.inj (hchmod.symm.trans hx)
    exact ⟨hput hw hpaved' hget', rfl⟩
  have hget'' : x.get (d ++ [n ++ ".sysible-new"]) =
      some (.file ⟨orDefault e.mode 0o644, e.uid, e.gid⟩ body true) := by simp [hxw]
  refine (ensures_step (Q := fun _ _ => True) hx fun y hy => ⟨?_, trivial⟩).bind
    fun _ y hy _ => ensures_pure hy trivial
  have hnames := temporary_names hS he hd
  have hne : e.path ≠ [] := by simp [hd]
  obtain ⟨s, r, node, hs, hr, hnode, -, hndir, rfl⟩ := rename_form hy
  obtain rfl := locate_straight (fun _ h => h)
    (direct_temporary hS he hp hd hjob hx).unfollowed hs
  obtain rfl := locate_straight (fun _ h => h)
    (direct_entry hS he hx.toIntact (by simp)) hr
  rw [straight_of_names hnames] at hnode ⊢
  rw [straight_of_names (hS.names e he)] at hndir ⊢
  obtain rfl := Option.some.inj (hget''.symm.trans hnode)
  have htemp := not_dirAt_of_get hget'' rfl
  have hfree := hS.unlinked_temporary he hp hd hjob fun hdir => htemp (hx.dirs _ hdir)
  have hentry := (hS.temporary e he size sha hp).2.2
  rw [hd, sysibleNew_snoc] at hentry
  have hdrop : Entering cfg L M job todo (x.drop (d ++ [n ++ ".sysible-new"])) :=
    Entering.drop hx (hx.toIntact.drop (fun z hz _ heq => htemp (hx.dirs _ (heq ▸ hentry z hz heq)))
      (by simp) htodo htemp) hfree.outside
  refine hdrop.of_intact (hdrop.swap hS he hne htodo (fun target ht => ?_)
    ⟨rfl, size, hsha ▸ hp⟩ fun hdir => absurd ?_ hndir) (hS.apart e he) (fun _ heq => by cases heq)
  · rw [hp] at ht
    cases ht
  · obtain ⟨b, l, hat⟩ := hdir
    rw [Tree.get_drop] at hat
    split_ifs at hat
    exact ⟨b, l, hat⟩

end File

omit hS hroot htodo he in
/-- A path of the job that is no link leads to its own place. -/
theorem Entering.direct_job {f : Bool} (h : Entering cfg L M job todo u) (wf : WellFormed L)
    (hq : job <+: q) (hat : L.get q ≠ none) (hlink : ¬ LinkAt L q) :
    Direct (LinkAt u) f q ∧ straight q = q := by
  have hnames : ∀ m ∈ q, ValidName m := h.names q (h.job q hq ▸ hat)
  refine ⟨⟨fun hup => (hnames _ hup).2.2 rfl, fun s r heq _ hs => ?_⟩, straight_of_names hnames⟩
  have hpre : s <+: q := ⟨r, heq⟩
  rw [straight_of_names fun m hm => hnames m (hpre.subset hm)] at hs
  by_cases hsq : s = q
  · obtain ⟨a, target, hget⟩ := hs
    rw [hsq, h.job q hq] at hget
    exact hlink ⟨a, target, hget⟩
  · obtain ⟨a, l, hdir⟩ := h.dirs s (wf.dirAt_of_prefix hat hpre hsq)
    obtain ⟨b, target, hget⟩ := hs
    rw [hdir] at hget
    cases hget

omit hS hroot htodo he in
theorem readFile_job {c : γ} (h : Entering cfg L M job todo u) (wf : WellFormed L)
    (hq : job <+: q) {a : Attrs} {body : γ} {r : Bool} (hat : L.get q = some (.file a body r))
    (hread : readFile u q = .ok c) : c = body := by
  have hlink : ¬ LinkAt L q := by
    rintro ⟨b, target, hget⟩
    rw [hat] at hget
    cases hget
  obtain ⟨hdirect, hstraight⟩ := h.direct_job wf hq (by simp [hat]) hlink
  obtain ⟨q', b, hloc, hget⟩ := readFile_ok hread
  obtain rfl := locate_straight (fun _ h => h) hdirect hloc
  rw [hstraight, h.job q hq, hat] at hget
  exact ((Node.file.inj (Option.some.inj hget)).2.1).symm

theorem keeps_restoreFile {size : ℕ} {sha : String} (hprep : Prepared cfg codec L M job)
    (hp : e.payload = .file size sha) (hne : e.path ≠ []) (h : Entering cfg L M job todo u) :
    KeepsFrom (Entering cfg L M job todo) (restoreEntry host job e) u := by
  obtain ⟨d, n, hd⟩ := (List.eq_nil_or_concat' e.path).resolve_left hne
  obtain ⟨a, body, hstaged, hsha⟩ := hprep.tree e he size sha hp
  have htemp : sysibleNew e.path = d ++ [n ++ ".sysible-new"] := by rw [hd, sysibleNew_snoc]
  have hparent : e.path.dropLast = d := by simp [hd]
  simp only [restoreEntry, hp, htemp, hparent]
  refine ((ensures_parent hS hroot htodo he hd h).bind (R := fun _ _ => True)
    fun _ v hv _ => ?_).1
  have hcopy : Ensures (Entering cfg L M job todo)
      (copyfile host (job ++ "tree" :: e.path) (d ++ [n ++ ".sysible-new"]) : FsM γ Unit) v
      fun _ w => (∃ a, w.get (d ++ [n ++ ".sysible-new"]) = some (.file a body true)) ∧
        Paved w d := by
    unfold copyfile
    refine (ensures_of_keeps (keeps_forbid _ _) hv).bind fun _ w hw _ => ?_
    refine (ensures_of_keeps (keeps_forbid _ _) hw).bind fun _ w hw _ => ?_
    refine (ensures_query (Q := fun c _ => c = body) hw fun c hc =>
      readFile_job hw hprep.wf (List.prefix_append job _) hstaged hc).bind fun c w hw hc => ?_
    subst hc
    exact ensures_writeFile hS htodo he hp hd hprep.dir hw
  refine hcopy.bind fun _ w hw hwv => ?_
  obtain ⟨⟨b, hget⟩, hpaved⟩ := hwv
  exact ensures_finish hS htodo he hp hd hprep.dir rfl hsha hw hpaved hget

/-- One entry, whatever becomes of it. -/
theorem entering_applyEntry {out : Tally} (hprep : Prepared cfg codec L M job)
    (hlast : ∀ target, e.payload = .link target → e ∉ todo)
    (h : Entering cfg L M job (e :: todo) u) :
    KeepsFrom (Entering cfg L M job todo)
      (applyEntry host job out e : Prog (PosixTree.Tree γ) δ Tally) u := by
  unfold applyEntry
  split_ifs with hne
  · exact keeps_pure out u h.later
  have hentry : KeepsFrom (Entering cfg L M job todo) (restoreEntry host job e) u := by
    cases hp : e.payload with
    | dir => exact keeps_restoreDir hS hroot htodo he hp hne h.later
    | link target => exact keeps_restoreLink hS hroot htodo he hp hne (hlast target hp) h
    | file size sha => exact keeps_restoreFile hS hroot htodo he hprep hp hne h.later
  refine hentry.attempt.bind fun r _ => ?_
  cases r with
  | ok wrote => exact keeps_pure _ _ hentry.2
  | error exc => exact keeps_pure _ _ hentry.2

end Entries

theorem keeps_entries {l : List Entry} {out : Tally} (hS : Swappable L M job link)
    (hprep : Prepared cfg codec L M job) (hl : ∀ e ∈ l, e ∈ M)
    (honce : ∀ e ∈ l, ∀ target, e.payload = .link target → l.count e ≤ 1)
    (h : Entering cfg L M job l u) :
    KeepsFrom (Entering cfg L M job [])
      (l.foldlM (applyEntry host job) out : Prog (PosixTree.Tree γ) δ Tally) u := by
  induction l generalizing out u with
  | nil => exact keeps_pure out u h
  | cons e rest ih =>
    have hlast : ∀ target, e.payload = .link target → e ∉ rest := by
      intro target hp hmem
      have hcount := honce e (by simp) target hp
      rw [List.count_cons_self] at hcount
      have hpos := List.count_pos_iff.mpr hmem
      omega
    have hhere : KeepsFrom (Entering cfg L M job rest)
        (applyEntry host job out e : Prog (PosixTree.Tree γ) δ Tally) u :=
      entering_applyEntry hS hprep.wf.root (fun x hx => hl x (by simp [hx])) (hl e (by simp)) hprep
        hlast h
    rw [List.foldlM_cons]
    have hdone : ∀ {w : PosixTree.Tree γ}, Entering cfg L M job rest w →
        Entering cfg L M job [] w :=
      fun hw => ⟨⟨hw.whole, nofun, hw.links, hw.names, hw.dirs⟩, hw.job, hw.devices⟩
    refine (hhere.mono fun w hw => hdone hw).bind fun out' _ => ?_
    refine ih (fun x hx => hl x (by simp [hx])) (fun x hx target hp => ?_) hhere.2
    have hcount := honce x (by simp [hx]) target hp
    rw [List.count_cons] at hcount
    omega

/-! ## Objects that are moved away -/

/-- A name in a directory of the manifest that the manifest does not have. -/
structure ExtraPath (M : List Entry) (p : Path) : Prop where
  parent : ∃ e ∈ M, e.isDir = true ∧ ∃ n, ValidName n ∧ p = e.path ++ [n]
  unnamed : ∀ e ∈ M, e.path ≠ p

section Displaced

variable (hS : Swappable L M job link) (hprep : Prepared cfg codec L M job)

include hS hprep

omit hS in
theorem dirAt_job {s : Path} (hs : s <+: job) : DirAt L s := by
  by_cases hsj : s = job
  · exact hsj ▸ hprep.dir
  · obtain ⟨a, l, hget⟩ := hprep.dir
    exact hprep.wf.dirAt_of_prefix (by simp [hget]) hs hsj

omit hS in
/-- Where the staged job holds nothing, no link was on the way. -/
theorem unlinked_fresh {m : Name} {r s : Path} (hm : L.get (job ++ [m]) = none)
    (hs : s <+: job ++ m :: r) : ¬ LinkAt L s := by
  rintro ⟨a, target, hget⟩
  rcases List.prefix_or_prefix_of_prefix hs (List.prefix_append job _) with hpre | ⟨r', rfl⟩
  · obtain ⟨b, l, hdir⟩ := dirAt_job hprep hpre
    rw [hdir] at hget
    cases hget
  · have hr' : r' <+: m :: r := (List.prefix_append_right_inj job).mp hs
    rcases r' with _ | ⟨m', r'⟩
    · obtain ⟨b, l, hdir⟩ := dirAt_job hprep (List.prefix_refl job)
      rw [List.append_nil, hdir] at hget
      cases hget
    · obtain ⟨rfl, -⟩ := List.cons_prefix_cons.mp hr'
      rw [hprep.wf.none_below hm ⟨r', by simp⟩] at hget
      cases hget

theorem Intact.direct_inside (h : Intact cfg L M job gone [] u) (hn : ∀ m ∈ q, ValidName m)
    (hq : job <+: q) (hL : ∀ s, s <+: q → ¬ LinkAt L s)
    (hr : ∀ r ∈ gone, (∀ e ∈ M, ¬ r <+: e.path) → ¬ job ++ "displaced" :: r <+: q) :
    Direct (LinkAt u) true q ∧ straight q = q := by
  refine ⟨⟨fun hup => (hn _ hup).2.2 rfl, fun s r heq _ hlink => ?_⟩, straight_of_names hn⟩
  have hs : s <+: q := ⟨r, heq⟩
  rw [straight_of_names fun m hm => hn m (hs.subset hm)] at hlink
  rcases h.links s hlink with hold | ⟨e, he, -, target, -, rfl⟩ | ⟨r, hmem, rfl, hway⟩
  · exact hL s hs hold
  · rcases List.prefix_or_prefix_of_prefix hs hq with hpre | hpre
    · obtain ⟨a, l, hdir⟩ := h.dirs _ (dirAt_job hprep hpre)
      obtain ⟨b, target', hget⟩ := hlink
      rw [hdir] at hget
      cases hget
    · exact hS.apart e he hpre
  · exact hr r hmem hway hs

omit hS hprep in
theorem Intact.not_link {s : Path} (h : Intact cfg L M job gone [] u)
    (hs : Unlinked L M job s) : ¬ LinkAt u s := by
  intro hlink
  rcases h.links s hlink with hold | ⟨e, he, hne, target, hpay, heq⟩ | ⟨r, -, rfl, -⟩
  · exact hs.link hold
  · exact hs.entry e he hne target hpay heq
  · exact hs.outside (List.prefix_append job _)

theorem Intact.put_inside {node : Node γ} (h : Intact cfg L M job gone [] u) (hq : job <+: q)
    (hn : ∀ m ∈ q, ValidName m) (hdir : DirAt u q → node.isDir = true)
    (hlink : node.isLink = true → LinkAt u q ∨ ∃ p ∈ gone, q = job ++ "displaced" :: p ∧
      ∀ e ∈ M, ¬ p <+: e.path) : Intact cfg L M job gone [] (u.put q node) := by
  refine h.put (fun e he _ heq => hS.apart e he (heq ▸ hq)) ?_ nofun hn hdir hlink
  rintro rfl
  exact hprep.nonroot (List.prefix_nil.mp hq)

theorem keeps_writeFile_inside {c : γ} (hq : job <+: q) (hn : ∀ m ∈ q, ValidName m)
    (hdirect : ∀ u, Intact cfg L M job gone [] u → Direct (LinkAt u) true q) :
    Keeps (Intact cfg L M job gone []) (step (writeFile host q c) : FsM γ Unit) := by
  refine keeps_step fun s t hs h => ?_
  rcases writeFile_form h with rfl | ⟨place, a, hplace, hndir, rfl⟩
  · exact hs
  · obtain rfl := locate_straight (fun _ h => h) (hdirect s hs) hplace
    rw [straight_of_names hn] at hndir ⊢
    exact hs.put_inside hS hprep hq hn (fun hdir => absurd hdir hndir) nofun

theorem keeps_chmod_inside {mode : ℕ} (hq : job <+: q) (hn : ∀ m ∈ q, ValidName m)
    (hdirect : ∀ u, Intact cfg L M job gone [] u → Direct (LinkAt u) true q) :
    Keeps (Intact cfg L M job gone []) (step (chmod q mode) : FsM γ Unit) := by
  refine keeps_step fun s t hs h => ?_
  obtain ⟨place, node, a, hplace, hget, rfl⟩ := chmod_form h
  obtain rfl := locate_straight (fun _ h => h) (hdirect s hs) hplace
  rw [straight_of_names hn] at hget ⊢
  refine hs.put_inside hS hprep hq hn (fun hdir => ?_) fun hlink => .inl ?_
  · obtain ⟨b, l, hat⟩ := hdir
    obtain rfl := Option.some.inj (hget.symm.trans hat)
    rfl
  · cases node with
    | link b target => exact ⟨b, target, hget⟩
    | _ => cases hlink

theorem keeps_mkdir_inside {r : Path} (hm : L.get (job ++ ["displaced"]) = none)
    (hn : ∀ m ∈ job ++ "displaced" :: r, ValidName m)
    (hq : q <+: job ++ "displaced" :: r)
    (hway : ∀ r' ∈ gone, (∀ e ∈ M, ¬ r' <+: e.path) → ¬ r' <+: r) :
    Keeps (Intact cfg L M job gone []) (step (mkdir host q) : FsM γ Unit) := by
  refine keeps_step fun s t hs h => ?_
  have hnames : ∀ m ∈ q, ValidName m := fun m hmem => hn m (hq.subset hmem)
  obtain ⟨place, a, hplace, hnone, rfl⟩ := mkdir_form h
  rcases List.prefix_or_prefix_of_prefix hq (List.prefix_append job _) with hpre | hpre
  · have hat : ∀ r, r <+: q → DirAt s r :=
      fun r hr => hs.dirs r (dirAt_job hprep (hr.trans hpre))
    have hdirect : Direct (LinkAt s) false q := by
      refine ⟨fun hup => (hnames _ hup).2.2 rfl, fun r r' heq _ hlink => ?_⟩
      have hr : r <+: q := ⟨r', heq⟩
      rw [straight_of_names fun m hm => hnames m (hr.subset hm)] at hlink
      obtain ⟨b, l, hdir⟩ := hat r hr
      obtain ⟨b', target, hget⟩ := hlink
      rw [hdir] at hget
      cases hget
    obtain rfl := locate_straight (fun _ h => h) hdirect hplace
    rw [straight_of_names hnames] at hnone
    exact absurd (hat q (List.prefix_refl q)) (not_dirAt_of_none hnone)
  · obtain ⟨hdirect, hstraight⟩ := hs.direct_inside hS hprep hnames hpre
      (fun s hs => unlinked_fresh hprep hm (hs.trans hq)) fun r' hr' hr hpre' => by
        have := hpre'.trans hq
        rw [List.prefix_append_right_inj, List.cons_prefix_cons] at this
        exact hway r' hr' hr this.2
    obtain rfl := locate_straight (fun _ h => h) hdirect.unfollowed hplace
    rw [hstraight] at hnone ⊢
    exact hs.put_inside hS hprep hpre hnames (fun _ => rfl) nofun

/-- The place of an extra is no entry's, and the way to it is that to a directory of the
manifest. -/
theorem ExtraPath.direct (hp : ExtraPath M p) (h : Intact cfg L M job gone [] u) :
    Direct (LinkAt u) false p ∧ straight p = p := by
  obtain ⟨e, he, hdir, n, hn, rfl⟩ := hp.parent
  have hnames : ∀ m ∈ e.path ++ [n], ValidName m := by
    intro m hm
    rcases List.mem_append.mp hm with hm | hm
    · exact hS.names e he m hm
    · exact List.mem_singleton.mp hm ▸ hn
  refine ⟨?_, straight_of_names hnames⟩
  have hway : Direct (LinkAt u) true e.path := by
    by_cases hne : e.path = []
    · refine h.direct (hS.names e he) fun s hs _ => ?_
      obtain rfl : s = [] := List.prefix_nil.mp (hne ▸ hs)
      refine ⟨?_, fun x _ hx _ _ heq => hx heq.symm,
        fun hpre => hprep.nonroot (List.prefix_nil.mp hpre)⟩
      obtain ⟨a, l, hget⟩ := hprep.wf.root
      rintro ⟨b, target, hget'⟩
      rw [hget] at hget'
      cases hget'
    · exact direct_entry hS he h fun _ => ⟨hdir, hne⟩
  exact hway.snoc hn.2.2

theorem keeps_unlink_extra (hp : ExtraPath M p) :
    Keeps (Intact cfg L M job gone []) (step (unlink p) : FsM γ Unit) := by
  refine keeps_step fun s t hs h => ?_
  obtain ⟨hdirect, hstraight⟩ := hp.direct hS hprep hs
  obtain ⟨place, node, hplace, hget, hdir, rfl⟩ := unlink_form h
  obtain rfl := locate_straight (fun _ h => h) hdirect hplace
  rw [hstraight] at hget ⊢
  refine hs.drop (fun x hx _ => hp.unnamed x hx) ?_ nofun (not_dirAt_of_get hget hdir)
  obtain ⟨e, -, -, n, -, rfl⟩ := hp.parent
  simp

theorem names_displaced (hp : ExtraPath M p) : ∀ m ∈ job ++ "displaced" :: p, ValidName m := by
  obtain ⟨e, he, -, n, hn, rfl⟩ := hp.parent
  intro m hm
  rcases List.mem_append.mp hm with hm | hm
  · exact (hprep.wf.plain hprep.dir).names m hm
  · rcases List.mem_cons.mp hm with rfl | hm
    · decide
    · rcases List.mem_append.mp hm with hm | hm
      · exact hS.names e he m hm
      · exact List.mem_singleton.mp hm ▸ hn

/-- An extra under its name among what is moved away. -/
theorem keeps_rename_extra (hp : ExtraPath M p) (hm : L.get (job ++ ["displaced"]) = none)
    (hnot : p ∉ gone) (h : Intact cfg L M job gone [] u)
    (hv : rename host p (job ++ "displaced" :: p) u = .ok v) :
    Intact cfg L M job (p :: gone) [] v := by
  have hnames := names_displaced hS hprep hp
  obtain ⟨hdirect, hstraight⟩ := hp.direct hS hprep h
  obtain ⟨e, he, hedir, n, hn, hpe⟩ := hp.parent
  obtain ⟨hto, hto'⟩ := h.direct_inside hS hprep hnames (List.prefix_append job _)
    (fun s hs => unlinked_fresh hprep hm hs) fun r hr hway hpre => by
      rw [List.prefix_append_right_inj, List.cons_prefix_cons] at hpre
      rw [hpe] at hpre
      rcases List.prefix_concat_iff.mp hpre.2 with rfl | hpre
      · exact hnot (hpe ▸ hr)
      · exact hway e he hpre
  obtain ⟨s, d, node, hs, hd, hget, hndir, hfree, rfl⟩ := rename_form hv
  obtain rfl := locate_straight (fun _ h => h) hdirect hs
  obtain rfl := locate_straight (fun _ h => h) hto.unfollowed hd
  rw [hstraight] at hget ⊢
  rw [hto'] at hfree ⊢
  have hne : p ≠ [] := by simp [hpe]
  have hgrown : Intact cfg L M job (p :: gone) [] u :=
    ⟨h.whole, h.todo, fun q hq => (h.links q hq).imp_right (Or.imp_right fun ⟨r, hr, hrest⟩ =>
      ⟨r, List.mem_cons_of_mem p hr, hrest⟩), h.names, h.dirs⟩
  have hdrop := hgrown.drop (fun x hx _ => hp.unnamed x hx) hne nofun (not_dirAt_of_get hget hndir)
  refine hdrop.put_inside hS hprep (List.prefix_append job _) hnames (fun hat => absurd ?_ hfree)
    fun hlink => .inr ⟨p, by simp, rfl, fun x hx hpre => ?_⟩
  · obtain ⟨a, l, hat⟩ := hat
    rw [Tree.get_drop] at hat
    split_ifs at hat
    exact ⟨a, l, hat⟩
  · refine h.not_link (hS.unlinked_way hx hpre fun heq => hp.unnamed x hx heq.symm) ?_
    cases node with
    | link a target => exact ⟨a, target, hget⟩
    | _ => cases hlink

/-- Where a copy of an extra goes. -/
theorem direct_copy {r : Path} (hp : ExtraPath M p) (hgone : ∀ r ∈ gone, ExtraPath M r)
    (hm : L.get (job ++ ["displaced"]) = none) (hnot : p ∉ gone)
    (hr : r = p ∨ r = p ++ [p.getLastD ""]) :
    (∀ m ∈ job ++ "displaced" :: r, ValidName m) ∧ ∀ u, Intact cfg L M job gone [] u →
      Direct (LinkAt u) true (job ++ "displaced" :: r) := by
  have hnames := names_displaced hS hprep hp
  obtain ⟨e, he, -, n, hn, hpe⟩ := hp.parent
  have hlast : p.getLastD "" = n := by simp [hpe]
  rw [hlast] at hr
  have hn' : ∀ m ∈ job ++ "displaced" :: r, ValidName m := by
    rcases hr with rfl | rfl
    · exact hnames
    · intro m hm
      rw [← List.cons_append, ← List.append_assoc] at hm
      rcases List.mem_append.mp hm with hm | hm
      · exact hnames m hm
      · exact List.mem_singleton.mp hm ▸ hn
  refine ⟨hn', fun u h => (h.direct_inside hS hprep hn' (List.prefix_append job _)
    (fun s hs => unlinked_fresh hprep hm hs) fun x hx hway hpre => ?_).1⟩
  rw [List.prefix_append_right_inj, List.cons_prefix_cons] at hpre
  have hbelow : ¬ x <+: p := by
    intro hxp
    rcases List.prefix_concat_iff.mp (hpe ▸ hxp) with heq | hxe
    · exact hnot (hpe ▸ heq ▸ hx)
    · exact hway e he hxe
  rcases hr with rfl | rfl
  · exact hbelow hpre.2
  · rcases List.prefix_concat_iff.mp hpre.2 with rfl | hxp
    · obtain ⟨y, hy, -, m, -, heq⟩ := (hgone _ hx).parent
      exact hp.unnamed y hy (List.append_inj' heq rfl).1.symm
    · exact hbelow hxp

theorem keeps_copy2_extra (hp : ExtraPath M p) (hgone : ∀ r ∈ gone, ExtraPath M r)
    (hm : L.get (job ++ ["displaced"]) = none) (hnot : p ∉ gone) :
    Keeps (Intact cfg L M job gone []) (copy2 host p (job ++ "displaced" :: p) : FsM γ Unit) := by
  have hcopy : ∀ r, r = p ∨ r = p ++ [p.getLastD ""] → Keeps (Intact cfg L M job gone [])
      (copyfile host p (job ++ "displaced" :: r) >>= fun _ => query (stat · p) >>= fun node =>
        step (chmod (job ++ "displaced" :: r) node.attrs.mode) : FsM γ Unit) := by
    intro r hr
    obtain ⟨hn, hdirect⟩ : (∀ m ∈ job ++ "displaced" :: r, ValidName m) ∧
        ∀ u, Intact cfg L M job gone [] u → Direct (LinkAt u) true (job ++ "displaced" :: r) :=
      direct_copy hS hprep hp hgone hm hnot hr
    have hq := List.prefix_append job ("displaced" :: r)
    have hfile : Keeps (Intact cfg L M job gone [])
        (copyfile host p (job ++ "displaced" :: r) : FsM γ Unit) :=
      (keeps_forbid _ _).bind fun _ => (keeps_forbid _ _).bind fun _ => (keeps_query _).bind
        fun _ => keeps_writeFile_inside hS hprep hq hn hdirect
    exact hfile.bind fun _ => (keeps_query _).bind fun _ =>
      keeps_chmod_inside hS hprep hq hn hdirect
  unfold copy2
  refine (keeps_ask _).bind fun b => ?_
  cases b with
  | true => simpa using hcopy _ (.inr rfl)
  | false => exact hcopy p (.inl rfl)

theorem intact_displace (hp : ExtraPath M p) (hgone : ∀ r ∈ gone, ExtraPath M r)
    (hm : L.get (job ++ ["displaced"]) = none) (hnot : p ∉ gone)
    (h : Intact cfg L M job gone [] u) :
    KeepsFrom (Intact cfg L M job (p :: gone) []) (displace host job p) u := by
  have hgrow : ∀ w, Intact cfg L M job gone [] w → Intact cfg L M job (p :: gone) [] w :=
    fun w hw => ⟨hw.whole, hw.todo, fun q hq => (hw.links q hq).imp_right
      (Or.imp_right fun ⟨r, hr, hrest⟩ => ⟨r, List.mem_cons_of_mem p hr, hrest⟩), hw.names, hw.dirs⟩
  have hparent : Keeps (Intact cfg L M job gone [])
      (makedirs host (job ++ "displaced" :: p.dropLast) : FsM γ Unit) := by
    obtain ⟨e, he, -, n, -, hpe⟩ := hp.parent
    have hnames := names_displaced hS hprep hp
    have hdrop : p.dropLast = e.path := by simp [hpe]
    rw [hdrop]
    refine keeps_makedirs fun q hq => keeps_mkdir_inside hS hprep hm (fun m hmem => ?_) hq
      fun r hr hway hpre => hway e he hpre
    exact hnames m (by simp only [hpe, List.mem_append, List.mem_cons] at hmem ⊢; tauto)
  unfold displace
  refine hparent.then hgrow (fun _ w hw => ?_) u h
  refine keeps_attempt_step (hgrow w hw) (fun v hv => ?_) fun e _ => ?_
  · exact keeps_pure () v (keeps_rename_extra hS hprep hp hm hnot hw hv)
  · exact (((keeps_copy2_extra hS hprep hp hgone hm hnot).bind fun _ =>
      keeps_unlink_extra hS hprep hp) w hw).mono hgrow

/-- The extras that are still there are moved one after the other. -/
theorem keeps_extras {out : Tally} {l : List Path} (hm : L.get (job ++ ["displaced"]) = none)
    (hl : ∀ p ∈ l, ExtraPath M p) (hgone : ∀ p ∈ gone, ExtraPath M p) (hnodup : l.Nodup)
    (hnot : ∀ p ∈ l, p ∉ gone) (h : Intact cfg L M job gone [] u) :
    KeepsFrom (fun v => ∃ gone, Intact cfg L M job gone [] v)
      (l.foldlM (displaceExtra host job) out : Prog (PosixTree.Tree γ) δ Tally) u := by
  induction l generalizing gone out u with
  | nil => exact keeps_pure out u ⟨gone, h⟩
  | cons p l ih =>
    have hhere : KeepsFrom (Intact cfg L M job (p :: gone) []) (displace host job p) u :=
      intact_displace hS hprep (hl p (by simp)) hgone hm (hnot p (by simp)) h
    have hone : KeepsFrom (Intact cfg L M job (p :: gone) [])
        (displaceExtra host job out p : Prog (PosixTree.Tree γ) δ Tally) u := by
      refine hhere.attempt.bind fun r _ => ?_
      cases r with
      | ok => exact keeps_pure _ _ hhere.2
      | error e => exact keeps_pure _ _ hhere.2
    rw [List.foldlM_cons]
    refine (hone.mono fun w hw => ⟨_, hw⟩).bind fun out' _ => ?_
    obtain ⟨hfirst, hrest⟩ := List.nodup_cons.mp hnodup
    refine ih (fun x hx => hl x (by simp [hx])) (fun x hx => ?_) hrest (fun x hx hmem => ?_) hone.2
    · rcases List.mem_cons.mp hx with rfl | hx
      · exact hl x (by simp)
      · exact hgone x hx
    · rcases List.mem_cons.mp hmem with rfl | hmem
      · exact hfirst hx
      · exact hnot x (by simp [hx]) hmem

end Displaced

/-! ## The whole apply -/

section Apply

variable (hS : Swappable L M job link) (hprep : Prepared cfg codec L M job)

include hS hprep

omit hS hprep in
theorem extraPath_of_mem (h : Intact cfg L M job gone [] u) (hp : p ∈ extrasUnder u M) :
    ExtraPath M p := by
  obtain ⟨d, hd, hp⟩ := List.mem_flatMap.mp hp
  obtain ⟨e, he, rfl⟩ := List.mem_map.mp (List.mem_dedup.mp hd)
  obtain ⟨he, hdir⟩ := List.mem_filter.mp he
  cases hlist : listdir u e.path with
  | error err =>
    rw [hlist] at hp
    cases hp
  | ok ns =>
    rw [hlist] at hp
    obtain ⟨hp, hextra⟩ := List.mem_filter.mp hp
    obtain ⟨n, hn, rfl⟩ := List.mem_map.mp hp
    simp only [decide_eq_true_eq] at hextra
    have hvalid : ValidName n := by
      obtain ⟨q, -, hlist⟩ := EarlyExit.bind_ok hlist
      split at hlist
      · obtain rfl := Except.ok.inj hlist
        exact h.names _ (mem_names.mp hn) n (by simp)
      all_goals cases hlist
    refine ⟨⟨e, he, hdir, n, hvalid, rfl⟩, fun x hx heq => hextra.1 ?_⟩
    exact List.mem_filter.mpr ⟨List.mem_map.mpr ⟨x, hx, heq⟩, by simp⟩

omit hS in
theorem entering_start : Entering cfg L M job (sortEntries M) L := by
  refine ⟨⟨fun e _ => .inl rfl, fun e _ _ _ => rfl, fun q hq => .inl hq, fun q hq m hm => ?_,
    fun q hq => hq⟩, fun q _ => rfl, fun q a h => ⟨a, h⟩⟩
  rcases List.eq_nil_or_concat' q with rfl | ⟨d, n, rfl⟩
  · cases hm
  · rcases List.mem_append.mp hm with hm | hm
    · exact (hprep.wf.plain (hprep.wf.parent d n hq)).names m hm
    · exact List.mem_singleton.mp hm ▸ hprep.wf.names d n hq

theorem keeps_disarm : KeepsFrom (Entering cfg L M job (sortEntries M))
    (disarm link : FsM γ Unit) L := by
  have hstart := entering_start hprep
  obtain ⟨hdirect, hjob, hentry⟩ := hS.trigger
  unfold disarm
  refine (keeps_ask _ L hstart).bind fun b _ => ?_
  cases b with
  | false => exact keeps_pure () L hstart
  | true =>
    refine (ensures_step (Q := fun _ _ => True) hstart fun v hv => ⟨?_, trivial⟩).1
    obtain ⟨q, node, hq, hget, hdir, rfl⟩ := unlink_form hv
    obtain rfl := locate_straight (fun _ h => h) hdirect hq
    have hndir := not_dirAt_of_get hget hdir
    refine hstart.drop (hstart.toIntact.drop hentry ?_ (fun e he => mem_sortEntries.mp he) hndir)
      hjob
    intro hroot
    exact hndir (hroot ▸ hprep.wf.root)

omit hS in
theorem fresh_in_job {m : Name} (hm : m ≠ "READY" ∧ m ≠ "manifest.json" ∧ m ≠ "tree") :
    L.get (job ++ [m]) = none := by
  by_contra hne
  rcases hprep.only m hne with h | h | h
  · exact hm.1 h
  · exact hm.2.1 h
  · exact hm.2.2 h

theorem intact_restoreTree {removeExtras : Bool} (h : Entering cfg L M job (sortEntries M) u) :
    KeepsFrom (fun v => ∃ gone, Intact cfg L M job gone [] v)
      (restoreTree host job M removeExtras : Prog (PosixTree.Tree γ) δ Tally) u := by
  have honce : ∀ e ∈ sortEntries M, ∀ target, e.payload = .link target →
      (sortEntries M).count e ≤ 1 := by
    intro e he target hp
    rw [sortEntries, (List.perm_insertionSort entryLE M).count_eq]
    exact (hS.links e (mem_sortEntries.mp he) target hp).2
  have hentries : KeepsFrom (Entering cfg L M job []) ((sortEntries M).foldlM
      (applyEntry host job) ⟨0, 0, []⟩ : Prog (PosixTree.Tree γ) δ Tally) u :=
    keeps_entries hS hprep (fun e he => mem_sortEntries.mp he) honce h
  unfold restoreTree
  refine (hentries.mono fun v hv => ⟨[], hv.toIntact⟩).bind fun out _ => ?_
  have hdone := hentries.2.toIntact
  cases removeExtras with
  | false => exact keeps_pure out _ ⟨[], hdone⟩
  | true =>
    refine (keeps_ask _ _ ⟨[], hdone⟩).bind fun extras hextras => ?_
    obtain rfl := Except.ok.inj hextras
    have hperm := List.perm_insertionSort (fun p q => text q ≤ text p)
      (extrasUnder ((List.foldlM (applyEntry host job) ⟨0, 0, []⟩ (sortEntries M) :
        Prog (PosixTree.Tree γ) δ Tally).run u).final M)
    have hnone : ∀ p ∈ ([] : List Path), ExtraPath M p := nofun
    refine keeps_extras hS hprep (fresh_in_job hprep (by decide)) (fun p hp => ?_) hnone
      (hperm.nodup_iff.mpr (extrasUnder_nodup _ M)) (fun p _ => by simp) hdone
    exact extraPath_of_mem hdone (hperm.mem_iff.mp hp)

theorem keeps_report {c : γ} (h : ∃ gone, Intact cfg L M job gone [] u) :
    KeepsFrom (fun v => ∃ gone, Intact cfg L M job gone [] v)
      (step (writeFile host (job ++ ["result.json"]) c) : FsM γ Unit) u := by
  obtain ⟨gone, h⟩ := h
  have hnames : ∀ m ∈ job ++ ["result.json"], ValidName m := by
    intro m hm
    rcases List.mem_append.mp hm with hm | hm
    · exact (hprep.wf.plain hprep.dir).names m hm
    · obtain rfl := List.mem_singleton.mp hm
      decide
  have hkeep : Keeps (Intact cfg L M job gone [])
      (step (writeFile host (job ++ ["result.json"]) c) : FsM γ Unit) :=
    keeps_writeFile_inside hS hprep (List.prefix_append job ["result.json"]) hnames fun v hv =>
      (hv.direct_inside hS hprep hnames (List.prefix_append job _)
        (fun s hs => unlinked_fresh hprep (fresh_in_job hprep (by decide)) hs)
        fun r _ _ hpre => by
          rw [List.prefix_append_right_inj, List.cons_prefix_cons] at hpre
          exact absurd hpre.1 (by decide)).1
  exact (hkeep u h).mono fun v hv => ⟨gone, hv⟩

theorem keeps_applyStaged {removeExtras : Bool} :
    KeepsFrom (fun v => ∃ gone, Intact cfg L M job gone [] v)
      (applyStaged host job codec link removeExtras) L := by
  have hdisarm := keeps_disarm hS hprep
  have hweak : ∀ {l : List Entry} {v : PosixTree.Tree γ}, Entering cfg L M job l v →
      ∃ gone, Intact cfg L M job gone [] v :=
    fun hv => ⟨[], hv.whole, nofun, hv.links, hv.names, hv.dirs⟩
  unfold applyStaged
  refine (keeps_forbid _ _ L (hweak (entering_start hprep))).bind fun _ _ => ?_
  refine hdisarm.attempt.then (fun v hv => hweak hv) fun _ w hw => ?_
  obtain ⟨a, m, hmanifest, hcodec⟩ := hprep.manifest
  refine ((ensures_query (Q := fun c v => v = w ∧ c = m) (hweak hw) fun c hc =>
    ⟨rfl, readFile_job hw hprep.wf (List.prefix_append job _) hmanifest hc⟩).mapError.bind
      (R := fun _ _ => True) fun c v _ hc => ⟨?_, sat_true⟩).1
  obtain ⟨rfl, rfl⟩ := hc
  rw [hcodec]
  refine (intact_restoreTree hS hprep hw).then (fun _ hv => hv) fun out x hx => ?_
  exact (keeps_report hS hprep hx).mapError.then (fun _ hv => hv) fun _ y hy =>
    keeps_pure out y hy

end Apply

theorem sealed_swappable : Swappable liveMachine sealedManifest sealedJob systemUpdateLink where
  unique := by decide
  names := by decide
  nested := by decide
  ways := by
    intro e he s hs hne
    have hplain : ∀ s, s = [] ∨ s = ["etc"] → ¬ LinkAt liveMachine s := by
      rintro s hs ⟨a, target, hget⟩
      have hdir : liveMachine.get s = some plainDir := by
        rcases hs with rfl | rfl <;> decide
      exact nomatch hdir.symm.trans hget
    rcases mem_sealedManifest he with rfl | rfl
    · have hcases := List.prefix_concat_iff.mp (show s <+: [] ++ ["etc"] from hs)
      exact hplain s (.inl (by simpa [hne] using hcases))
    · rcases List.prefix_concat_iff.mp (show s <+: ["etc"] ++ ["seal"] from hs) with rfl | hs
      · exact absurd rfl hne
      · have hcases := List.prefix_concat_iff.mp (show s <+: [] ++ ["etc"] from hs)
        exact hplain s (.symm (by simpa using hcases))
  dirs := by
    intro e he hd _
    rcases mem_sealedManifest he with rfl | rfl
    · have hdir : liveMachine.get ["etc"] = some plainDir := by decide
      refine ⟨by simp [hdir], ?_⟩
      rintro ⟨a, target, hget⟩
      exact nomatch hdir.symm.trans hget
    · cases hd
  links := by
    intro e he target hp
    rcases mem_sealedManifest he with rfl | rfl <;> cases hp
  temporary := by
    intro e he size sha hp
    have hnone : liveMachine.get (sysibleNew ["etc", "seal"]) = none := by decide
    rcases mem_sealedManifest he with rfl | rfl
    · cases hp
    · refine ⟨?_, by simp [hnone], fun e' he' heq => ?_⟩
      · rintro ⟨a, target, hget⟩
        exact nomatch hnone.symm.trans hget
      · rcases mem_sealedManifest he' with rfl | rfl <;> exact absurd heq (by decide)
  apart := by decide
  trigger := by
    refine ⟨⟨by decide, fun pre post heq hpost => ?_⟩, by decide, by decide⟩
    rcases List.append_eq_singleton_iff.mp heq with ⟨rfl, rfl⟩ | ⟨rfl, rfl⟩
    · rintro ⟨a, target, hget⟩
      exact nomatch (show liveMachine.get [] = some plainDir by decide).symm.trans hget
    · exact absurd (hpost rfl) (by decide)

/-- A machine whose `/etc/mtab` is a link, and a restore point where it is another. -/
def mtabManifest : List Entry :=
  [⟨["etc"], 0o755, 0, 0, .dir⟩, ⟨["etc", "mtab"], 0o777, 0, 0, .link "/proc/mounts"⟩]

def mtabCodec : Codec String := ⟨fun _ => some mtabManifest, fun _ => "result"⟩

def mtabMachine : PosixTree.Tree String :=
  ((((⟨∅⟩ : PosixTree.Tree String).put [] plainDir).put ["etc"] plainDir).put
    ["etc", "mtab"] (.link ⟨0o777, 0, 0⟩ "/proc/self/mounts")).put ["var"] plainDir |>.put
    sealedJob plainDir |>.put (sealedJob ++ ["tree"]) plainDir |>.put
    (sealedJob ++ ["manifest.json"]) (.file ⟨0o600, 0, 0⟩ "entries" true) |>.put
    (sealedJob ++ ["READY"]) (.file ⟨0o600, 0, 0⟩ "staged\n" true) |>.put
    systemUpdateLink (.link ⟨0o777, 0, 0⟩ "/var/7")

theorem mtab_prepared : Prepared sealedSettings mtabCodec mtabMachine mtabManifest sealedJob where
  wf := wellFormed_of_check (by decide)
  dir := ⟨⟨0o755, 0, 0⟩, true, by decide⟩
  nonroot := by decide
  manifest := ⟨⟨0o600, 0, 0⟩, "entries", by decide, rfl⟩
  tree := by
    intro e he size sha hp
    simp only [mtabManifest, List.mem_cons, List.not_mem_nil, or_false] at he
    rcases he with rfl | rfl <;> cases hp
  only := by
    intro n hn
    have hall : ∀ n ∈ PosixTree.names mtabMachine sealedJob,
        n = "READY" ∨ n = "manifest.json" ∨ n = "tree" := by decide
    exact hall n (mem_names.mpr hn)

end FlashbackRestore
