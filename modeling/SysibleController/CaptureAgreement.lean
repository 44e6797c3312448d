import SysibleController.RestoreUnchanged
import Mathlib.Data.List.Dedup

/-! Capture and apply agree on what exists: a restore point applied to the machine it was taken
of displaces nothing, where the walk records every object of the directories it captures. -/
namespace FlashbackRestore

open AtomicSteps Prog EarlyExit PosixTree RestorePoint

variable {γ : Type} {cfg : RestorePoint.Settings γ} {codec : Codec γ} {F G u v : PosixTree.Tree γ}
  {roots : List Path} {job j d c q : Path} {n : Name} {e : Entry} {todo : List Entry} {host : Host}
  {lost : Path → Prop}

/-! ## Nothing stays lost -/

/-- A file that went away under its name as a temporary name; its own entry is still to come. -/
def Awaited (cfg : RestorePoint.Settings γ) (F : PosixTree.Tree γ) (roots : List Path)
    (todo : List Entry) (q : Path) : Prop :=
  ∃ d c n a body b body', Captured cfg F roots d c ∧ q = c ++ [n ++ ".sysible-new"] ∧
    F.get (c ++ [n]) = some (.file a body true) ∧ F.get q = some (.file b body' true) ∧
    ∃ e ∈ todo, e.isDir = false ∧ e.path = d ++ [n ++ ".sysible-new"]

theorem Awaited.cons (h : Awaited cfg F roots (e :: todo) q) :
    Awaited cfg F roots todo q ∨ (e.isDir = false ∧
      ∃ d c n, Captured cfg F roots d c ∧ e.path = d ++ [n] ∧ q = c ++ [n]) := by
  obtain ⟨d, c, n, a, body, b, body', hcap, hq, hfile, hown, e', he', hdir, hpath⟩ := h
  rcases List.mem_cons.mp he' with rfl | he'
  · exact Or.inr ⟨hdir, d, c, _, hcap, hpath, hq⟩
  · exact Or.inl ⟨d, c, n, a, body, b, body', hcap, hq, hfile, hown, e', he', hdir, hpath⟩

/-- An entry whose own temporary name is a directory puts back no temporary name: this has been
ruled out. -/
theorem Awaited.blocked (h : Awaited cfg F roots (e :: todo) (c ++ [n]))
    (hs : Staged cfg codec F G roots job j) (hreg : Regular cfg F G roots)
    (hdir : DirAt G (c ++ [n ++ ".sysible-new"])) : False := by
  obtain ⟨d, p, m, a, body, b, body', hcap, hq, hfile, hown, -⟩ := h
  obtain ⟨rfl, hm⟩ := List.append_inj' hq rfl
  obtain rfl := List.singleton_inj.mp hm
  have hG := hs.old _ _ hown
  rcases hreg.temporary d c m a body hcap hfile with hnone | ⟨b', l, hdir'⟩ | ⟨-, hnd⟩
  · rw [hG] at hnone
    cases hnone
  · rw [hG] at hdir'
    cases hdir'
  · exact hnd hdir

theorem mem_of_sorted {entries done : List Entry}
    (hsorted : done ++ e :: todo = sortEntries entries) : e ∈ entries := by
  rw [← mem_sortEntries, ← hsorted]
  simp

/-- The entry of a file under a temporary name comes after that of the file it would replace. -/
theorem mem_todo {entries done : List Entry} {e' : Entry}
    (hsorted : done ++ e :: todo = sortEntries entries) (he : e.path = d ++ [n])
    (hmem : e' ∈ entries) (hdir' : e'.isDir = false)
    (he' : e'.path = d ++ [n ++ ".sysible-new"]) : e' ∈ todo := by
  have hin : e' ∈ done ++ e :: todo := by
    rw [hsorted]
    exact mem_sortEntries.mpr hmem
  rcases List.mem_append.mp hin with hdone | hin
  · exact absurd hdone (not_mem_done hsorted he hdir' he')
  · rcases List.mem_cons.mp hin with rfl | hin
    · exact absurd (he'.symm.trans he) (sysibleNew_ne d n)
    · exact hin

theorem isdir_file (wf : WellFormed F) (hcap : Captured cfg F roots d c) {a : Attrs} {body : γ}
    {r : Bool} (hF : F.get (c ++ [n]) = some (.file a body r)) : isdir F (d ++ [n]) = false := by
  unfold isdir
  rw [stat_child wf.dirClosed (hcap.leads wf) (wf.names c n (by simp [hF])) (by simp [hF]), hF]
  rfl

theorem sat_awaited {done : List Entry} (h : Between F G j (Awaited cfg F roots (e :: todo)) u)
    (hs : Staged cfg codec F G roots job j) (wf : WellFormed F)
    (hroots : ∀ r ∈ roots, ∀ n ∈ r, ValidName n) (hreg : Regular cfg F G roots)
    (hcomplete : Complete cfg F roots)
    (hsorted : done ++ e :: todo = sortEntries (rpWalk cfg F roots)) :
    Sat (restoreEntry host job e) u (fun _ v => Between F G j (Awaited cfg F roots todo) v)
      fun _ v => Between F G j (Awaited cfg F roots todo) v := by
  refine h.sat_entry hs wf hroots hreg (mem_of_sorted hsorted) (fun _ => Awaited.cons) ?_ ?_
  · intro d c n _ _ hdir hl
    exact (hl.blocked hs hreg hdir).elim
  · intro d c n a body b body' hcap hpath hnd hF hown
    have hnodir := isdir_file wf hcap hown
    rcases hcomplete d c _ _ hcap hown rfl with ⟨c', hcap'⟩ | ⟨-, hex, hsome⟩
    · rw [(hcap'.leads wf).isdir] at hnodir
      cases hnodir
    · obtain ⟨e', he'⟩ := Option.isSome_iff_exists.mp hsome
      obtain ⟨hpath', hnd'⟩ := objectEntry_path he'
      exact ⟨d, c, n, a, body, b, body', hcap, rfl, hF, hown, e',
        mem_todo hsorted hpath (hcap.object_mem wf hroots hown hnodir hex he') hnd' hpath',
        hnd', hpath'⟩

theorem Between.inPlace (h : Between F G j (Awaited cfg F roots []) u) : InPlace F u := by
  intro q node hq
  refine (h.old q node hq).resolve_right ?_
  rintro ⟨-, ⟨d, c, n, a, body, b, body', -, -, -, -, e, he, -⟩, -⟩
  cases he

/-! ## Extras -/

theorem captured_of_dir (wf : WellFormed F) (he : e ∈ rpWalk cfg F roots) (hd : e.isDir = true) :
    ∃ c, Captured cfg F roots e.path c := by
  cases recorded_of_rpWalk wf he with
  | dir hcap _ => exact ⟨_, hcap⟩
  | object _ _ _ _ hobj =>
    rw [(objectEntry_path hobj).2] at hd
    cases hd

theorem Between.listable (h : Between F G j lost u) (hc : Listable F c) : Listable u c := by
  obtain ⟨a, hF⟩ := hc
  rcases h.old c _ hF with hbare | ⟨-, -, b, body, hfile⟩
  · obtain ⟨own, hget, hown⟩ := Option.map_eq_some_iff.mp hbare
    cases own with
    | dir b l =>
      simp only [bare, Node.setAttrs, Node.dir.injEq, true_and] at hown
      exact ⟨b, by rw [hget, hown]⟩
    | file | link | special => cases hown
  · cases hfile

/-- An extra is an object in a captured directory, but no directory, that has no entry. -/
theorem Between.mem_extras (h : Between F G j lost u) (hs : Staged cfg codec F G roots job j)
    (wf : WellFormed F) (hroots : ∀ r ∈ roots, ∀ n ∈ r, ValidName n) {p : Path} :
    p ∈ extrasUnder u (rpWalk cfg F roots) ↔ ∃ d c n node, Captured cfg F roots d c ∧
      p = d ++ [n] ∧ F.get (c ++ [n]) = some node ∧ node.isDir = false ∧
      u.get (c ++ [n]) ≠ none ∧ ∀ e ∈ rpWalk cfg F roots, e.path ≠ d ++ [n] := by
  have hcu := h.dirClosed hs wf
  constructor
  · intro hp
    obtain ⟨d, hd, hp⟩ := List.mem_flatMap.mp hp
    obtain ⟨e, he, rfl⟩ := List.mem_map.mp (List.mem_dedup.mp hd)
    obtain ⟨he, hedir⟩ := List.mem_filter.mp he
    obtain ⟨c, hcap⟩ := captured_of_dir wf he hedir
    have hdu := h.leads wf (hcap.leads wf)
    cases hlist : listdir u e.path with
    | error err =>
      rw [hlist] at hp
      cases hp
    | ok ns =>
      obtain ⟨-, rfl⟩ := listable_of_listdir hdu hlist
      rw [hlist] at hp
      obtain ⟨hp, hextra⟩ := List.mem_filter.mp hp
      obtain ⟨n, hn, rfl⟩ := List.mem_map.mp hp
      simp only [decide_eq_true_eq] at hextra
      obtain ⟨hwant, hnotdir⟩ := hextra
      have hget := mem_names.mp hn
      have hnd : ValidName n → ¬ DirAt u (c ++ [n]) := fun hv hdir =>
        hnotdir ((dirAt_child hcu hdu hv).mpr hdir)
      obtain ⟨node, hF⟩ : ∃ node, F.get (c ++ [n]) = some node := by
        rw [← Option.ne_none_iff_exists']
        intro hF
        have hdir := h.dirAt_new hs wf hcap.listable.dirAt hF hget
        obtain ⟨a, l, hG⟩ := h.dirAt_staged hs hdir
        exact hnd (hs.wf.names c n (by simp [hG])) hdir
      refine ⟨e.path, c, n, node, hcap, rfl, hF, ?_, hget, ?_⟩
      · rw [← Bool.not_eq_true]
        intro hnode
        refine hnd (wf.names c n (by simp [hF])) (h.skeleton.dirs _ ?_)
        exact dirAt_iff.mpr ⟨node, hF, hnode⟩
      · intro e' he' hpath
        exact hwant (List.mem_filter.mpr ⟨List.mem_map.mpr ⟨e', he', hpath⟩, by simp⟩)
  · rintro ⟨d, c, n, node, hcap, rfl, hF, hnode, hget, hfree⟩
    obtain ⟨own, hown⟩ := hcap.dir_mem wf hroots
    have hdu := h.leads wf (hcap.leads wf)
    refine List.mem_flatMap.mpr ⟨d, List.mem_dedup.mpr (List.mem_map.mpr
      ⟨_, List.mem_filter.mpr ⟨hown, rfl⟩, rfl⟩), ?_⟩
    rw [listdir_leads hdu (h.listable hcap.listable)]
    refine List.mem_filter.mpr ⟨List.mem_map_of_mem (mem_names.mpr hget), ?_⟩
    simp only [decide_eq_true_eq]
    constructor
    · intro hwant
      obtain ⟨e, he, hpath⟩ := List.mem_map.mp (List.mem_filter.mp hwant).1
      exact hfree e he hpath
    · intro hdir
      obtain ⟨a, l, hG⟩ := h.dirAt_staged hs
        ((dirAt_child hcu hdu (wf.names c n (by simp [hF]))).mp hdir)
      obtain rfl := Option.some.inj ((hs.old _ _ hF).symm.trans hG)
      cases hnode

/-- Where the walk is complete, every object has its entry. -/
theorem Complete.entry (hcomplete : Complete cfg F roots) (wf : WellFormed F)
    (hroots : ∀ r ∈ roots, ∀ n ∈ r, ValidName n) (hcap : Captured cfg F roots d c)
    {node : Node γ} (hF : F.get (c ++ [n]) = some node) (hnode : node.isDir = false) :
    ∃ e ∈ rpWalk cfg F roots, e.path = d ++ [n] := by
  rcases hcomplete d c n node hcap hF hnode with ⟨c', hcap'⟩ | ⟨hdir, hex, hsome⟩
  · obtain ⟨own, hown⟩ := hcap'.dir_mem wf hroots
    exact ⟨_, hown, rfl⟩
  · obtain ⟨e, he⟩ := Option.isSome_iff_exists.mp hsome
    exact ⟨e, hcap.object_mem wf hroots hF hdir hex he, (objectEntry_path he).1⟩

/-- And the other way round. -/
theorem complete_of_entries (wf : WellFormed F) (h : ∀ d c n node, Captured cfg F roots d c →
    F.get (c ++ [n]) = some node → node.isDir = false →
      ∃ e ∈ rpWalk cfg F roots, e.path = d ++ [n]) : Complete cfg F roots := by
  intro d c n node hcap hF hnode
  obtain ⟨e, he, hpath⟩ := h d c n node hcap hF hnode
  cases recorded_of_rpWalk wf he with
  | @dir d' c' own hcap' _ =>
    obtain rfl : d' = d ++ [n] := hpath
    exact Or.inl ⟨c', hcap'⟩
  | @object d' c' n' node' _ hcap' hF' hdir hex hobj =>
    rw [(objectEntry_path hobj).1] at hpath
    obtain ⟨rfl, hm⟩ := List.append_inj' hpath rfl
    obtain rfl := List.singleton_inj.mp hm
    obtain rfl := (hcap.leads wf).unique (hcap'.leads wf)
    obtain rfl := Option.some.inj (hF.symm.trans hF')
    exact Or.inr ⟨hdir, hex, by rw [hobj]; rfl⟩

/-! ## The first extra is moved away -/

/-- On one device a first extra is moved away. -/
theorem sat_displaceExtra {δ : Type} {E : δ → PosixTree.Tree γ → Prop} {out : Tally}
    (h : Between F G j lost u) (hs : Staged cfg codec F G roots job j) (wf : WellFormed F)
    (hroots : ∀ r ∈ roots, ∀ n ∈ r, ValidName n) (hdevice : OneDevice cfg F roots j host)
    (hcap : Captured cfg F roots d c) {node : Node γ} (hF : F.get (c ++ [n]) = some node)
    (hnode : node.isDir = false) (hget : u.get (c ++ [n]) ≠ none) :
    Sat (displaceExtra host job out (d ++ [n])) u
      (fun out' _ => out'.displaced = out.displaced + 1) E := by
  have hcu := h.dirClosed hs wf
  have hfresh : ∀ r, u.get (j ++ "displaced" :: r) = none := by
    intro r
    rw [h.job _ (List.prefix_append j _)]
    refine hs.wf.none_below (p := j ++ ["displaced"]) ?_ (by simp)
    by_contra hne
    have := hs.only "displaced" hne
    simp at this
  have hclear : Clear u j ("displaced" :: d) := by
    intro s hpre
    cases s with
    | nil => exact Or.inl (by simpa using h.way j (List.prefix_refl j))
    | cons x r =>
      obtain ⟨rfl, -⟩ := List.cons_prefix_cons.mp hpre
      exact Or.inr (hfresh r)
  have hnames : ∀ m ∈ "displaced" :: d, ValidName m := by
    intro m hm
    rcases List.mem_cons.mp hm with rfl | hm
    · decide
    · exact hcap.names wf hroots m hm
  have hv := wf.names c n (by simp [hF])
  obtain ⟨own, hown⟩ := Option.ne_none_iff_exists'.mp hget
  have hnd : own.isDir = false := by
    rw [← Bool.not_eq_true]
    intro hdir
    obtain ⟨a, l, hG⟩ := h.dirAt_staged hs (dirAt_iff.mpr ⟨own, hown, hdir⟩)
    obtain rfl := Option.some.inj ((hs.old _ _ hF).symm.trans hG)
    cases hnode
  have hassoc : ∀ x : Path, x ++ "displaced" :: (d ++ [n]) = (x ++ "displaced" :: d) ++ [n] := by
    intro x
    simp
  unfold displaceExtra
  rw [sat_bind, sat_attempt]
  unfold displace
  rw [List.dropLast_concat, sat_bind]
  refine sat_makedirs hcu (h.leads_job hs wf) hnames hclear fun w hw => ?_
  have hcw := hw.dirClosed hclear (h.way j (List.prefix_refl j)) hcu
  have hdst : w.get ((j ++ "displaced" :: d) ++ [n]) = none := by
    rw [List.append_assoc, hw.kept _ (Or.inr fun s hs' heq => append_snoc_ne hs' heq.symm)]
    simpa using hfresh (d ++ [n])
  rw [sat_bind, sat_attempt, sat_step, hassoc, rename_child hcw
    ((h.leads wf (hcap.leads wf)).extend hcu hw.extends) hv
    (hw.leads hclear hcu (h.leads_job hs wf) hnames) hv ((hw.extends _ hget).trans hown) hnd
    (hdevice d c hcap) (by rw [hdst]; rfl)]
  exact rfl

/-- The number of displaced objects never goes down. -/
theorem sat_displaceAll {δ : Type} {E : δ → PosixTree.Tree γ → Prop} (extras : List Path)
    (out : Tally) (t : PosixTree.Tree γ) : Sat (extras.foldlM (displaceExtra host job) out) t
      (fun out' _ => out.displaced ≤ out'.displaced) E := by
  refine @Sat.foldlM _ _ _ E _ (fun _ _ out' _ => out.displaced ≤ out'.displaced)
    (displaceExtra host job) ?_ extras [] out t le_rfl
  intro done p todo out' u hle
  unfold displaceExtra
  rw [sat_bind, sat_attempt]
  exact sat_true.mono (fun _ _ _ => Nat.le_succ_of_le hle) fun _ _ _ => hle

/-! ## The whole apply -/

/-- The loop over the entries, with what is lost before each of them. -/
theorem sat_entries {δ : Type} {E : δ → PosixTree.Tree γ → Prop} {entries : List Entry}
    {lostAt : List Entry → Path → Prop} (h : Between F G j (lostAt (sortEntries entries)) u)
    (hentry : ∀ done e todo v, done ++ e :: todo = sortEntries entries →
      Between F G j (lostAt (e :: todo)) v →
      Sat (restoreEntry host job e) v (fun _ w => Between F G j (lostAt todo) w)
        fun _ w => Between F G j (lostAt todo) w)
    (hroot : ∀ e todo q, e.path = [] → lostAt (e :: todo) q → lostAt todo q) :
    Sat ((sortEntries entries).foldlM (applyEntry host job) ⟨0, 0, []⟩) u
      (fun out v => out.displaced = 0 ∧ Between F G j (lostAt []) v) E := by
  refine (@Sat.foldlM _ _ _ E _ (fun done todo out v => out.displaced = 0 ∧
    done ++ todo = sortEntries entries ∧ Between F G j (lostAt todo) v)
    (applyEntry host job) ?_ (sortEntries entries) [] ⟨0, 0, []⟩ u ⟨rfl, rfl, h⟩).mono ?_ ?_
  · rintro done e todo out v ⟨hzero, hsorted, hv⟩
    refine (sat_applyEntry ?_ fun _ => hentry done e todo v hsorted hv).mono ?_ fun _ _ h => h
    · intro hp
      refine ⟨?_, hv.new, hv.way, hv.job, hv.skeleton⟩
      intro q node hq
      exact (hv.old q node hq).imp_right fun ⟨hnone, hl, hfile⟩ =>
        ⟨hnone, hroot e todo q hp hl, hfile⟩
    · rintro out' w ⟨hkept, hw⟩
      exact ⟨hkept.trans hzero, by simpa using hsorted, hw⟩
  · rintro out v ⟨hzero, -, hv⟩
    exact ⟨hzero, hv⟩
  · exact fun _ _ h => h

/-- The staged machine without its trigger is ready for the first entry. -/
theorem Staged.between (hs : Staged cfg codec F G roots job j) (wf : WellFormed F)
    (hother : ∀ q, q ≠ systemUpdateLink ∨ F.get q ≠ none ∨ DirAt G q → u.get q = G.get q)
    (hlink : ¬ DirAt G systemUpdateLink → F.get systemUpdateLink = none →
      u.get systemUpdateLink = none) : Between F G j lost u := by
  have hold : ∀ q node, F.get q = some node → u.get q = some node := by
    intro q node hq
    rw [hother q (Or.inr (Or.inl (by simp [hq]))), hs.old q node hq]
  refine ⟨fun q node hq => Or.inl (by rw [hold q node hq]; rfl), ?_, ?_, ?_, ?_, ?_⟩
  · intro q hF
    rcases hs.new q hF with hpre | hpre | ⟨rfl, a, target, hl⟩ | hnone
    · exact Or.inl hpre
    · exact Or.inr (Or.inl hpre)
    · refine Or.inr (Or.inr (hlink ?_ hF))
      rintro ⟨b, l, hdir⟩
      rw [hl] at hdir
      cases hdir
    · refine Or.inr (Or.inr ?_)
      by_cases hql : q = systemUpdateLink
      · subst hql
        refine hlink ?_ hF
        rintro ⟨b, l, hdir⟩
        rw [hnone] at hdir
        cases hdir
      · rw [hother q (Or.inl hql), hnone]
  · intro q hq
    have hdir : DirAt G q := (hs.wf.plain hs.dir).dirs q hq
    have hsame := hother q (Or.inr (Or.inr hdir))
    obtain ⟨a, l, hget⟩ := hdir
    exact ⟨a, l, hsame.trans hget⟩
  · intro q hq
    by_cases hql : q = systemUpdateLink
    · obtain ⟨r, hr⟩ := hq
      rcases List.append_eq_singleton_iff.mp (hr.trans hql) with ⟨hnil, -⟩ | ⟨hj, -⟩
      · obtain ⟨a, l, hroot⟩ := wf.root
        rw [← hnil, hs.fresh] at hroot
        cases hroot
      · refine hother q (Or.inr (Or.inr ?_))
        have hjq : j = q := hj.trans hql.symm
        exact hjq ▸ hs.dir
    · exact hother q (Or.inl hql)
  · rintro q ⟨a, l, hq⟩
    exact ⟨a, l, hold q _ hq⟩
  · intro q a target hq _
    exact hold q _ hq

theorem Staged.sat_disarm (hs : Staged cfg codec F G roots job j) (wf : WellFormed F)
    (htrigger : ∀ node, F.get systemUpdateLink = some node → node.isDir = true)
    (lost : Path → Prop) :
    Sat (disarm systemUpdateLink) G (fun _ u => Between F G j lost u)
      fun _ u => Between F G j lost u := by
  refine sat_disarm_trigger hs.wf ?_ ?_
  · exact fun hkept => hs.between wf (fun _ _ => rfl) fun hnd _ => hkept.resolve_right hnd
  · intro node hG hnode
    have hF : F.get systemUpdateLink = none := by
      by_contra hne
      obtain ⟨own, hown⟩ := Option.ne_none_iff_exists'.mp hne
      obtain rfl := Option.some.inj ((hs.old _ _ hown).symm.trans hG)
      rw [htrigger own hown] at hnode
      cases hnode
    refine hs.between wf ?_ fun _ _ => by simp
    intro q hq
    rw [Tree.get_drop, if_neg]
    rintro rfl
    rcases hq with hq | hq | ⟨a, l, hdir⟩
    · exact hq rfl
    · exact hq hF
    · obtain rfl := Option.some.inj (hG.symm.trans hdir)
      cases hnode

/-- What the apply does around the entries and extras. -/
theorem sat_applyStaged {R P : Tally → PosixTree.Tree γ → Prop} {D : Raised → PosixTree.Tree γ → Prop}
    (hs : Staged cfg codec F G roots job j) (wf : WellFormed F) (hreg : Regular cfg F G roots)
    (htree : ∀ u, Between F G j lost u → Sat (restoreTree host job (rpWalk cfg F roots) true) u R D)
    (hresult : ∀ out v, R out v → Sat ((step (writeFile host (job ++ ["result.json"])
      (codec.result out))).mapError Raised.os >>= fun _ => pure out) v P D) :
    Sat (applyStaged host job codec systemUpdateLink true) G P D := by
  unfold applyStaged
  obtain ⟨a, m, hm, hcodec⟩ := hs.manifest
  obtain ⟨b, r, hr⟩ := hs.ready
  have hready := (holds_child hs.wf.dirClosed (hs.leads_job wf) (by decide) hr).pathExists
  rw [sat_bind, sat_forbid, hready]
  refine Sat.attempt_then (hs.sat_disarm wf hreg.trigger lost) fun u hu => ?_
  have hread := (holds_child (hu.dirClosed hs wf) (hu.leads_job hs wf) (by decide)
    ((hu.job _ (List.prefix_append j _)).trans hm)).readFile
  rw [sat_bind, sat_mapError, sat_query, hread, ends_ok, hcodec]
  exact (htree u hu).bind hresult

/-- The result goes into the job's directory. -/
theorem Between.sat_result {out : Tally} (h : Between F G j lost v)
    (hs : Staged cfg codec F G roots job j) (wf : WellFormed F) :
    Sat ((step (writeFile host (job ++ ["result.json"]) (codec.result out))).mapError Raised.os >>=
      fun _ => pure out) v (fun out' w => out' = out ∧ ∀ q, F.get q ≠ none → w.get q = v.get q)
      fun _ _ => False := by
  have hnone : v.get (j ++ ["result.json"]) = none := by
    rw [h.job _ (List.prefix_append j _)]
    by_contra hne
    have := hs.only "result.json" hne
    simp at this
  rw [sat_bind, sat_mapError, sat_step, writeFile_new (h.dirClosed hs wf) (h.leads_job hs wf)
    (by decide) hnone, ends_ok, sat_pure]
  refine ⟨rfl, ?_⟩
  intro q hq
  rw [Tree.get_put, if_neg]
  rintro rfl
  exact hq (hs.none_below wf (List.prefix_append j _))

/-- A complete walk and the apply agree. -/
theorem agrees_of_complete (hs : Staged cfg codec F G roots job j) (wf : WellFormed F)
    (hroots : ∀ r ∈ roots, ∀ n ∈ r, ValidName n) (hreg : Regular cfg F G roots)
    (hcomplete : Complete cfg F roots) : Agrees host codec F G job := by
  refine sat_applyStaged (R := fun out v => out.displaced = 0 ∧
    Between F G j (Awaited cfg F roots []) v) hs wf hreg
    (fun u (hu : Between F G j (Awaited cfg F roots (sortEntries (rpWalk cfg F roots))) u) => ?_) ?_
  · refine (sat_entries hu (fun done e todo v hsorted hv =>
      sat_awaited hv hs wf hroots hreg hcomplete hsorted) ?_).bind ?_
    · intro e todo q hp hl
      refine hl.cons.resolve_right ?_
      rintro ⟨-, d, c, n, -, hpath, -⟩
      rw [hp] at hpath
      simp at hpath
    · rintro out v ⟨hzero, hv⟩
      have hnone : extrasUnder v (rpWalk cfg F roots) = [] := by
        rw [List.eq_nil_iff_forall_not_mem]
        intro p hp
        obtain ⟨d, c, n, node, hcap, -, hF, hnode, -, hfree⟩ := (hv.mem_extras hs wf hroots).mp hp
        obtain ⟨e, he, hpath⟩ := hcomplete.entry wf hroots hcap hF hnode
        exact hfree e he hpath
      simp only [if_true]
      rw [sat_bind, sat_ask, hnone]
      exact ⟨hzero, hv⟩
  · rintro out v ⟨hzero, hv⟩
    refine (hv.sat_result hs wf).mono ?_ fun _ _ h => h
    rintro out' w ⟨rfl, hw⟩
    refine ⟨hzero, ?_⟩
    intro q node hq
    rw [hw q (by simp [hq])]
    exact hv.inPlace q node hq

/-- On one device, an apply that agrees shows the walk to be complete. -/
theorem complete_of_agrees (hs : Staged cfg codec F G roots job j) (wf : WellFormed F)
    (hroots : ∀ r ∈ roots, ∀ n ∈ r, ValidName n) (hreg : Regular cfg F G roots)
    (hdevice : OneDevice cfg F roots j host) (h : Agrees host codec F G job) :
    Complete cfg F roots := by
  have hend : Sat (applyStaged host job codec systemUpdateLink true) G
      (fun out w => out.displaced = 0 → ∃ v, Between F G j (fun _ => True) v ∧
        extrasUnder v (rpWalk cfg F roots) = [] ∧ ∀ q, F.get q ≠ none → w.get q = v.get q)
      fun _ _ => True := by
    refine sat_applyStaged (R := fun out v => out.displaced = 0 →
      Between F G j (fun _ => True) v ∧ extrasUnder v (rpWalk cfg F roots) = []) hs wf hreg
      (fun u (hu : Between F G j (fun _ => True) u) => ?_) ?_
    · refine (@sat_entries γ F G u job j host _ _ _ (fun _ _ => True) hu ?_
        fun _ _ _ _ _ => trivial).bind ?_
      · intro done e todo v hsorted hv
        exact hv.sat_entry hs wf hroots hreg (mem_of_sorted hsorted) (fun _ _ => Or.inl trivial)
          (fun _ _ _ _ _ _ _ => trivial) fun _ _ _ _ _ _ _ _ _ _ _ _ => trivial
      · rintro out v ⟨hzero, hv⟩
        simp only [if_true]
        rw [sat_bind, sat_ask]
        cases hextras : (extrasUnder v (rpWalk cfg F roots)).insertionSort
            fun p q => text q ≤ text p with
        | nil =>
          refine fun _ => ⟨hv, ?_⟩
          have := List.perm_insertionSort (fun p q => text q ≤ text p)
            (extrasUnder v (rpWalk cfg F roots))
          rw [hextras] at this
          exact List.nil_perm.mp this
        | cons p rest =>
          -- the first extra goes, so the number is not 0 in the end
          have hp : p ∈ extrasUnder v (rpWalk cfg F roots) := by
            rw [← (List.perm_insertionSort (fun p q => text q ≤ text p) _).mem_iff, hextras]
            simp
          obtain ⟨d, c, n, node, hcap, rfl, hF, hnode, hget, -⟩ := (hv.mem_extras hs wf hroots).mp hp
          rw [List.foldlM_cons]
          refine (sat_displaceExtra hv hs wf hroots hdevice hcap hF hnode hget).bind ?_
          intro out' w hone
          refine (sat_displaceAll rest out' w).mono ?_ fun _ _ h => h
          intro out'' _ hle hzero'
          omega
    · intro out v hR
      by_cases hzero : out.displaced = 0
      · obtain ⟨hv, hnone⟩ := hR hzero
        refine (hv.sat_result hs wf).mono ?_ fun _ _ _ => trivial
        rintro out' w ⟨rfl, hw⟩ -
        exact ⟨v, hv, hnone, hw⟩
      · rw [sat_bind, sat_mapError, sat_step]
        cases writeFile host (job ++ ["result.json"]) (codec.result out) v with
        | ok w => exact fun hzero' => absurd hzero' hzero
        | error err => trivial
  obtain ⟨out, w, ⟨hzero, hplace⟩, hlast⟩ := h.meet hend
  obtain ⟨v, hv, hnone, hsame⟩ := hlast hzero
  refine complete_of_entries wf ?_
  intro d c n node hcap hF hnode
  by_contra hfree
  have hp : d ++ [n] ∈ extrasUnder v (rpWalk cfg F roots) := by
    refine (hv.mem_extras hs wf hroots).mpr ⟨d, c, n, node, hcap, rfl, hF, hnode, ?_, ?_⟩
    · intro hgone
      have := hplace _ node hF
      rw [hsame _ (by simp [hF]), hgone] at this
      cases this
    · exact fun e he hpath => hfree ⟨e, he, hpath⟩
  rw [hnone] at hp
  cases hp

/-- Capture and apply agree on what exists where the walk is complete, and, as far as nothing
stands on another device, nowhere else. -/
theorem capture_and_apply_agree (cfg : RestorePoint.Settings γ) (codec : Codec γ) (host : Host)
    (F G : PosixTree.Tree γ) (roots : List Path) (job j : Path) (wf : WellFormed F)
    (hroots : ∀ r ∈ roots, ∀ n ∈ r, ValidName n) (hs : Staged cfg codec F G roots job j)
    (hreg : Regular cfg F G roots) :
    (Complete cfg F roots → Agrees host codec F G job) ∧
      (OneDevice cfg F roots j host → Agrees host codec F G job → Complete cfg F roots) :=
  ⟨agrees_of_complete hs wf hroots hreg, complete_of_agrees hs wf hroots hreg⟩

/-! A directory with a file, a directory and a link to that directory. -/

def sampleDir : Node String := .dir ⟨0o755, 0, 0⟩ true

def sampleFile (body : String) : Node String := .file ⟨0o644, 0, 0⟩ body true

def sampleMachine : PosixTree.Tree String :=
  ((((⟨∅⟩ : PosixTree.Tree String).put [] sampleDir).put ["etc"] sampleDir).put
    ["etc", "conf.d"] sampleDir).put ["etc", "conf"] (.link ⟨0o777, 0, 0⟩ "conf.d") |>.put
    ["etc", "hosts"] (sampleFile "localhost")

def sampleJob : Path := ["var", "7"]

def sampleStaged : PosixTree.Tree String :=
  (((sampleMachine.put ["var"] sampleDir).put sampleJob sampleDir).put (sampleJob ++ ["tree"])
    sampleDir).put (sampleJob ++ ["tree", "etc"]) sampleDir |>.put
    (sampleJob ++ ["tree", "etc", "hosts"]) (sampleFile "localhost") |>.put
    (sampleJob ++ ["manifest.json"]) (sampleFile "entries") |>.put
    (sampleJob ++ ["READY"]) (sampleFile "staged\n") |>.put
    systemUpdateLink (.link ⟨0o777, 0, 0⟩ "/var/7")

def sampleSettings : RestorePoint.Settings String := ⟨[["proc"]], 1000, String.length, id⟩

def sampleCodec : Codec String :=
  ⟨fun _ => some (rpWalk sampleSettings sampleMachine [["etc"]]), fun _ => "result"⟩

def sampleHost : Host := ⟨0o022, fun _ => 0⟩

theorem sampleMachine_wf : WellFormed sampleMachine := wellFormed_of_check (by decide)

theorem sampleStaged_wf : WellFormed sampleStaged := wellFormed_of_check (by decide)

theorem sample_roots : ∀ r ∈ [["etc"]], ∀ n ∈ r, ValidName n := by decide

theorem sample_captured (h : Captured sampleSettings sampleMachine [["etc"]] d c) :
    d = c ∧ (c = ["etc"] ∨ c = ["etc", "conf.d"]) := by
  have hdirs : ∀ e ∈ rpWalk sampleSettings sampleMachine [["etc"]], e.isDir = true →
      DirAt sampleMachine e.path ∧ (e.path = ["etc"] ∨ e.path = ["etc", "conf.d"]) := by
    intro e he hdir
    have hpath : e.path = ["etc"] ∨ e.path = ["etc", "conf.d"] := by
      revert e
      decide
    refine ⟨?_, hpath⟩
    rcases hpath with hp | hp <;> rw [hp] <;> exact ⟨⟨0o755, 0, 0⟩, true, by decide⟩
  obtain ⟨own, hown⟩ := h.dir_mem sampleMachine_wf sample_roots
  obtain ⟨hdir, hd⟩ := hdirs _ hown rfl
  obtain rfl : d = c := (sampleMachine_wf.plain hdir).leads.unique (h.leads sampleMachine_wf)
  exact ⟨rfl, hd⟩

/-- The only file. -/
theorem sample_file (hcap : Captured sampleSettings sampleMachine [["etc"]] d c) {a : Attrs}
    {body : String} (hF : sampleMachine.get (c ++ [n]) = some (.file a body true)) :
    d = ["etc"] ∧ c = ["etc"] ∧ n = "hosts" ∧ body = "localhost" := by
  obtain ⟨rfl, hd⟩ := sample_captured hcap
  have hn : n ∈ PosixTree.names sampleMachine d := mem_names.mpr (by simp [hF])
  have hall : ∀ p ∈ [["etc"], ["etc", "conf.d"]], ∀ n ∈ PosixTree.names sampleMachine p,
      p = ["etc"] ∧ n = "hosts" ∧ sampleMachine.get (p ++ [n]) = some (sampleFile "localhost") ∨
        (sampleMachine.get (p ++ [n])).any (fun x => x.isDir || x.isLink) = true := by
    decide
  rcases hall d (by simpa using hd) n hn with ⟨rfl, rfl, hget⟩ | hother
  · obtain ⟨-, rfl, -⟩ := Node.file.inj (Option.some.inj (hget.symm.trans hF))
    exact ⟨rfl, rfl, rfl, rfl⟩
  · rw [hF] at hother
    cases hother

theorem sample_staged : Staged sampleSettings sampleCodec sampleMachine sampleStaged [["etc"]]
    sampleJob sampleJob where
  wf := sampleStaged_wf
  way := ⟨[], [], sampleJob, rfl, rfl, (sampleMachine_wf.plain sampleMachine_wf.root).leads,
    by decide⟩
  dir := ⟨⟨0o755, 0, 0⟩, true, by decide⟩
  fresh := by decide
  old := by
    intro q node hq
    have hall : ∀ q ∈ sampleMachine.nodes.keys, sampleStaged.get q = sampleMachine.get q := by
      decide
    rw [hall q (PosixTree.Tree.mem_keys.mpr (by simp [hq])), hq]
  new := by
    intro q hq
    have hall : ∀ q ∈ sampleStaged.nodes.keys, sampleMachine.get q = none → q <+: sampleJob ∨
        sampleJob <+: q ∨ q = systemUpdateLink := by decide
    by_cases hget : sampleStaged.get q = none
    · exact Or.inr (Or.inr (Or.inr hget))
    · rcases hall q (PosixTree.Tree.mem_keys.mpr hget) hq with h | h | rfl
      · exact Or.inl h
      · exact Or.inr (Or.inl h)
      · exact Or.inr (Or.inr (Or.inl ⟨rfl, ⟨0o777, 0, 0⟩, "/var/7", by decide⟩))
  ready := ⟨⟨0o644, 0, 0⟩, "staged\n", by decide⟩
  manifest := ⟨⟨0o644, 0, 0⟩, "entries", by decide, rfl⟩
  tree := by
    intro d c n a body hcap hF
    obtain ⟨rfl, rfl, rfl, rfl⟩ := sample_file hcap hF
    exact ⟨⟨0o644, 0, 0⟩, by decide⟩
  only := by
    intro n hn
    have hall : ∀ n ∈ PosixTree.names sampleStaged sampleJob,
        n = "READY" ∨ n = "manifest.json" ∨ n = "tree" := by decide
    exact hall n (mem_names.mpr hn)

/-- A link to a directory is in no entry, and is moved away. -/
theorem directory_link_is_displaced : Staged sampleSettings sampleCodec sampleMachine sampleStaged
    [["etc"]] sampleJob sampleJob ∧
    ¬ Agrees sampleHost sampleCodec sampleMachine sampleStaged sampleJob := by
  refine ⟨sample_staged, ?_⟩
  intro h
  have hrun : (((applyStaged sampleHost sampleJob sampleCodec systemUpdateLink true).run
      sampleStaged).result.toOption.map Tally.displaced) = some 1 := by decide
  unfold Agrees Sat at h
  cases hresult : ((applyStaged sampleHost sampleJob sampleCodec systemUpdateLink true).run
      sampleStaged).result with
  | ok out =>
    rw [hresult] at h hrun
    have hone : out.displaced = 1 := Option.some.inj hrun
    rw [h.1] at hone
    cases hone
  | error err =>
    rw [hresult] at h
    exact h

theorem sample_regular : Regular sampleSettings sampleMachine sampleStaged [["etc"]] where
  temporary := by
    intro d c n a body hcap hF
    obtain ⟨rfl, rfl, rfl, rfl⟩ := sample_file hcap hF
    exact Or.inl (by decide)
  trigger := by
    intro node hnode
    have hnone : sampleMachine.get systemUpdateLink = none := by decide
    rw [hnone] at hnode
    cases hnode
  links := by
    intro d c n hcap hdir
    obtain ⟨rfl, -⟩ := sample_captured hcap
    exact hdir

theorem capture_and_apply_agree_sample :
    (Complete sampleSettings sampleMachine [["etc"]] →
      Agrees sampleHost sampleCodec sampleMachine sampleStaged sampleJob) ∧
    (OneDevice sampleSettings sampleMachine [["etc"]] sampleJob sampleHost →
      Agrees sampleHost sampleCodec sampleMachine sampleStaged sampleJob →
      Complete sampleSettings sampleMachine [["etc"]]) :=
  capture_and_apply_agree sampleSettings sampleCodec sampleHost sampleMachine sampleStaged
    [["etc"]] sampleJob sampleJob sampleMachine_wf sample_roots sample_staged sample_regular

end FlashbackRestore
