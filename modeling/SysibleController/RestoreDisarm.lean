import SysibleController.FlashbackRestore
import Mathlib.Data.List.Dedup

/-! The one rule of the offline apply: the link that makes systemd boot into the update target is
gone before the work starts, and is not there when the call ends. -/
namespace FlashbackRestore

open AtomicSteps Prog PosixTree RestorePoint

variable {γ δ : Type} {host : Host} {job : Path} {codec : Codec γ} {removeExtras : Bool}
variable {t u : PosixTree.Tree γ} {p q cur : Path} {n : Name} {comps : List Name}

/-- `os.path.islink(link) or os.path.exists(link)`: the next boot finds something there. -/
def Armed (t : PosixTree.Tree γ) : Bool :=
  islink t systemUpdateLink || pathExists t systemUpdateLink

def StagedReady (job : Path) (t : PosixTree.Tree γ) : Bool := pathExists t (job ++ ["READY"])

/-- Nothing has been written as long as the link has always been there, and at the end it is
not. -/
def BootSafe (t : PosixTree.Tree γ) (r : Run (PosixTree.Tree γ) Raised Tally) : Prop :=
  (∀ before u after, r.past ++ [r.final] = before ++ u :: after → u ≠ t →
    ∃ w ∈ before ++ [u], Armed w = false) ∧ Armed r.final = false

/-- The link is not there to begin with, or the job is ready and what is there can be unlinked. -/
def Disarmable (job : Path) (t : PosixTree.Tree γ) : Prop :=
  Armed t = false ∨ StagedReady job t = true ∧ ¬ DirAt t systemUpdateLink

/-! ## Directories stay

No call of the apply removes a directory, so one in the place of the link stays there. -/

def KeepsDirs (t u : PosixTree.Tree γ) : Prop := ∀ q, DirAt t q → DirAt u q

theorem dirAt_put {node : Node γ} (hnode : DirAt t q → node.isDir = true) :
    KeepsDirs t (t.put q node) := by
  intro r hr
  by_cases hrq : r = q
  · subst hrq
    exact dirAt_iff.mpr ⟨node, by simp, hnode hr⟩
  · obtain ⟨a, l, hget⟩ := hr
    exact ⟨a, l, by simp [hrq, hget]⟩

theorem dirAt_drop (h : ¬ DirAt t q) : KeepsDirs t (t.drop q) := by
  rintro r ⟨a, l, hget⟩
  have hrq : r ≠ q := by
    rintro rfl
    exact h ⟨a, l, hget⟩
  exact ⟨a, l, by simp [hrq, hget]⟩

/-! ## The calls of the apply, and what all of them keep -/

/-- An invariant that every system call keeps whose paths are allowed, and whose link targets. -/
structure CallsKeep (host : Host) (ok : Path → Prop) (okTarget : String → Prop)
    (I : PosixTree.Tree γ → Prop) : Prop where
  chmod : ∀ p mode s u, ok p → I s → PosixTree.chmod p mode s = .ok u → I u
  chown : ∀ p uid gid s u, ok p → I s → PosixTree.chown p uid gid s = .ok u → I u
  unlink : ∀ p s u, I s → PosixTree.unlink p s = .ok u → I u
  symlink : ∀ target p s u, okTarget target → ok p → I s →
    PosixTree.symlink target p s = .ok u → I u
  mkdir : ∀ p s u, ok p → I s → PosixTree.mkdir host p s = .ok u → I u
  writeFile : ∀ p c s u, ok p → I s → PosixTree.writeFile host p c s = .ok u → I u
  rename : ∀ p q s u, ok p → ok q → I s → PosixTree.rename host p q s = .ok u → I u

/-- The paths that the apply forms from allowed ones are allowed. -/
structure PathsAllowed (job : Path) (ok : Path → Prop) : Prop where
  init : ∀ p, ok p → ok p.dropLast
  temp : ∀ p, ok p → ok (sysibleNew p)
  displaced : ∀ p, ok p → ok (job ++ "displaced" :: p)
  into : ∀ p q, ok p → ok q → ok (p ++ [q.getLastD ""])
  result : ok (job ++ ["result.json"])

theorem PathsAllowed.upward {ok : Path → Prop} (hp : PathsAllowed job ok) (h : ok p)
    (hq : q <+: p) : ok q := by
  obtain ⟨r, rfl⟩ := hq
  induction r using List.reverseRecOn with
  | nil => simpa using h
  | append_singleton r n ih => exact ih (by simpa using hp.init _ h)

def EntryAllowed (ok : Path → Prop) (okTarget : String → Prop) (e : Entry) : Prop :=
  ok e.path ∧ ∀ target, e.payload = .link target → okTarget target

section Keeps

variable {ok : Path → Prop} {okTarget : String → Prop} {I : PosixTree.Tree γ → Prop}
  (hc : CallsKeep host ok okTarget I) (hp : PathsAllowed job ok)

include hc hp

theorem keeps_makedirs_allowed (h : ok p) : Keeps I (makedirs host p : FsM γ Unit) :=
  keeps_makedirs fun q hq => keeps_step fun s u hs => hc.mkdir q s u (hp.upward h hq) hs

omit hp in
theorem keeps_copyfile {src : Path} (h : ok q) : Keeps I (copyfile host src q : FsM γ Unit) :=
  (keeps_forbid _ _).bind fun _ => (keeps_forbid _ _).bind fun _ => (keeps_query _).bind fun c =>
    keeps_step fun s u hs => hc.writeFile q c s u h hs

theorem keeps_copy2 (h : ok p) (hq : ok q) : Keeps I (copy2 host p q : FsM γ Unit) := by
  refine (keeps_ask _).bind fun b => ?_
  have hdst : ok (if b then q ++ [p.getLastD ""] else q) := by
    split_ifs
    · exact hp.into q p hq h
    · exact hq
  exact (keeps_copyfile hc hdst).bind fun _ => (keeps_query _).bind fun node =>
    keeps_step fun s u hs => hc.chmod _ _ s u hdst hs

theorem keeps_restoreEntry {e : Entry} (h : EntryAllowed ok okTarget e) :
    Keeps I (restoreEntry host job e : FsM γ ℕ) := by
  obtain ⟨hpath, htarget⟩ := h
  unfold restoreEntry
  split
  · exact (keeps_makedirs_allowed hc hp hpath).bind fun _ =>
      (keeps_step fun s u hs => hc.chmod _ _ s u hpath hs).bind fun _ => keeps_pure 0
  · next target hpayload =>
    have hlink := hc.symlink target e.path
    refine (keeps_makedirs_allowed hc hp (hp.init _ hpath)).bind fun _ => (keeps_ask _).bind fun b => ?_
    have hput : Keeps I (step (symlink target e.path) : FsM γ Unit) :=
      keeps_step fun s u hs => hlink s u (htarget target hpayload) hpath hs
    cases b with
    | true =>
      exact (keeps_step fun s u hs => hc.unlink e.path s u hs).bind fun _ =>
        hput.bind fun _ => keeps_pure 1
    | false => exact (keeps_pure ()).bind fun _ => hput.bind fun _ => keeps_pure 1
  · have htemp := hp.temp _ hpath
    exact (keeps_makedirs_allowed hc hp (hp.init _ hpath)).bind fun _ =>
      (keeps_copyfile hc htemp).bind fun _ =>
      (keeps_step fun s u hs => hc.chown _ _ _ s u htemp hs).attempt.bind fun _ =>
      (keeps_step fun s u hs => hc.chmod _ _ s u htemp hs).bind fun _ =>
      (keeps_step fun s u hs => hc.rename _ _ s u htemp hpath hs).bind fun _ => keeps_pure 1

theorem keeps_applyEntry {e : Entry} (h : EntryAllowed ok okTarget e) (out : Tally) :
    Keeps I (applyEntry host job out e : Prog (PosixTree.Tree γ) δ Tally) := by
  unfold applyEntry
  split_ifs
  · exact keeps_pure out
  · refine (keeps_restoreEntry hc hp h).attempt.bind fun r => ?_
    cases r <;> exact keeps_pure _

theorem keeps_displace (h : ok p) : Keeps I (displace host job p : FsM γ Unit) := by
  have hdst := hp.displaced p h
  have hdir : ok (job ++ "displaced" :: p.dropLast) := hp.displaced _ (hp.init _ h)
  refine (keeps_makedirs_allowed hc hp hdir).bind fun _ =>
    (keeps_step fun s u hs => hc.rename _ _ s u h hdst hs).attempt.bind fun r => ?_
  cases r with
  | ok => exact keeps_pure ()
  | error e => exact (keeps_copy2 hc hp h hdst).bind fun _ =>
      keeps_step fun s u hs => hc.unlink p s u hs

theorem keeps_displaceExtra (h : ok p) (out : Tally) :
    Keeps I (displaceExtra host job out p : Prog (PosixTree.Tree γ) δ Tally) := by
  refine (keeps_displace hc hp h).attempt.bind fun r => ?_
  cases r <;> exact keeps_pure _

theorem keeps_restoreTree {entries : List Entry}
    (hentries : ∀ e ∈ entries, EntryAllowed ok okTarget e)
    (hextras : ∀ s, I s → ∀ p ∈ extrasUnder s entries, ok p) :
    Keeps I (restoreTree host job entries removeExtras : Prog (PosixTree.Tree γ) δ Tally) := by
  refine (keeps_foldlM (fun out e he => keeps_applyEntry hc hp (hentries e ?_) out) _).bind
    fun out => ?_
  · exact (List.mem_insertionSort _).mp he
  · split_ifs
    · intro s hs
      refine (keeps_ask _ s hs).bind fun extras hext => ?_
      obtain rfl := Except.ok.inj hext
      refine keeps_foldlM (fun out p hmem => keeps_displaceExtra hc hp (hextras s hs p ?_) out) out
        _ hs
      exact (List.mem_insertionSort _).mp hmem
    · exact keeps_pure out

end Keeps

theorem dirs_callsKeep (q : Path) :
    CallsKeep host (fun _ => True) (fun _ => True) fun u : PosixTree.Tree γ => DirAt u q := by
  refine ⟨?_, ?_, ?_, ?_, ?_, ?_, ?_⟩
  · intro p mode s u _ hs h
    obtain ⟨r, node, a, -, hget, rfl⟩ := chmod_form h
    exact dirAt_put (fun hr => (isDir_setAttrs node a).trans (isDir_of_dirAt hr hget)) q hs
  · intro p uid gid s u _ hs h
    obtain ⟨r, node, a, -, hget, rfl⟩ := chown_form h
    exact dirAt_put (fun hr => (isDir_setAttrs node a).trans (isDir_of_dirAt hr hget)) q hs
  · intro p s u hs h
    obtain ⟨r, node, -, hget, hdir, rfl⟩ := unlink_form h
    exact dirAt_drop (not_dirAt_of_get hget hdir) q hs
  · intro target p s u _ _ hs h
    obtain ⟨r, a, -, hnone, rfl⟩ := symlink_form h
    exact dirAt_put (fun hr => absurd hr (not_dirAt_of_none hnone)) q hs
  · intro p s u _ hs h
    obtain ⟨r, a, -, hnone, rfl⟩ := mkdir_form h
    exact dirAt_put (fun hr => absurd hr (not_dirAt_of_none hnone)) q hs
  · intro p c s u _ hs h
    rcases writeFile_form h with rfl | ⟨r, a, -, hnot, rfl⟩
    · exact hs
    · exact dirAt_put (fun hr => absurd hr hnot) q hs
  · intro src dst s u _ _ hs h
    obtain ⟨r, d, node, -, -, hget, hdir, hnot, rfl⟩ := rename_form h
    have hdrop := dirAt_drop (not_dirAt_of_get hget hdir)
    refine dirAt_put (fun hr => absurd ?_ hnot) q (hdrop q hs)
    obtain ⟨a, l, hd⟩ := hr
    rw [Tree.get_drop] at hd
    split_ifs at hd
    exact ⟨a, l, hd⟩

/-! ## The name of the link -/

def linkName : Name := "system-update"

/-- Nothing on the machine has the link's name on its path, and no link leads over it. -/
structure Free (t : PosixTree.Tree γ) : Prop where
  objects : ∀ q, linkName ∈ q → t.get q = none
  targets : ∀ q a target, t.get q = some (.link a target) → linkName ∉ linkParts target

theorem linkName_valid : linkName ≠ "" ∧ linkName ≠ "." ∧ linkName ≠ ".." := by decide

theorem walk_free {follow : Bool} {jump : Path → List Name → Except Errno Path} (hf : Free t)
    (hjump : ∀ base parts q, linkName ∉ base → linkName ∉ parts → jump base parts = .ok q →
      linkName ∉ q) (hcur : linkName ∉ cur) (hcomps : linkName ∉ comps)
    (h : walkWith t follow jump cur comps = .ok q) : linkName ∉ q := by
  induction comps generalizing cur with
  | nil =>
    obtain rfl := Except.ok.inj h
    exact hcur
  | cons c rest ih =>
    obtain ⟨hc, hrest⟩ : linkName ≠ c ∧ linkName ∉ rest := by simpa using hcomps
    have hnext : linkName ∉ cur ++ [c] := by simp [hcur, hc]
    rw [walkWith] at h
    by_cases hskip : c = "" ∨ c = "."
    · rw [if_pos hskip] at h
      exact ih hcur hrest h
    rw [if_neg hskip] at h
    by_cases hup : c = ".."
    · rw [if_pos hup] at h
      exact ih (fun hmem => hcur ((List.dropLast_sublist cur).subset hmem)) hrest h
    · rw [if_neg hup] at h
      split at h
      · exact ih hnext hrest h
      · next a target hlink =>
        split_ifs at h
        · obtain rfl := Except.ok.inj h
          exact hnext
        · refine hjump _ _ _ ?_ ?_ h
          · unfold linkBase
            split_ifs
            · simp
            · exact hcur
          · simpa [hrest] using hf.targets _ a target hlink
      · split_ifs at h
        obtain rfl := Except.ok.inj h
        exact hnext
      · split_ifs at h
        obtain rfl := Except.ok.inj h
        exact hnext

theorem resolve_free {follow : Bool} {k : ℕ} (hf : Free t) (hcur : linkName ∉ cur)
    (hcomps : linkName ∉ comps) (h : resolve t follow k cur comps = .ok q) : linkName ∉ q := by
  induction k generalizing cur comps q with
  | zero =>
    refine walk_free hf ?_ hcur hcomps h
    intro base parts r _ _ hr
    cases hr
  | succ k ih =>
    refine walk_free hf ?_ hcur hcomps h
    intro base parts r hbase hparts hr
    exact ih hbase hparts hr

theorem locate_free {follow : Bool} (hf : Free t) (hp : linkName ∉ p)
    (h : locate t follow p = .ok q) : linkName ∉ q := resolve_free hf (by simp) hp h

theorem Free.put {node : Node γ} (hf : Free t) (hq : linkName ∉ q)
    (hnode : ∀ a target, node = .link a target → linkName ∉ linkParts target) :
    Free (t.put q node) := by
  refine ⟨fun r hr => ?_, fun r a target hr => ?_⟩
  · have hrq : r ≠ q := fun h => hq (h ▸ hr)
    simpa [hrq] using hf.objects r hr
  · rw [Tree.get_put] at hr
    split_ifs at hr
    · exact hnode a target (Option.some.inj hr)
    · exact hf.targets r a target hr

theorem Free.drop (hf : Free t) (q : Path) : Free (t.drop q) := by
  refine ⟨fun r hr => ?_, fun r a target hr => ?_⟩
  · rw [Tree.get_drop]
    split_ifs
    · rfl
    · exact hf.objects r hr
  · rw [Tree.get_drop] at hr
    split_ifs at hr
    exact hf.targets r a target hr

theorem free_callsKeep : CallsKeep host (linkName ∉ ·) (fun target => linkName ∉ linkParts target)
    (Free (γ := γ)) := by
  refine ⟨?_, ?_, ?_, ?_, ?_, ?_, ?_⟩
  · intro p mode s u hp hs h
    obtain ⟨q, node, a, hq, hget, rfl⟩ := chmod_form h
    refine hs.put (locate_free hs hp hq) fun b target hnode => ?_
    obtain ⟨a', rfl⟩ := setAttrs_target hnode
    exact hs.targets q a' target hget
  · intro p uid gid s u hp hs h
    obtain ⟨q, node, a, hq, hget, rfl⟩ := chown_form h
    refine hs.put (locate_free hs hp hq) fun b target hnode => ?_
    obtain ⟨a', rfl⟩ := setAttrs_target hnode
    exact hs.targets q a' target hget
  · intro p s u hs h
    obtain ⟨q, node, -, -, -, rfl⟩ := unlink_form h
    exact hs.drop q
  · intro target p s u ht hp hs h
    obtain ⟨q, a, hq, -, rfl⟩ := symlink_form h
    refine hs.put (locate_free hs hp hq) fun b target' hnode => ?_
    obtain ⟨-, rfl⟩ : a = b ∧ target = target' := by simpa using hnode
    exact ht
  · intro p s u hp hs h
    obtain ⟨q, a, hq, -, rfl⟩ := mkdir_form h
    exact hs.put (locate_free hs hp hq) fun b target hnode => nomatch hnode
  · intro p c s u hp hs h
    rcases writeFile_form h with rfl | ⟨q, a, hq, -, rfl⟩
    · exact hs
    · exact hs.put (locate_free hs hp hq) fun b target hnode => nomatch hnode
  · intro src dst s u _ hdst hs h
    obtain ⟨r, d, node, -, hd, hget, -, -, rfl⟩ := rename_form h
    refine (hs.drop r).put (locate_free hs hdst hd) fun a target hnode => ?_
    exact hs.targets r a target (hnode ▸ hget)

/-! ## The whole call -/

/-- The link's name occurs in nothing that the apply works with: not in the path of the job, not
in the tree without the link, and not in the manifest. -/
structure NamesElsewhere (codec : Codec γ) (job : Path) (t : PosixTree.Tree γ) : Prop where
  jobPath : linkName ∉ job
  free : Free (t.drop systemUpdateLink)
  manifest : ∀ m entries,
    readFile (t.drop systemUpdateLink) (job ++ ["manifest.json"]) = .ok m →
      codec.manifest m = some entries → ∀ e ∈ entries,
        EntryAllowed (linkName ∉ ·) (fun target => linkName ∉ linkParts target) e

/-- What the call does once the link is gone. -/
def work (host : Host) (job : Path) (codec : Codec γ) (removeExtras : Bool) :
    Prog (PosixTree.Tree γ) Raised Tally := do
  let m ← (query (readFile · (job ++ ["manifest.json"]))).mapError Raised.os
  match codec.manifest m with
  | none => raise .badManifest
  | some entries =>
    let out ← restoreTree host job entries removeExtras
    (step (writeFile host (job ++ ["result.json"]) (codec.result out))).mapError Raised.os
    return out

theorem sysibleNew_free (h : linkName ∉ p) : linkName ∉ sysibleNew p := by
  intro hmem
  rcases List.mem_append.mp hmem with hmem | hmem
  · exact h ((List.dropLast_sublist p).subset hmem)
  · have heq : linkName = p.getLastD "" ++ ".sysible-new" := List.mem_singleton.mp hmem
    have hlast := congrArg (fun n : Name => n.toList.getLast?) heq
    simp [linkName] at hlast

theorem free_pathsAllowed (hjob : linkName ∉ job) : PathsAllowed job (linkName ∉ ·) := by
  refine ⟨?_, fun p => sysibleNew_free, ?_, ?_, ?_⟩
  · exact fun p hp hmem => hp ((List.dropLast_sublist p).subset hmem)
  · intro p hp
    have hdisplaced : linkName ≠ "displaced" := by decide
    simp [hjob, hp, hdisplaced]
  · intro p q hp hq
    have hlast : linkName ≠ q.getLast?.getD "" := by
      intro h
      cases hl : q.getLast? with
      | none =>
        rw [hl] at h
        exact absurd h (by decide)
      | some x =>
        rw [hl] at h
        exact hq (h ▸ List.mem_of_getLast? hl)
    simp [hp, hlast]
  · have hresult : linkName ≠ "result.json" := by decide
    simp [hjob, hresult]

/-- Extras are objects in captured directories. -/
theorem extras_free {entries : List Entry} (hf : Free t)
    (hentries : ∀ e ∈ entries, linkName ∉ e.path) (h : p ∈ extrasUnder t entries) :
    linkName ∉ p := by
  obtain ⟨dir, hdir, hp⟩ := List.mem_flatMap.mp h
  obtain ⟨e, he, rfl⟩ := List.mem_map.mp (List.mem_dedup.mp hdir)
  have hfree := hentries e (List.mem_of_mem_filter he)
  split at hp
  · cases hp
  · next found hlist =>
    obtain ⟨hmem, -⟩ := List.mem_filter.mp hp
    obtain ⟨name, hname, rfl⟩ := List.mem_map.mp hmem
    obtain ⟨q, hq, hlist⟩ := EarlyExit.bind_ok hlist
    have hnames : name ∈ names t q := by
      split at hlist
      · exact (Except.ok.inj hlist) ▸ hname
      all_goals cases hlist
    obtain ⟨r, hr, hchild⟩ := List.mem_filterMap.mp hnames
    have hthere := Tree.mem_keys.mp hr
    have hin : name ∈ r := by
      unfold childName at hchild
      split_ifs at hchild
      exact List.mem_of_getLast? hchild
    intro hlink
    rcases List.mem_append.mp hlink with hlink | hlink
    · exact hfree hlink
    · obtain rfl := List.mem_singleton.mp hlink
      exact hthere (hf.objects r hin)

theorem work_free (hn : NamesElsewhere codec job t) :
    KeepsFrom Free (work host job codec removeExtras) (t.drop systemUpdateLink) := by
  refine (keeps_query _ _ hn.free).bind fun m hm => ?_
  have hread : readFile (t.drop systemUpdateLink) (job ++ ["manifest.json"]) = .ok m := by
    cases hr : readFile (t.drop systemUpdateLink) (job ++ ["manifest.json"]) with
    | ok c =>
      simp only [Prog.run, query, hr, Except.mapError, Except.ok.injEq] at hm
      rw [hm]
    | error e => simp [Prog.run, query, hr, Except.mapError] at hm
  cases hentries : codec.manifest m with
  | none => exact keeps_raise _ _ hn.free
  | some entries =>
    have hallowed := hn.manifest m entries hread hentries
    have hpaths := free_pathsAllowed hn.jobPath
    have htree : Keeps Free (restoreTree host job entries removeExtras :
        Prog (PosixTree.Tree γ) Raised Tally) :=
      keeps_restoreTree free_callsKeep hpaths hallowed fun s hs p hp =>
        extras_free hs (fun e he => (hallowed e he).1) hp
    refine (htree.bind fun out => Keeps.bind (keeps_step fun s u hs h => ?_).mapError fun _ =>
      keeps_pure out) _ hn.free
    exact free_callsKeep.writeFile _ _ s u hpaths.result hs h

theorem locate_systemUpdateLink {follow : Bool} (hl : ∀ a target,
    t.get systemUpdateLink = some (.link a target) → follow = false) :
    locate t follow systemUpdateLink = .ok systemUpdateLink := by
  have hlast : resolve t follow maxLinks [] [linkName] = .ok ([] ++ [linkName]) :=
    resolve_last linkName_valid hl
  exact hlast

theorem armed_iff : Armed t = true ↔ t.get systemUpdateLink ≠ none := by
  have hl : locate t false systemUpdateLink = .ok systemUpdateLink :=
    locate_systemUpdateLink fun _ _ _ => rfl
  cases hget : t.get systemUpdateLink with
  | none =>
    have hs : locate t true systemUpdateLink = .ok systemUpdateLink :=
      locate_systemUpdateLink fun a target h => by rw [hget] at h; cases h
    simp [Armed, islink, lstat, pathExists, stat, nodeAt, hl, hs, hget, bind, Except.bind,
      Except.isOk, Except.toBool]
  | some node =>
    cases node with
    | link a target => simp [Armed, islink, lstat, nodeAt, hl, hget, bind, Except.bind, Node.isLink]
    | _ =>
      have hs : locate t true systemUpdateLink = .ok systemUpdateLink :=
        locate_systemUpdateLink fun a target h => by rw [hget] at h; cases h
      simp [Armed, pathExists, stat, nodeAt, hs, hget, bind, Except.bind, Except.isOk,
        Except.toBool]

theorem Free.disarmed (hf : Free t) : Armed t = false := by
  have hnone := hf.objects systemUpdateLink (by simp [systemUpdateLink, linkName])
  by_contra h
  exact armed_iff.mp (by simpa using h) hnone

theorem drop_absent (h : t.get q = none) : t.drop q = t := by
  have hkey : q ∉ t.nodes := fun hmem => Tree.mem_keys.mp hmem h
  cases t with
  | mk nodes =>
    refine congrArg Tree.mk (AList.ext ?_)
    exact List.kerase_of_notMem_keys hkey

theorem disarm_unarmed (h : Armed t = false) :
    (disarm systemUpdateLink : FsM γ Unit).run t = ⟨[], t, .ok ()⟩ := by
  have hask : (islink t systemUpdateLink || pathExists t systemUpdateLink) = false := h
  simp only [disarm, Prog.run, Bind.bind, ask, hask]
  rfl

theorem disarm_armed (h : Armed t = true) (hdir : ¬ DirAt t systemUpdateLink) :
    (disarm systemUpdateLink : FsM γ Unit).run t = ⟨[t], t.drop systemUpdateLink, .ok ()⟩ := by
  have hask : (islink t systemUpdateLink || pathExists t systemUpdateLink) = true := h
  have hl : locate t false systemUpdateLink = .ok systemUpdateLink :=
    locate_systemUpdateLink fun _ _ _ => rfl
  have hunlink : unlink systemUpdateLink t = .ok (t.drop systemUpdateLink) := by
    obtain ⟨node, hget⟩ := Option.ne_none_iff_exists'.mp (armed_iff.mp h)
    simp only [unlink, hl, bind, Except.bind, hget]
    split
    · next a l heq =>
      obtain rfl := Option.some.inj heq
      exact absurd ⟨a, l, hget⟩ hdir
    · rfl
    · next heq => cases heq
  simp only [disarm, Prog.run, Bind.bind, ask, hask, if_true, step, hunlink]
  rfl

theorem applyStaged_unready (h : StagedReady job t = false) :
    (applyStaged host job codec systemUpdateLink removeExtras).run t =
      ⟨[], t, .error .notStaged⟩ := by
  have hask : pathExists t (job ++ ["READY"]) = false := h
  simp only [applyStaged, Prog.run, Bind.bind, forbid, query, hask]
  rfl

theorem applyStaged_ready {past : List (PosixTree.Tree γ)} (h : StagedReady job t = true)
    (hd : (disarm systemUpdateLink : FsM γ Unit).run t = ⟨past, u, .ok ()⟩) :
    (applyStaged host job codec systemUpdateLink removeExtras).run t =
      ⟨past ++ ((work host job codec removeExtras).run u).past,
        ((work host job codec removeExtras).run u).final,
        ((work host job codec removeExtras).run u).result⟩ := by
  have hask : pathExists t (job ++ ["READY"]) = true := h
  have hdisarm : (disarm systemUpdateLink : FsM γ Unit) t = ⟨past, u, .ok ()⟩ := hd
  have hprog : applyStaged host job codec systemUpdateLink removeExtras =
      (forbid (!pathExists · (job ++ ["READY"])) .notStaged >>= fun _ =>
        (attempt (disarm systemUpdateLink) : Prog (PosixTree.Tree γ) Raised _) >>= fun _ =>
          work host job codec removeExtras) := rfl
  rw [hprog]
  simp only [Prog.run, Bind.bind, forbid, query, hask, attempt, hdisarm]
  rfl

theorem keeps_link_dir :
    Keeps (fun u => DirAt u systemUpdateLink)
      (applyStaged host job codec systemUpdateLink removeExtras) := by
  have hc := @dirs_callsKeep γ host systemUpdateLink
  have hp : PathsAllowed job fun _ => True :=
    ⟨fun _ _ => trivial, fun _ _ => trivial, fun _ _ => trivial, fun _ _ _ _ => trivial, trivial⟩
  have hdisarm : Keeps (fun u => DirAt u systemUpdateLink)
      (disarm systemUpdateLink : FsM γ Unit) := by
    refine (keeps_ask _).bind fun b => ?_
    cases b with
    | true => exact keeps_step fun s u hs => hc.unlink _ s u hs
    | false => exact keeps_pure ()
  refine (keeps_forbid _ _).bind fun _ => hdisarm.attempt.bind fun _ =>
    (keeps_query _).mapError.bind fun m => ?_
  split
  · exact keeps_raise _
  · next entries _ =>
    refine Keeps.bind (keeps_restoreTree hc hp (fun e _ => ⟨trivial, fun _ _ => trivial⟩)
      fun _ _ _ _ => trivial) fun out => ?_
    exact (keeps_step fun s u hs => hc.writeFile _ _ s u trivial hs).mapError.bind fun _ =>
      keeps_pure out

theorem bootSafe_of_states {r : Run (PosixTree.Tree γ) Raised Tally}
    (hpast : ∀ u ∈ r.past, u = t ∨ Armed u = false) (hfinal : Armed r.final = false) :
    BootSafe t r := by
  refine ⟨fun before u after hsplit hne => ⟨u, by simp, ?_⟩, hfinal⟩
  have hu : u ∈ r.past ++ [r.final] := by simp [hsplit]
  rcases List.mem_append.mp hu with hu | hu
  · exact (hpast u hu).resolve_left hne
  · obtain rfl := List.mem_singleton.mp hu
    exact hfinal

def armedTree : PosixTree.Tree Unit :=
  ((⟨∅⟩ : PosixTree.Tree Unit).put [] (.dir ⟨0o755, 0, 0⟩ true)).put systemUpdateLink
    (.link ⟨0o777, 0, 0⟩ "/var/lib/sysible/flashback/stage/7")

def noManifest : Codec Unit := ⟨fun _ => none, fun _ => ()⟩

end FlashbackRestore
