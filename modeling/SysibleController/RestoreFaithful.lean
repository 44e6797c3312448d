import SysibleController.RestoreDisplace

/-! What a successful apply has restored, on any machine: each entry of the manifest, as far as
its mode and owner can be put back. -/
namespace FlashbackRestore

open AtomicSteps Prog EarlyExit PosixTree RestorePoint

variable {γ : Type} {cfg : RestorePoint.Settings γ} {codec : Codec γ} {L u v w : PosixTree.Tree γ}
  {M : List Entry} {job s : Path} {e : Entry} {host : Host} {gone : List Path}

/-! ## One entry -/

theorem dirEntryAt_sort (hM : Manifest M) (p : Path) :
    dirEntryAt (sortEntries M) p = dirEntryAt M p := by
  cases hfind : dirEntryAt M p with
  | some e =>
    obtain ⟨he, hd, rfl⟩ := mem_of_dirEntryAt hfind
    exact dirEntryAt_eq (fun e' he' hp => hM.unique e' (mem_sortEntries.mp he') e he hp)
      (mem_sortEntries.mpr he) hd
  | none =>
    by_contra hne
    obtain ⟨e, he⟩ := Option.ne_none_iff_exists'.mp hne
    obtain ⟨hmem, hd, rfl⟩ := mem_of_dirEntryAt he
    rw [dirEntryAt_eq (fun e' he' hp => hM.unique e' he' e (mem_sortEntries.mp hmem) hp)
      (mem_sortEntries.mp hmem) hd] at hfind
    cases hfind

theorem During.lstat_entry (h : During cfg host L M job (sortEntries M) [] u) (hM : Manifest M)
    (he : e ∈ M) (hc : DirClosed w) (hdirs : ∀ q, DirAt u q → DirAt w q) {node : Node γ}
    (hget : w.get e.path = some node) : lstat w e.path = .ok node := by
  rcases List.eq_nil_or_concat' e.path with hnil | ⟨d, n, hpath⟩
  · rw [hnil] at hget ⊢
    unfold lstat nodeAt locate
    simp [bind, Except.bind, hget]
  have hput := h.objects e (mem_sortEntries.mpr he)
  have hnames := hM.names e he
  have hd : DirAt u d := by
    cases hdir : e.isDir with
    | true => exact h.closed.parent d n (hpath ▸ (putBack_dir hdir).mp hput)
    | false =>
      obtain ⟨d', n', p, hpath', hp, hpd, rfl⟩ := hM.parent e he hdir
      obtain ⟨rfl, -⟩ := List.append_inj' (hpath.symm.trans hpath') rfl
      exact (putBack_dir hpd).mp (h.objects p (mem_sortEntries.mpr hp))
  rw [hpath] at hnames hget ⊢
  rw [lstat_child hc (hc.leads (fun m hm => hnames m (by simp [hm])) (hdirs d hd))
    (hnames n (by simp)), hget]

/-- Of the state after the entries: what each entry is restored to. -/
theorem During.restored_iff (h : During cfg host L M job (sortEntries M) [] u) (hM : Manifest M)
    (he : e ∈ M) (hc : DirClosed w) (hdirs : ∀ q, DirAt u q → DirAt w q)
    (hget : w.get e.path = u.get e.path) : Restored cfg w e ↔
      (e.isDir = true → settled host L M e.path.reverse = ⟨e.mode, e.uid, e.gid⟩) ∧
      ∀ size sha, e.payload = .file size sha → e.mode ≠ 0 := by
  have hput := h.objects e (mem_sortEntries.mpr he)
  have hlstat : ∀ node, w.get e.path = some node → lstat w e.path = .ok node :=
    fun node => h.lstat_entry hM he hc hdirs
  unfold PutBack at hput
  cases hp : e.payload with
  | dir =>
    simp only [hp] at hput
    obtain ⟨a, l, hu⟩ := hput
    have hsettled : a = settled host L M e.path.reverse := by
      rw [h.attrs e.path a l hu]
      exact settled_congr fun s _ _ => dirEntryAt_sort hM s
    unfold Restored
    rw [hlstat _ (hget.trans hu)]
    simp [hp, Entry.isDir, hsettled]
  | link target =>
    simp only [hp] at hput
    unfold Restored
    rw [hlstat _ (hget.trans hput)]
    simp [hp, Entry.isDir, (hM.links e he target hp).2]
  | file size sha =>
    simp only [hp] at hput
    obtain ⟨body, hu, hsha⟩ := hput
    unfold Restored
    rw [hlstat _ (hget.trans hu)]
    simp [hp, Entry.isDir, hsha, orDefault_eq]

/-! ## The whole apply -/

/-- Every entry is restored exactly if the modes and owners can be put back. -/
theorem Displacing.restored_iff (h : Displacing M job u gone v)
    (hu : During cfg host L M job (sortEntries M) [] u) (hM : Manifest M) (hc : DirClosed w)
    (hdirs : ∀ q, DirAt v q → DirAt w q) (hw : ∀ e ∈ M, w.get e.path = v.get e.path) :
    (∀ e ∈ M, Restored cfg w e) ↔ Restorable L M := by
  have heach : ∀ e ∈ M, Restored cfg w e ↔
      (e.isDir = true → settled host L M e.path.reverse = ⟨e.mode, e.uid, e.gid⟩) ∧
      ∀ size sha, e.payload = .file size sha → e.mode ≠ 0 := fun e he =>
    hu.restored_iff hM he hc (fun q hq => hdirs q (h.dirs q hq)) ((hw e he).trans (h.kept e he))
  constructor
  · intro hall
    have hfiles : ∀ e ∈ M, ∀ size sha, e.payload = .file size sha → e.mode ≠ 0 :=
      fun e he => ((heach e he).mp (hall e he)).2
    have hsettled : ∀ e ∈ M, e.isDir = true →
        settled host L M e.path.reverse = ⟨e.mode, e.uid, e.gid⟩ :=
      fun e he => ((heach e he).mp (hall e he)).1
    exact (restorable_iff_settled hM hfiles).mpr hsettled
  · intro hr e he
    exact (heach e he).mpr ⟨(restorable_iff_settled hM hr.files).mp hr e he, hr.files e he⟩

/-- The result goes into the job's directory. -/
theorem Displacing.sat_result {out : Tally} (h : Displacing M job u gone v)
    (hu : During cfg host L M job (sortEntries M) [] u) (hM : Manifest M)
    (hfree : Unobstructed L M job) (hprep : Prepared cfg codec L M job) :
    Sat (step (writeFile host (job ++ ["result.json"]) (codec.result out))) v
      (fun _ w => (∀ e ∈ M, Restored cfg w e) ↔ Restorable L M) fun _ _ => True := by
  have hnone : v.get (job ++ ["result.json"]) = none := by
    rw [h.result, hu.job _ (List.prefix_append job _)]
    by_contra hne
    have := hprep.only "result.json" hne
    simp at this
  have hlead : Leads v job job := h.closed.leads (hprep.wf.plain hprep.dir).names
    (h.dirs job (hu.kept job hprep.dir))
  rw [sat_step, writeFile_new h.closed hlead (by decide) hnone, ends_ok]
  have hnd : ¬ DirAt v (job ++ ["result.json"]) := by
    rintro ⟨a, l, hget⟩
    exact nomatch hnone.symm.trans hget
  have hmoved : Moved v (v.put (job ++ ["result.json"])
      (.file (newFile host (attrsOf v job)) (codec.result out) true))
      (job ++ ["result.json"]) (job ++ ["result.json"]) := (Moved.refl hnd hnd).put rfl
  refine h.restored_iff hu hM (hmoved.dirClosed hnd hnd h.closed)
    (fun q => (hmoved.dirAt_iff hnd hnd).mpr) ?_
  intro e he
  have hne : e.path ≠ job ++ ["result.json"] := fun heq =>
    hfree.apart e he (heq ▸ List.prefix_append job _)
  exact hmoved.others _ hne hne

theorem During.sat_restoreTree {δ : Type} {F : δ → PosixTree.Tree γ → Prop} {removeExtras : Bool}
    (h : During cfg host L M job [] (sortEntries M) u) (hM : Manifest M)
    (hfree : Unobstructed L M job) (hprep : Prepared cfg codec L M job) :
    Sat (restoreTree host job M removeExtras) u (fun out v => out.errors = [] →
      ∃ u gone, During cfg host L M job (sortEntries M) [] u ∧ Displacing M job u gone v) F := by
  refine (h.sat_entries hM hfree hprep).bind fun out v hv => ?_
  cases removeExtras with
  | false => exact fun hout => ⟨v, [], hv hout, (hv hout).displacing hprep⟩
  | true =>
    simp only [if_true]
    rw [sat_bind, sat_ask]
    by_cases hout : out.errors = []
    · refine ((hv hout).sat_extras hM hfree hprep _ (List.perm_insertionSort _ _)).mono ?_
        fun _ _ h => h
      exact fun _ w hw _ => ⟨v, _, hv hout, hw⟩
    · exact (sat_errors_grow _ out v).mono (fun _ _ hgrow hnil => absurd (hgrow hnil) hout)
        fun _ _ h => h

def plainDir : Node String := .dir ⟨0o755, 0, 0⟩ true

def sealedMachine : PosixTree.Tree String :=
  ((((⟨∅⟩ : PosixTree.Tree String).put [] plainDir).put ["etc"] plainDir).put
    ["etc", "seal"] (.file ⟨0, 0, 0⟩ "wax" true))

def sealedJob : Path := ["var", "7"]

def liveMachine : PosixTree.Tree String :=
  ((((⟨∅⟩ : PosixTree.Tree String).put [] plainDir).put ["etc"] plainDir).put
    ["etc", "seal"] (.file ⟨0o600, 0, 0⟩ "broken" true)).put ["var"] plainDir |>.put
    sealedJob plainDir |>.put (sealedJob ++ ["tree"]) plainDir |>.put
    (sealedJob ++ ["tree", "etc"]) plainDir |>.put
    (sealedJob ++ ["tree", "etc", "seal"]) (.file ⟨0o644, 0, 0⟩ "wax" true) |>.put
    (sealedJob ++ ["manifest.json"]) (.file ⟨0o600, 0, 0⟩ "entries" true) |>.put
    (sealedJob ++ ["READY"]) (.file ⟨0o600, 0, 0⟩ "staged\n" true) |>.put
    systemUpdateLink (.link ⟨0o777, 0, 0⟩ "/var/7")

def sealedSettings : RestorePoint.Settings String := ⟨[["proc"]], 1000, String.length, id⟩

def sealedManifest : List Entry := rpWalk sealedSettings sealedMachine [["etc"]]

def sealedCodec : Codec String := ⟨fun _ => some sealedManifest, fun _ => "result"⟩

def oneDevice : Host := ⟨0o022, fun _ => 0⟩

theorem sealedMachine_wf : WellFormed sealedMachine := wellFormed_of_check (by decide)

theorem mem_sealedManifest (he : e ∈ sealedManifest) :
    e = ⟨["etc"], 0o755, 0, 0, .dir⟩ ∨ e = ⟨["etc", "seal"], 0, 0, 0, .file 3 "wax"⟩ := by
  revert e
  decide

theorem sealed_prepared : Prepared sealedSettings sealedCodec liveMachine sealedManifest
    sealedJob where
  wf := wellFormed_of_check (by decide)
  dir := ⟨⟨0o755, 0, 0⟩, true, by decide⟩
  nonroot := by decide
  manifest := ⟨⟨0o600, 0, 0⟩, "entries", by decide, rfl⟩
  tree := by
    intro e he size sha hp
    rcases mem_sealedManifest he with rfl | rfl
    · cases hp
    · obtain ⟨rfl, rfl⟩ := Payload.file.inj hp
      exact ⟨⟨0o644, 0, 0⟩, "wax", by decide, rfl⟩
  only := by
    intro n hn
    have hall : ∀ n ∈ PosixTree.names liveMachine sealedJob,
        n = "READY" ∨ n = "manifest.json" ∨ n = "tree" := by decide
    exact hall n (mem_names.mpr hn)

theorem sealed_unobstructed : Unobstructed liveMachine sealedManifest sealedJob where
  links := by
    intro e he hd s hs a target
    rcases mem_sealedManifest he with rfl | rfl
    · rcases List.prefix_concat_iff.mp (show s <+: [] ++ ["etc"] from hs) with rfl | hs
      · intro hget
        exact nomatch hget.symm.trans
          (show liveMachine.get ["etc"] = some plainDir by decide)
      · obtain rfl := List.prefix_nil.mp hs
        intro hget
        exact nomatch hget.symm.trans (show liveMachine.get [] = some plainDir by decide)
    · cases hd
  temporary := by
    intro e he size sha hp a
    rcases mem_sealedManifest he with rfl | rfl
    · cases hp
    · have hnone : liveMachine.get (sysibleNew ["etc", "seal"]) = none := by decide
      simp [hnone]
  apart := by
    intro e he
    rcases mem_sealedManifest he with rfl | rfl <;> decide

end FlashbackRestore
