import SysibleController.RestoreBackup

/-! What a restore leaves of the files when it is refused, and where it writes at all. -/
namespace RestoreBackup

open PosixTree AtomicSteps Prog EarlyExit JsonValue

variable {γ : Type}

/-- The regular file at a place, with all that is modelled of it. -/
def fileAt (t : PosixTree.Tree γ) (p : Path) : Option (Attrs × γ × Bool) :=
  match t.get p with
  | some (.file a c r) => some (a, c, r)
  | _ => none

/-- The links are as they were, and so are the files except in some places. -/
structure Same (R : Path → Prop) (t u : PosixTree.Tree γ) : Prop where
  links : linkTarget u = linkTarget t
  files : ∀ p, ¬ R p → fileAt u p = fileAt t p

/-- A place within one of the roots. -/
def InRoots (tools : Tools γ) (roots : Roots) (t : PosixTree.Tree γ) (p : Path) : Prop :=
  ∃ q ∈ [roots.db, roots.data, roots.cert, roots.run], ∃ root,
    realpath tools.depth t q = some root ∧ root <+: p

/-- A refused restore has changed no file, and no restore changes one outside of the roots; the
staging directory is left aside. -/
structure Harmless (tools : Tools γ) (roots : Roots) (staging : Path) (t : PosixTree.Tree γ)
    (r : Run (PosixTree.Tree γ) Stop Json) : Prop where
  refused : ∀ e, r.result = .error e → e.isRefusal = true → ∀ p, ¬ staging <+: p →
    fileAt r.final p = fileAt t p
  outside : ∀ p, ¬ InRoots tools roots t p → ¬ staging <+: p → fileAt r.final p = fileAt t p

/-- Extracting the members that were let through, and asking SQLite, touch the staging directory
alone and make no links. -/
structure Confined (tools : Tools γ) (archive : Archive γ) (staging : Path) (t : PosixTree.Tree γ) :
    Prop where
  depth : maxLinks ≤ tools.depth
  extractall : KeepsFrom (Same (staging <+: ·) t) (archive.extractall staging) t
  integrity : ∀ p, Keeps (Same (staging <+: ·) t) (tools.integrity p)

/-- No entry is refused, and no mode is anything but a text. -/
structure Admissible (tools : Tools γ) (roots : Roots) (t : PosixTree.Tree γ)
    (components : List (String × Json)) : Prop where
  entries : ∀ comp, ∃ es, entriesOf components comp = .ok es
  placed : ∀ comp es root, entriesOf components comp = .ok es →
    resolvePath tools t (roots.of comp) = .ok root → ∀ e ∈ es, ∀ why,
      place tools comp root e t = .error why → why.isRefusal = false
  modes : ∀ comp es, entriesOf components comp = .ok es → ∀ e ∈ es, ∃ m, modeOf tools e = .ok m

/-- What is copied to a directory, and so to the name of the source in it, stays in the roots. -/
structure Contained (tools : Tools γ) (roots : Roots) (t : PosixTree.Tree γ)
    (components : List (String × Json)) : Prop where
  db : truthy (getOr "db" .null components) = true → ∀ p,
    realpath tools.depth t (roots.db ++ ["sysible.db"]) = some p → InRoots tools roots t p
  files : ∀ comp es root, entriesOf components comp = .ok es →
    resolvePath tools t (roots.of comp) = .ok root → ∀ e ∈ es, ∀ rel dst,
      place tools comp root e t = .ok (rel, dst) → ∀ p,
        realpath tools.depth t (dst ++ [(comp.name :: parts rel).getLastD ""]) = some p →
          InRoots tools roots t p

/-- The copies stop before the first of them. -/
def StopsFirst (tools : Tools γ) (roots : Roots) (t : PosixTree.Tree γ)
    (components : List (String × Json)) : List Comp → Prop
  | [] => False
  | comp :: rest =>
    match resolvePath tools t (roots.of comp), entriesOf components comp with
    | .error _, _ => True
    | .ok _, .error _ => True
    | .ok _, .ok [] => StopsFirst tools roots t components rest
    | .ok root, .ok (e :: _) => ∃ why, place tools comp root e t = .error why

/-- What the checks ahead of the first copy let through is sound as a whole, or stops at once. -/
def Sound (tools : Tools γ) (roots : Roots) (t : PosixTree.Tree γ) :
    Except Stop (Json × List (String × Json)) → Prop
  | .error _ => True
  | .ok (_, components) =>
    truthy (getOr "db" .null components) = false ∧
        StopsFirst tools roots t components [.data, .cert, .run] ∨
      Admissible tools roots t components ∧ Contained tools roots t components

variable {tools : Tools γ} {roots : Roots} {t u v : PosixTree.Tree γ} {R : Path → Prop}
  {p q dst src : Path} {host : Host} {staging : Path} {components : List (String × Json)}

theorem Same.refl : Same R t t := ⟨rfl, fun _ _ => rfl⟩

theorem Same.trans (h : Same R t u) (k : Same R u v) : Same R t v :=
  ⟨k.links.trans h.links, fun p hp => (k.files p hp).trans (h.files p hp)⟩

theorem Same.mono {R' : Path → Prop} (h : Same R t u) (hR : ∀ p, R p → R' p) : Same R' t u :=
  ⟨h.links, fun p hp => h.files p fun hr => hp (hR p hr)⟩

/-- A new node that is as good a link as the old one, and no other file or one at a place of `R`. -/
theorem same_put {node : Node γ} (hlink : linkTarget (u.put q node) q = linkTarget u q)
    (hfile : R q ∨ fileAt (u.put q node) q = fileAt u q) : Same R u (u.put q node) := by
  refine ⟨funext fun p => ?_, fun p hp => ?_⟩
  · by_cases hpq : p = q
    · rw [hpq]
      exact hlink
    · simp [linkTarget, hpq]
  · by_cases hpq : p = q
    · subst hpq
      exact hfile.resolve_left hp
    · simp [fileAt, hpq]

theorem keeps_mkdir : Keeps (Same R t) (step (mkdir host p) : FsM γ Unit) := by
  refine keeps_step fun u v hu hv => hu.trans ?_
  obtain ⟨q, -, hv⟩ := bind_ok hv
  cases hget : u.get q with
  | some node => simp [hget] at hv
  | none =>
    simp only [hget, Except.ok.injEq] at hv
    subst hv
    exact same_put (by simp [linkTarget, hget]) (.inr (by simp [fileAt, hget]))

theorem keeps_writeFile {c : γ}
    (hloc : ∀ u q, Same R t u → locate u true p = .ok q → R q) :
    Keeps (Same R t) (step (writeFile host p c) : FsM γ Unit) := by
  refine keeps_step fun u v hu hv => hu.trans ?_
  obtain ⟨q, hq, hv⟩ := bind_ok hv
  have hR := hloc u q hu hq
  cases hget : u.get q with
  | none =>
    simp only [hget, Except.ok.injEq] at hv
    subst hv
    exact same_put (by simp [linkTarget, hget]) (.inl hR)
  | some node =>
    cases node with
    | file a b r =>
      simp only [hget, Except.ok.injEq] at hv
      subst hv
      exact same_put (by simp [linkTarget, hget]) (.inl hR)
    | special a kind =>
      cases kind with
      | device =>
        simp only [hget, Except.ok.injEq] at hv
        subst hv
        exact .refl
      | fifo | socket => simp [hget] at hv
    | dir | link => simp [hget] at hv

theorem keeps_chmod {mode : ℕ} (hloc : ∀ u q, Same R t u → locate u true p = .ok q → R q) :
    Keeps (Same R t) (step (chmod p mode) : FsM γ Unit) := by
  refine keeps_step fun u v hu hv => hu.trans ?_
  obtain ⟨q, hq, hv⟩ := bind_ok hv
  have hR := hloc u q hu hq
  cases hget : u.get q with
  | none => simp [hget] at hv
  | some node =>
    simp only [hget, Except.ok.injEq] at hv
    subst hv
    refine same_put ?_ (.inl hR)
    cases node <;> simp [linkTarget, hget, Node.setAttrs]

theorem keeps_copy2 (hloc : ∀ p, p = dst ∨ p = dst ++ [src.getLastD ""] → ∀ u q, Same R t u →
    locate u true p = .ok q → R q) : Keeps (Same R t) (copy2 host src dst : FsM γ Unit) := by
  refine (keeps_ask _).bind fun b => ?_
  have hcopy : ∀ p, p = dst ∨ p = dst ++ [src.getLastD ""] →
      Keeps (Same R t) (copyfile host src p >>= fun _ => query (stat · src) >>= fun node =>
        step (chmod p node.attrs.mode) : FsM γ Unit) := by
    intro p hp
    have hfile : Keeps (Same R t) (copyfile host src p : FsM γ Unit) :=
      (keeps_forbid _ _).bind fun _ => (keeps_forbid _ _).bind fun _ => (keeps_query _).bind
        fun _ => keeps_writeFile (hloc p hp)
    exact hfile.bind fun _ => (keeps_query _).bind fun _ => keeps_chmod (hloc p hp)
  cases b with
  | true => exact hcopy _ (.inr rfl)
  | false => exact hcopy _ (.inl rfl)

/-! ### Programs that are not refused -/

/-- Within `I` the program ends within `I`, and is not refused. -/
def Fine {α : Type} (I : PosixTree.Tree γ → Prop) (m : BackupM γ α) : Prop :=
  ∀ u, I u → Sat m u (fun _ => I) fun e v => I v ∧ e.isRefusal = false

variable {I : PosixTree.Tree γ → Prop} {α β : Type}

theorem sat_of_keeps {ε : Type} {m : Prog (PosixTree.Tree γ) ε α} (h : Keeps I m) (hu : I u) :
    Sat m u (fun _ => I) fun _ => I := by
  have hfinal := (h u hu).2
  unfold Sat
  cases (m.run u).result <;> exact hfinal

theorem fine_failed {m : FsM γ α} (h : Keeps I m) : Fine I (m.mapError .failed : BackupM γ α) := by
  intro u hu
  rw [sat_mapError]
  exact (sat_of_keeps h hu).mono (fun _ _ hv => hv) fun _ _ hv => ⟨hv, rfl⟩

theorem Fine.bind {m : BackupM γ α} {f : α → BackupM γ β} (h : Fine I m) (hf : ∀ a, Fine I (f a)) :
    Fine I (m >>= f) := fun u hu => (h u hu).bind fun a v hv => hf a v hv

theorem fine_pure (a : α) : Fine I (pure a : BackupM γ α) := fun _ hu => hu

theorem fine_foldlM {ι : Type} {f : Unit → ι → BackupM γ Unit} {l : List ι}
    (h : ∀ x ∈ l, Fine I (f () x)) : Fine I (l.foldlM f ()) := by
  induction l with
  | nil => exact fine_pure ()
  | cons x l ih =>
    rw [List.foldlM_cons]
    exact (h x List.mem_cons_self).bind fun _ => ih fun y hy => h y (List.mem_cons_of_mem x hy)

theorem fine_ignored {m : FsM γ Unit} (h : Keeps I m) :
    Fine I (do let _ ← attempt m; pure () : BackupM γ Unit) := by
  intro u hu
  rw [sat_bind, sat_attempt]
  exact (sat_of_keeps h hu).mono (fun _ _ hv => hv) fun _ _ hv => hv

theorem fine_query {r : Except Stop α} {f : PosixTree.Tree γ → Except Stop α}
    (hf : ∀ u, I u → f u = r) (hr : ∀ e, r = .error e → e.isRefusal = false) {k : α → BackupM γ β}
    (hk : ∀ a, r = .ok a → Fine I (k a)) : Fine I (query f >>= k) := by
  intro u hu
  rw [sat_bind, sat_query, hf u hu]
  cases r with
  | ok a => exact hk a rfl u hu
  | error e => exact ⟨hu, hr e rfl⟩

/-! ### Places -/

theorem resolvePath_congr (h : linkTarget u = linkTarget t) (p : Path) :
    resolvePath tools u p = resolvePath tools t p := by
  rw [resolvePath, resolvePath, realpath, realpath, h]

theorem place_congr (h : linkTarget u = linkTarget t) (comp : Comp) (root : Path) (e : Json) :
    place tools comp root e u = place tools comp root e t := by
  unfold place
  simp only [resolvePath_congr h]

theorem resolvePath_ok (h : resolvePath tools t p = .ok q) :
    realpath tools.depth t p = some q := by
  unfold resolvePath at h
  cases hreal : realpath tools.depth t p with
  | none => simp [hreal] at h
  | some q' =>
    rw [hreal] at h
    rw [Except.ok.inj h]

theorem prefix_of_inside {root : Path} (h : inside root p = true) : root <+: p := by
  simp only [inside, Bool.or_eq_true, Bool.and_eq_true, decide_eq_true_eq] at h
  rcases h with rfl | h
  · exact List.prefix_rfl
  · exact h.2

/-- What `place` lets through lies within the root and is its own real path. -/
theorem place_ok {comp : Comp} {root : Path} {e : Json} {rel : String}
    (h : place tools comp root e t = .ok (rel, dst)) :
    root <+: dst ∧ Canonical (linkTarget t) dst ∧ isAbsolute rel = false := by
  unfold place at h
  obtain ⟨rel', -, h⟩ := bind_ok h
  split_ifs at h with hbad
  · obtain ⟨_, hnever, -⟩ := bind_ok h
    cases hnever
  · obtain ⟨dst', hdst, h⟩ := bind_ok h
    split_ifs at h with hin
    obtain ⟨rfl, rfl⟩ := Prod.mk.inj (Except.ok.inj h)
    rw [Bool.or_eq_true, not_or, Bool.not_eq_true] at hbad
    exact ⟨prefix_of_inside hin, canonical_realFrom canonical_nil (resolvePath_ok hdst), hbad.1⟩

theorem inRoots_of_place {comp : Comp} {root : Path} (hroot : resolvePath tools t (roots.of comp) =
    .ok root) (h : root <+: p) : InRoots tools roots t p := by
  refine ⟨roots.of comp, ?_, root, resolvePath_ok hroot, h⟩
  cases comp <;> simp [Roots.of]

theorem locate_same (h : Same R t u) (hc : Canonical (linkTarget t) p)
    (hq : locate u true p = .ok q) : q = p :=
  Canonical.locate (h.links ▸ hc) hq

/-- The place that the database leads to is the one of its real path. -/
theorem realpath_of_same (hdepth : maxLinks ≤ tools.depth) (h : Same R t u)
    (hq : locate u true p = .ok q) : realpath tools.depth t p = some q := by
  have hreal := realpath_of_locate hdepth hq
  rwa [realpath, h.links] at hreal

/-! ### The copies -/

/-- The places that a restore may write to. -/
def Writable (tools : Tools γ) (roots : Roots) (staging : Path) (t : PosixTree.Tree γ)
    (p : Path) : Prop :=
  InRoots tools roots t p ∨ staging <+: p

variable {base : Path} {comp : Comp} {root : Path} {entry : Json} {es : List Json}

theorem fine_restoreEntry (hdepth : maxLinks ≤ tools.depth)
    (hroot : resolvePath tools t (roots.of comp) = .ok root)
    (hplaced : ∀ why, place tools comp root entry t = .error why → why.isRefusal = false)
    (hmode : ∃ m, modeOf tools entry = .ok m)
    (hin : ∀ rel dst, place tools comp root entry t = .ok (rel, dst) → ∀ p,
      realpath tools.depth t (dst ++ [(comp.name :: parts rel).getLastD ""]) = some p →
        InRoots tools roots t p) :
    Fine (Same (Writable tools roots staging t) t)
      (restoreEntry tools base comp root entry) := by
  obtain ⟨m, hm⟩ := hmode
  refine fine_query (fun u hu => place_congr hu.links comp root entry) hplaced ?_
  rintro ⟨rel, dst⟩ hplace
  obtain ⟨hpre, hcanon, habs⟩ := place_ok hplace
  have hsrc : (joinPath (base ++ [comp.name]) rel).getLastD "" =
      (comp.name :: parts rel).getLastD "" := by
    simp [joinPath, habs, List.getLastD_eq_getLast?, List.getLast?_append, List.getLast?_cons]
  have hdst : ∀ u q, Same (Writable tools roots staging t) t u → locate u true dst = .ok q →
      Writable tools roots staging t q := by
    intro u q hu hq
    rw [locate_same hu hcanon hq]
    exact .inl (inRoots_of_place hroot hpre)
  have hloc : ∀ p, p = dst ∨ p = dst ++ [(joinPath (base ++ [comp.name]) rel).getLastD ""] →
      ∀ u q, Same (Writable tools roots staging t) t u → locate u true p = .ok q →
        Writable tools roots staging t q := by
    rintro p (rfl | rfl) u q hu hq
    · exact hdst u q hu hq
    · rw [hsrc] at hq
      exact .inl (hin rel dst hplace q (realpath_of_same hdepth hu hq))
  refine (fine_failed (keeps_makedirs fun _ _ => keeps_mkdir)).bind fun _ =>
    (fine_failed (keeps_copy2 hloc)).bind fun _ => ?_
  refine fine_query (fun _ _ => hm) nofun fun mode _ => ?_
  cases mode with
  | none => exact fine_pure ()
  | some bits => exact fine_ignored (keeps_chmod hdst)

theorem fine_restoreFiles (hdepth : maxLinks ≤ tools.depth)
    (hadm : Admissible tools roots t components)
    (hcon : Contained tools roots t components) :
    Fine (Same (Writable tools roots staging t) t)
      (restoreFiles tools base roots components) := by
  refine fine_foldlM fun comp _ => ?_
  refine fine_query (fun u hu => resolvePath_congr hu.links (roots.of comp)) ?_ fun root hroot => ?_
  · intro e he
    unfold resolvePath at he
    cases hreal : realpath tools.depth t (roots.of comp) with
    | none =>
      rw [hreal] at he
      exact Except.error.inj he ▸ rfl
    | some q => simp [hreal] at he
  · obtain ⟨es, hes⟩ := hadm.entries comp
    refine fine_query (fun _ _ => hes) nofun fun es' hes' => ?_
    obtain rfl := Except.ok.inj hes'
    exact fine_foldlM fun e he => fine_restoreEntry hdepth hroot
      (hadm.placed comp _ root hes hroot e he) (hadm.modes comp _ hes e he)
      (hcon.files comp _ root hes hroot e he)

theorem fine_restoreDb (hdepth : maxLinks ≤ tools.depth)
    (hcon : Contained tools roots t components) :
    Fine (Same (Writable tools roots staging t) t)
      (restoreDb tools base roots components) := by
  have hsrc : (base ++ ["db", "sysible.db"]).getLastD "" = "sysible.db" := by
    simp [List.getLastD_eq_getLast?, List.getLast?_append]
  unfold restoreDb
  by_cases htruthy : truthy (getOr "db" .null components) = true
  · rw [if_pos htruthy]
    refine (fine_failed (keeps_makedirs fun _ _ => keeps_mkdir)).bind fun _ =>
      fine_failed (keeps_copy2 ?_)
    rintro p (rfl | rfl) u q hu hq
    · exact .inl ⟨roots.db, List.mem_cons_self, q, realpath_of_same hdepth hu hq,
        List.prefix_rfl⟩
    · rw [hsrc] at hq
      exact .inl (hcon.db htruthy q (realpath_of_same hdepth hu hq))
  · rw [if_neg htruthy]
    exact fine_pure ()

/-- A loop that stops at its first step has changed nothing. -/
theorem stopsFirst_sat {comps : List Comp} (h : StopsFirst tools roots t components comps)
    (hlinks : linkTarget u = linkTarget t) :
    Sat (comps.foldlM (fun _ comp => restoreComp tools base roots components comp) ()) u
      (fun _ _ => False) fun _ v => v = u := by
  induction comps with
  | nil => exact h.elim
  | cons comp rest ih =>
    rw [List.foldlM_cons, sat_bind, restoreComp, sat_bind, sat_query, resolvePath_congr hlinks]
    rw [StopsFirst] at h
    cases hroot : resolvePath tools t (roots.of comp) with
    | error e => exact rfl
    | ok root =>
      rw [hroot] at h
      rw [ends_ok, sat_bind, lift, sat_query]
      cases hes : entriesOf components comp with
      | error e => exact rfl
      | ok es =>
        rw [hes] at h
        cases es with
        | nil => exact ih h
        | cons e es =>
          obtain ⟨why, hwhy⟩ := h
          rw [ends_ok, List.foldlM_cons, sat_bind, restoreEntry, sat_bind, sat_query,
            place_congr hlinks, hwhy]
          exact rfl

/-! ### The whole restore -/

variable {archive : Archive γ} {force verify : Bool}

theorem keeps_safeExtract (hc : Confined tools archive staging t) :
    KeepsFrom (Same (staging <+: ·) t) (safeExtract tools archive staging) t :=
  (keeps_query _ t .refl).bind fun _ _ => hc.extractall.mapError

theorem keeps_verifyArchive (hc : Confined tools archive staging t) {manifest : Json} :
    Keeps (Same (staging <+: ·) t) (verifyArchive tools base manifest) := by
  refine (keeps_query _).bind fun components => (keeps_query _).bind fun _ => ?_
  split_ifs
  · refine (hc.integrity _).bind fun row => ?_
    split_ifs
    · exact keeps_raise _
    · exact keeps_pure ()
  · exact keeps_pure ()

/-- The checks ahead of the first copy change nothing outside the staging directory. -/
theorem keeps_prepare (hc : Confined tools archive staging t) : KeepsFrom (Same (staging <+: ·) t)
    (prepare tools archive roots force verify staging) t := by
  have hextract := keeps_safeExtract hc
  refine hextract.bind fun _ _ => Keeps.bind (keeps_query _).mapError (fun _ =>
    (keeps_query _).bind fun manifest => ?_) _ hextract.2
  have hrest : Keeps (Same (staging <+: ·) t) (do
      let components ← lift (item "components" manifest >>= fieldsOf)
      if truthy (getOr "db" .null components) && !force then
        forbid (pathExists · roots.db) (.refused ("/" ++ "/".intercalate roots.db ++
          " exists; refusing to overwrite without force=True (stop the controller first)."))
      pure (manifest, components) : BackupM γ (Json × List (String × Json))) := by
    refine (keeps_query _).bind fun components => ?_
    split_ifs
    · exact (keeps_forbid _ _).bind fun _ => keeps_pure _
    · exact keeps_pure _
  cases verify with
  | true => exact (keeps_verifyArchive hc).bind fun _ => hrest
  | false => exact hrest

theorem sat_of_result {m : BackupM γ α} {Q : α → PosixTree.Tree γ → Prop}
    {E : Stop → PosixTree.Tree γ → Prop} (hok : ∀ a, (m.run u).result = .ok a → Q a (m.run u).final)
    (herr : ∀ e, (m.run u).result = .error e → E e (m.run u).final) : Sat m u Q E := by
  unfold Sat
  cases hr : (m.run u).result with
  | ok a => exact hok a hr
  | error e => exact herr e hr

theorem sat_restoreStaged (hc : Confined tools archive staging t)
    (hs : Sound tools roots t ((prepare tools archive roots force verify staging).run t).result) :
    Sat (restoreStaged tools archive roots force verify staging) t
      (fun _ => Same (Writable tools roots staging t) t) fun e v =>
        Same (Writable tools roots staging t) t v ∧
          (e.isRefusal = true → Same (staging <+: ·) t v) := by
  have hprepare : KeepsFrom (Same (staging <+: ·) t)
      (prepare tools archive roots force verify staging) t := keeps_prepare hc
  have hsame := hprepare.2
  have hwrite := hsame.mono fun p hp => show Writable tools roots staging t p from .inr hp
  rw [restoreStaged, sat_bind]
  refine sat_of_result (fun r hres => ?_) fun e _ => ⟨hwrite, fun _ => hsame⟩
  obtain ⟨manifest, components⟩ := r
  rw [hres] at hs
  generalize ((prepare tools archive roots force verify staging).run t).final = u at *
  rcases hs with ⟨hdb, hstops⟩ | ⟨hadm, hcon⟩
  · have hnone : restoreDb tools (staging ++ ["sysible-backup"]) roots components = pure () := by
      rw [restoreDb, if_neg (by simp [hdb])]
    simp only [hnone]
    rw [sat_bind, sat_pure, sat_bind]
    refine (stopsFirst_sat hstops hsame.links).mono (fun _ _ => False.elim) ?_
    rintro e v rfl
    exact ⟨hwrite, fun _ => hsame⟩
  · have hfine : Fine (Same (Writable tools roots staging t) t) (do
        restoreDb tools (staging ++ ["sysible-backup"]) roots components
        restoreFiles tools (staging ++ ["sysible-backup"]) roots components
        pure manifest : BackupM γ Json) :=
      (fine_restoreDb hc.depth hcon).bind fun _ =>
        (fine_restoreFiles hc.depth hadm hcon).bind fun _ => fine_pure manifest
    refine (hfine u hwrite).mono (fun _ _ hv => hv) fun e v hv => ⟨hv.1, fun he => ?_⟩
    rw [hv.2] at he
    cases he

theorem get_rmtree (hp : ¬ staging <+: p) : (rmtree staging t).get p = t.get p := by
  have hdrop : ∀ (l : List Path) (u : PosixTree.Tree γ), (∀ q ∈ l, staging <+: q) →
      (l.foldl PosixTree.Tree.drop u).get p = u.get p := by
    intro l
    induction l with
    | nil => exact fun _ _ => rfl
    | cons q l ih =>
      intro u hl
      have hrest : ∀ q' ∈ l, staging <+: q' := fun q' hq' => hl q' (List.mem_cons_of_mem q hq')
      rw [List.foldl_cons, ih _ hrest, PosixTree.Tree.get_drop, if_neg]
      rintro rfl
      exact hp (hl p List.mem_cons_self)
  refine hdrop _ t fun q hq => ?_
  simpa using (List.mem_filter.mp hq).2

theorem fileAt_rmtree (hp : ¬ staging <+: p) : fileAt (rmtree staging t) p = fileAt t p := by
  rw [fileAt, fileAt, get_rmtree hp]

def dirNode : Node String := .dir ⟨0o755, 0, 0⟩ true

def fileNode (content : String) : Node String := .file ⟨0o644, 0, 0⟩ content true

/-- The members of an archive are put in place as they are. -/
def unpacked (members : List (Path × Node String)) (dest : Path) : FsM String Unit :=
  step fun t => .ok (members.foldl (fun t m => t.put (dest ++ m.1) m.2) t)

def controller : PosixTree.Tree String :=
  ⟨List.toAList [⟨[], dirNode⟩, ⟨["tmp"], dirNode⟩, ⟨["tmp", "s"], dirNode⟩, ⟨["opt"], dirNode⟩,
    ⟨["opt", "sysible.db"], fileNode "live"⟩]⟩

def controllerRoots : Roots :=
  ⟨["opt", "sysible.db"], ["opt", "data"], ["opt", "certs"], ["opt", "run"]⟩

def entryOf (path : String) : Json := .obj [("path", .str path), ("sha256", .str "sum")]

def toolsFor (components : List (String × Json)) : Tools String where
  host := ⟨0o022, fun _ => 0⟩
  depth := maxLinks
  printable _ := true
  sha256 _ := "sum"
  loads _ := some (.obj [("components", .obj components)])
  integrity _ := pure (some "ok")
  modeBits _ := some 0o600

/-- An archive with a symbolic link. -/
def linked : Archive String := ⟨[⟨"sysible-backup/data", .sym⟩], unpacked []⟩

/-- A good database, and an entry that leaves its root. -/
def forged : Archive String :=
  ⟨[⟨"sysible-backup/manifest.json", .file⟩, ⟨"sysible-backup/db/sysible.db", .file⟩,
    ⟨"sysible-backup/data", .dir⟩, ⟨"sysible-backup/x", .file⟩],
    unpacked [(["sysible-backup"], dirNode), (["sysible-backup", "manifest.json"], fileNode "m"),
      (["sysible-backup", "db"], dirNode), (["sysible-backup", "db", "sysible.db"], fileNode "old"),
      (["sysible-backup", "data"], dirNode), (["sysible-backup", "x"], fileNode "x")]⟩

def forgedComponents : List (String × Json) :=
  [("db", .arr [entryOf "sysible.db"]), ("data", .arr [entryOf "../x"])]

end RestoreBackup
