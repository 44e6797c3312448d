import SysibleController.CreateBackup
import SysibleController.RestoreRefusal

/-! A backup restored on a controller whose roots are still empty. -/
namespace RestoreBackup

open PosixTree AtomicSteps Prog EarlyExit JsonValue

variable {γ : Type} {t u v : PosixTree.Tree γ} {p q d c root : Path} {n m : Name} {host : Host}

/-! ### One copied file -/

/-- Nothing stands there, or a regular file. -/
def Free (t : PosixTree.Tree γ) (p : Path) : Prop :=
  t.get p = none ∨ ∃ a b r, t.get p = some (.file a b r)

/-- One place has become a file, and nothing else has changed. -/
structure Wrote (t u : PosixTree.Tree γ) (p : Path) (body : γ) (mode : ℕ) : Prop where
  kept : ∀ r, r ≠ p → u.get r = t.get r
  made : ∃ a, u.get p = some (.file a body true) ∧ a.mode = mode

theorem Free.not_dirAt (h : Free t p) : ¬ DirAt t p := by
  rintro ⟨a, l, hdir⟩
  rcases h with h | ⟨b, body, r, h⟩ <;> cases h.symm.trans hdir

theorem Free.not_link (h : Free t p) (a : Attrs) (target : String) :
    t.get p ≠ some (.link a target) := by
  rcases h with h | ⟨b, body, r, h⟩ <;> simp [h]

variable {body : γ} {mode : ℕ}

theorem Wrote.dirAt (h : Wrote t u p body mode) (hfree : Free t p) :
    DirAt u q ↔ DirAt t q := by
  by_cases hq : q = p
  · subst hq
    obtain ⟨a, ha, -⟩ := h.made
    refine iff_of_false ?_ hfree.not_dirAt
    rintro ⟨b, l, hdir⟩
    cases ha.symm.trans hdir
  · unfold DirAt
    rw [h.kept q hq]

theorem Wrote.dirClosed (h : Wrote t u p body mode) (hfree : Free t p) (hc : DirClosed t) :
    DirClosed u :=
  ⟨(h.dirAt hfree).mpr hc.root, fun q n hq =>
    (h.dirAt hfree).mpr (hc.parent q n ((h.dirAt hfree).mp hq))⟩

theorem Wrote.trans {mode' : ℕ} (h : Wrote t u p body mode) (k : Wrote u v p body mode') :
    Wrote t v p body mode' :=
  ⟨fun r hr => (k.kept r hr).trans (h.kept r hr), k.made⟩

theorem wrote_put (t : PosixTree.Tree γ) (p : Path) (a : Attrs) (body : γ) :
    Wrote t (t.put p (.file a body true)) p body a.mode :=
  ⟨fun r hr => by rw [Tree.get_put, if_neg hr], a, by simp, rfl⟩

theorem isdir_child (hc : DirClosed t) (hd : Leads t d c) (hn : ValidName n)
    (hfree : Free t (c ++ [n])) : isdir t (d ++ [n]) = false := by
  unfold isdir
  rw [stat_child hc hd hn hfree.not_link]
  rcases hfree with h | ⟨a, b, r, h⟩ <;> simp [h, Node.isDir]

variable {Q : Unit → PosixTree.Tree γ → Prop} {E : Errno → PosixTree.Tree γ → Prop}

/-- A change of mode at a file. -/
theorem sat_chmod_file (hc : DirClosed t) (hd : Leads t d c) (hn : ValidName n) {a : Attrs}
    (hget : t.get (c ++ [n]) = some (.file a body true))
    (hQ : ∀ u, Wrote t u (c ++ [n]) body mode → Q () u) :
    Sat (step (chmod (d ++ [n]) mode) : FsM γ Unit) t Q E := by
  rw [sat_step, chmod_child hc hd hn hget rfl, ends_ok]
  exact hQ _ (wrote_put t (c ++ [n]) { a with mode := mode } body)

/-- `copy2` over nothing or a file: content and mode of the source. -/
theorem sat_copy2_ok {sd : Path} {b : Attrs} (hc : DirClosed t) (hsd : DirAt t sd)
    (hsn : ∀ k ∈ sd, ValidName k) (hm : ValidName m)
    (hget : t.get (sd ++ [m]) = some (.file b body true)) (hd : DirAt t d)
    (hdn : ∀ k ∈ d, ValidName k) (hn : ValidName n) (hne : sd ++ [m] ≠ d ++ [n])
    (hfree : Free t (d ++ [n])) (hQ : ∀ u, Wrote t u (d ++ [n]) body b.mode → Q () u) :
    Sat (copy2 host (sd ++ [m]) (d ++ [n])) t Q E := by
  have hlead := hc.leads hdn hd
  have hsrc := holds_child hc (hc.leads hsn hsd) hm hget
  unfold copy2
  rw [sat_bind, sat_ask, isdir_child hc hlead hn hfree]
  simp only [Bool.false_eq_true, if_false]
  rw [sat_bind]
  refine sat_copyfile_ok hsrc hc hlead hn hne hfree fun a => ?_
  have hput := wrote_put t (d ++ [n]) a body
  have hcu := hput.dirClosed hfree hc
  have hgetu := (hput.kept _ hne).trans hget
  have hstat := stat_child hcu (hcu.leads hsn ((hput.dirAt hfree).mpr hsd)) hm
    (fun a target hl => by rw [hgetu] at hl; cases hl)
  rw [hgetu] at hstat
  rw [sat_bind, sat_query, hstat, ends_ok]
  have hmade : (t.put (d ++ [n]) (.file a body true)).get (d ++ [n]) =
      some (.file a body true) := by rw [Tree.get_put, if_pos rfl]
  refine sat_chmod_file hcu (hcu.leads hdn ((hput.dirAt hfree).mpr hd)) hn hmade ?_
  exact fun u hu => hQ u (hput.trans hu)

/-! ### The roots of a fresh controller -/

/-- The roots are empty directories apart from one another, and the database is to stand outside of
them, in a directory that is there. -/
structure Fresh (roots : Roots) (base : Path) (u : PosixTree.Tree γ) : Prop where
  wf : WellFormed u
  proper : ∀ comp, roots.of comp ≠ []
  root : ∀ comp, DirAt u (roots.of comp)
  empty : ∀ comp r, r ≠ [] → u.get (roots.of comp ++ r) = none
  apart : ∀ comp comp', roots.of comp = roots.of comp' → comp = comp'

variable {roots : Roots} {base : Path} {src : Sources γ} {tools : Tools γ}
  {saved done : List (Saved γ)} {f : Saved γ} {comp comp' : Comp} {r r' : List Name}

theorem Fresh.names (h : Fresh roots base u) (comp : Comp) : ∀ k ∈ roots.of comp, ValidName k :=
  (h.wf.plain (h.root comp)).names

theorem Fresh.not_below (h : Fresh roots base u) (hp : u.get p ≠ none) (hr : r ≠ []) :
    p ≠ roots.of comp ++ r := by
  rintro rfl
  exact hp (h.empty comp r hr)

/-- A place in the roots belongs to one root. -/
theorem Fresh.place_inj (h : Fresh roots base u) (heq : roots.of comp ++ r = roots.of comp' ++ r') :
    comp = comp' ∧ r = r' := by
  have hdir : ∀ c, u.get (roots.of c) ≠ none := by
    intro c
    obtain ⟨a, l, hget⟩ := h.root c
    simp [hget]
  have hroots : roots.of comp = roots.of comp' := by
    rcases List.append_eq_append_iff.mp heq with ⟨s, hs, -⟩ | ⟨s, hs, -⟩
    · by_contra hne
      refine h.not_below (hdir comp') (fun hnil => hne ?_) hs
      rw [hs, hnil, List.append_nil]
    · by_contra hne
      refine h.not_below (hdir comp) (fun hnil => hne ?_) hs
      rw [hs, hnil, List.append_nil]
  obtain rfl := h.apart _ _ hroots
  exact ⟨rfl, List.append_cancel_left heq⟩

/-- The file stands where it belongs. -/
def Placed (roots : Roots) (t : PosixTree.Tree γ) (f : Saved γ) : Prop :=
  ∃ a, t.get (roots.of f.comp ++ f.rel) = some (.file a f.content true) ∧ a.mode = f.mode

/-- Midway: what was there still is, and in the roots stand the files that are done and the
directories on the way to them. -/
structure Restoring (saved : List (Saved γ)) (roots : Roots) (u : PosixTree.Tree γ)
    (done : List (Saved γ)) (t : PosixTree.Tree γ) : Prop where
  closed : DirClosed t
  kept : Extends u t
  sub : ∀ g ∈ done, g ∈ saved
  placed : ∀ g ∈ done, Placed roots t g
  below : ∀ comp r, r ≠ [] → t.get (roots.of comp ++ r) = none ∨
    (DirAt t (roots.of comp ++ r) ∧ ∃ g ∈ done, g.comp = comp ∧ r <+: g.rel ∧ r ≠ g.rel) ∨
    ∃ g ∈ done, g.comp = comp ∧ g.rel = r

theorem Restoring.get_file (h : Restoring saved roots u done t) {g : Saved γ} (hg : g ∈ done) :
    ∃ a, t.get (roots.of g.comp ++ g.rel) = some (.file a g.content true) := by
  obtain ⟨a, ha, -⟩ := h.placed g hg
  exact ⟨a, ha⟩

/-- The directories on the way to a file can be made. -/
theorem Restoring.clear (h : Restoring saved roots u done t) (hu : Fresh roots base u)
    (hc : Coherent saved) (hf : f ∈ saved) {way : List Name} (hrel : f.rel = way ++ [n]) :
    Clear t (roots.of f.comp) way := by
  intro s hs
  by_cases hnil : s = []
  · subst hnil
    rw [List.append_nil]
    exact Or.inl (h.kept.dirAt (hu.root f.comp))
  · rcases h.below f.comp s hnil with hnone | ⟨hdir, -⟩ | ⟨g, hg, hcomp, rfl⟩
    · exact Or.inr hnone
    · exact Or.inl hdir
    · have hpre : g.rel <+: f.rel := hrel ▸ hs.trans (List.prefix_append way [n])
      have heq := hc.prefixFree g (h.sub g hg) f hf hcomp hpre
      have hlen := hs.length_le
      rw [heq, hrel, List.length_append, List.length_singleton] at hlen
      omega

theorem Restoring.free (h : Restoring saved roots u done t) (hc : Coherent saved)
    (hf : f ∈ saved) : Free t (roots.of f.comp ++ f.rel) := by
  rcases h.below f.comp f.rel (hc.good f hf).ne_nil with hnone | ⟨-, g, hg, hcomp, hpre, hne⟩ |
    ⟨g, hg, hcomp, hrel⟩
  · exact Or.inl hnone
  · exact absurd (congrArg Saved.rel (hc.prefixFree f hf g (h.sub g hg) hcomp.symm hpre)) hne
  · obtain ⟨a, ha⟩ := h.get_file hg
    rw [hcomp, hrel] at ha
    exact Or.inr ⟨a, _, _, ha⟩

theorem Restoring.canonical (h : Restoring saved roots u done t) (hu : Fresh roots base u)
    (comp : Comp) (hgood : ∀ k ∈ r, ValidName k) :
    Canonical (linkTarget t) (roots.of comp ++ r) := by
  have hplain := hu.wf.plain (hu.root comp)
  refine ⟨fun k hk => (List.mem_append.mp hk).elim (hplain.names k) (hgood k), fun q hq hne => ?_⟩
  have hnolink : ∀ a target, t.get q ≠ some (.link a target) := by
    intro a target hl
    by_cases hroot : q <+: roots.of comp
    · obtain ⟨b, l, hdir⟩ := h.kept.dirAt (hplain.dirs q hroot)
      cases hdir.symm.trans hl
    · obtain ⟨s, rfl⟩ : ∃ s, q = roots.of comp ++ s := by
        obtain ⟨s, hs⟩ := (List.prefix_or_prefix_of_prefix hq
          (List.prefix_append (roots.of comp) r)).resolve_left hroot
        exact ⟨s, hs.symm⟩
      have hs : s ≠ [] := fun hs => hroot (by simp [hs])
      rcases h.below comp s hs with hnone | ⟨⟨b, l, hdir⟩, -⟩ | ⟨g, hg, hcomp, hrel⟩
      · cases hnone.symm.trans hl
      · cases hdir.symm.trans hl
      · obtain ⟨b, hb⟩ := h.get_file hg
        rw [hcomp, hrel] at hb
        cases hb.symm.trans hl
  unfold linkTarget
  split
  · next a target hl => exact absurd hl (hnolink a target)
  · rfl

/-- What a run of `makedirs` and `copy2` for one file leaves. -/
theorem Restoring.snoc (h : Restoring saved roots u done t) (hu : Fresh roots base u)
    (hc : Coherent saved) (hf : f ∈ saved) {way : List Name} (hrel : f.rel = way ++ [n])
    (hgrown : Grown host t v (roots.of f.comp) way) {w : PosixTree.Tree γ}
    (hwrote : Wrote v w (roots.of f.comp ++ f.rel) f.content f.mode) :
    Restoring saved roots u (done ++ [f]) w := by
  have hdir := h.kept.dirAt (hu.root f.comp)
  have hclear := h.clear hu hc hf hrel
  have hfree : Free v (roots.of f.comp ++ f.rel) := by
    have hfree := h.free hc hf
    unfold Free at hfree ⊢
    rwa [hgrown.kept _ (Or.inr fun s hs => hrel ▸ (append_snoc_ne hs).symm)]
  have hne : f.rel ≠ [] := (hc.good f hf).ne_nil
  have hkept : ∀ q, t.get q ≠ none → q ≠ roots.of f.comp ++ f.rel → w.get q = t.get q :=
    fun q hq hqf => (hwrote.kept q hqf).trans (hgrown.kept q (Or.inl hq))
  refine ⟨hwrote.dirClosed hfree (hgrown.dirClosed hclear hdir h.closed), fun q hq => ?_,
    fun g hg => ?_, fun g hg => ?_, fun comp r hr => ?_⟩
  · have hqt := h.kept q hq
    rw [hkept q (by rwa [hqt]) (hu.not_below hq hne), hqt]
  · rcases List.mem_append.mp hg with hg | hg
    · exact h.sub g hg
    · exact List.mem_singleton.mp hg ▸ hf
  · rcases List.mem_append.mp hg with hg | hg
    · by_cases hplace : roots.of g.comp ++ g.rel = roots.of f.comp ++ f.rel
      · obtain ⟨hcomp, hsame⟩ := hu.place_inj hplace
        have heq := hc.prefixFree g (h.sub g hg) f hf hcomp (hsame ▸ List.prefix_rfl)
        exact heq ▸ hwrote.made
      · obtain ⟨a, ha, hmode⟩ := h.placed g hg
        exact ⟨a, (hkept _ (by simp [ha]) hplace).trans ha, hmode⟩
    · rw [List.mem_singleton.mp hg]
      exact hwrote.made
  · by_cases hplace : roots.of comp ++ r = roots.of f.comp ++ f.rel
    · obtain ⟨rfl, rfl⟩ := hu.place_inj hplace
      exact Or.inr (Or.inr ⟨f, by simp, rfl, rfl⟩)
    · by_cases hway : ∃ s, s <+: way ∧ roots.of comp ++ r = roots.of f.comp ++ s
      · obtain ⟨s, hs, heq⟩ := hway
        obtain ⟨rfl, rfl⟩ := hu.place_inj heq
        have hdirv := (hwrote.dirAt hfree).mpr (hgrown.dirAt hclear hdir hs)
        refine Or.inr (Or.inl ⟨hdirv, f, by simp, rfl, ?_, fun hsame => hplace (by rw [hsame])⟩)
        exact hrel ▸ hs.trans (List.prefix_append way [n])
      · have hget : w.get (roots.of comp ++ r) = t.get (roots.of comp ++ r) := by
          refine (hwrote.kept _ hplace).trans (hgrown.kept _ (Or.inr fun s hs heq => ?_))
          exact hway ⟨s, hs, heq⟩
        rcases h.below comp r hr with hnone | ⟨⟨a, l, hd⟩, g, hg, hg'⟩ | ⟨g, hg, hg'⟩
        · exact Or.inl (hget.trans hnone)
        · exact Or.inr (Or.inl ⟨⟨a, l, hget.trans hd⟩, g, List.mem_append_left _ hg, hg'⟩)
        · exact Or.inr (Or.inr ⟨g, List.mem_append_left _ hg, hg'⟩)

/-! ### The copies of a restore -/

theorem Restoring.resolvePath_root (h : Restoring saved roots u done t) (hu : Fresh roots base u)
    (comp : Comp) : resolvePath tools t (roots.of comp) = .ok (roots.of comp) := by
  have hcanon := h.canonical (r := []) hu comp (by simp)
  rw [List.append_nil, ← List.nil_append (roots.of comp)] at hcanon
  have hreal : realpath tools.depth t (roots.of comp) = some (roots.of comp) := hcanon.realFrom
  simp [resolvePath, hreal]

theorem Restoring.place_entry (h : Restoring saved roots u done t) (hu : Fresh roots base u)
    (hgood : GoodPath f.rel) : place tools f.comp (roots.of f.comp) (manifestEntry src f) t =
      .ok (relText f.rel, roots.of f.comp ++ f.rel) := by
  have hpath : (item "path" (manifestEntry src f) >>= text) = .ok (relText f.rel) := rfl
  have hup : (linkParts (relText f.rel)).contains ".." = false := by
    rw [linkParts_relText hgood, Bool.eq_false_iff]
    intro hmem
    exact (hgood.names _ (List.contains_iff_mem.mp hmem)).valid.2.2 rfl
  have hcanon := h.canonical hu f.comp fun k hk => (hgood.names k hk).valid
  rw [← List.nil_append (roots.of f.comp ++ f.rel)] at hcanon
  have hreal : realpath tools.depth t (roots.of f.comp ++ f.rel) =
      some (roots.of f.comp ++ f.rel) := hcanon.realFrom
  have hinside : inside (roots.of f.comp) (roots.of f.comp ++ f.rel) = true := by
    simp [inside, hu.proper f.comp]
  unfold place
  simp only [bind, Except.bind] at hpath ⊢
  rw [hpath]
  simp only [isAbsolute_relText hgood, hup, Bool.or_self, Bool.false_eq_true, if_false]
  simp [resolvePath, parts_relText hgood, hreal, hinside]

theorem modeOf_entry (hbits : ∀ mode < 0o1000, tools.modeBits (oct mode) = some mode)
    (hmode : f.mode < 0o1000) : modeOf tools (manifestEntry src f) = .ok (some f.mode) := by
  have hne : oct f.mode ≠ "" := by
    intro h
    have := congrArg String.toList h
    simp [oct] at this
  have htruthy : truthy (.str (oct f.mode)) = true := by simpa [truthy] using hne
  have hget : getOr "mode" .null [("path", .str (relText f.rel)),
      ("sha256", .str (src.sha256 f.content)), ("size", .int (src.size f.content)),
      ("mode", .str (oct f.mode))] = .str (oct f.mode) := rfl
  unfold modeOf manifestEntry
  simp [fieldsOf, bind, Except.bind, hget, htruthy, text, hbits f.mode hmode]

/-- The staged copy of a saved file. -/
def Staged (u : PosixTree.Tree γ) (base : Path) (f : Saved γ) : Prop :=
  ∃ a, u.get (base ++ f.comp.name :: f.rel) = some (.file a f.content true)

theorem sat_restoreEntry (hbits : ∀ mode < 0o1000, tools.modeBits (oct mode) = some mode)
    (h : Restoring saved roots u done t) (hu : Fresh roots base u) (hc : Coherent saved)
    (hf : f ∈ saved) (hstaged : Staged u base f) :
    Sat (restoreEntry tools base f.comp (roots.of f.comp) (manifestEntry src f)) t
      (fun _ w => Restoring saved roots u (done ++ [f]) w) fun _ _ => False := by
  have hgood := hc.good f hf
  obtain ⟨way, n, hrel⟩ := (List.eq_nil_or_concat' f.rel).resolve_left hgood.ne_nil
  obtain ⟨b, hb⟩ := hstaged
  have hnames : ∀ k ∈ way, ValidName k := fun k hk => (hgood.names k (by simp [hrel, hk])).valid
  have hn : ValidName n := (hgood.names n (by simp [hrel])).valid
  have hroot := h.kept.dirAt (hu.root f.comp)
  have hclear := h.clear hu hc hf hrel
  have hdst : roots.of f.comp ++ f.rel = roots.of f.comp ++ way ++ [n] := by
    rw [hrel, List.append_assoc]
  have hsrc : joinPath (base ++ [f.comp.name]) (relText f.rel) =
      base ++ f.comp.name :: way ++ [n] := by
    rw [joinPath_relText _ hgood, hrel]
    simp
  have hbsrc : u.get (base ++ f.comp.name :: way ++ [n]) = some (.file b f.content true) := by
    rw [← hb, hrel]
    simp
  have hthere : u.get (base ++ f.comp.name :: way ++ [n]) ≠ none := by
    rw [hbsrc]
    simp
  have hkept := h.kept _ hthere
  have hdropLast : (roots.of f.comp ++ f.rel).dropLast = roots.of f.comp ++ way := by
    rw [hdst, List.dropLast_concat]
  unfold restoreEntry
  rw [sat_bind, sat_query, h.place_entry hu hgood, ends_ok]
  simp only
  rw [sat_bind, sat_mapError, hdropLast]
  refine sat_makedirs h.closed (h.closed.leads (hu.names f.comp) hroot) hnames hclear
    fun v hgrown => ?_
  have hcv := hgrown.dirClosed hclear hroot h.closed
  have hsd : DirAt u (base ++ f.comp.name :: way) := hu.wf.parent _ n hthere
  have hget : v.get (base ++ f.comp.name :: way ++ [n]) = some (.file b f.content true) := by
    rw [hgrown.kept _ (Or.inl (hkept ▸ hthere)), hkept, hbsrc]
  have hne : base ++ f.comp.name :: way ++ [n] ≠ roots.of f.comp ++ way ++ [n] := by
    rw [List.append_assoc (roots.of f.comp)]
    exact hu.not_below hthere (by simp)
  have hdv : DirAt v (roots.of f.comp ++ way) := hgrown.dirAt hclear hroot List.prefix_rfl
  have hdn : ∀ k ∈ roots.of f.comp ++ way, ValidName k := fun k hk =>
    (List.mem_append.mp hk).elim (hu.names f.comp k) (hnames k)
  have hfree : Free v (roots.of f.comp ++ way ++ [n]) := by
    have hfree := h.free hc hf
    rw [hdst] at hfree
    unfold Free at hfree ⊢
    rwa [hgrown.kept _ (Or.inr fun s hs => by
      rw [List.append_assoc]
      exact (append_snoc_ne hs).symm)]
  rw [sat_bind, sat_mapError, hsrc, hdst]
  refine sat_copy2_ok hcv (hgrown.extends.dirAt (h.kept.dirAt hsd)) (hu.wf.plain hsd).names hn hget
    hdv hdn hn hne hfree fun w hw => ?_
  have hmode : modeOf tools (manifestEntry src f) = .ok (some f.mode) :=
    modeOf_entry hbits (hc.mode f hf)
  rw [sat_bind, lift, sat_query, hmode, ends_ok]
  simp only
  rw [sat_bind, sat_attempt]
  obtain ⟨a, ha, -⟩ := hw.made
  have hcw := hw.dirClosed hfree hcv
  refine sat_chmod_file hcw (hcw.leads hdn ((hw.dirAt hfree).mpr hdv)) hn ha fun x hx => ?_
  rw [sat_pure]
  exact h.snoc hu hc hf hrel hgrown (hdst ▸ hw.trans hx)

/-- The manifest lists under each component what was saved of it. -/
theorem entriesOf_componentsOf (db : Option γ) (saved : List (Saved γ)) (comp : Comp) :
    entriesOf (componentsOf src db saved) comp =
      .ok ((ofComp comp saved).map (manifestEntry src)) := by
  cases db <;> cases hdata : ofComp .data saved <;> cases hcert : ofComp .cert saved <;>
    cases hrun : ofComp .run saved <;> cases comp <;>
      simp [entriesOf, componentsOf, comps, hdata, hcert, hrun, getOr, JsonValue.get,
        List.lookup_cons, iterate, Comp.name]

theorem sat_restoreComp {db : Option γ}
    (hbits : ∀ mode < 0o1000, tools.modeBits (oct mode) = some mode)
    (h : Restoring saved roots u done t) (hu : Fresh roots base u) (hc : Coherent saved)
    (hstaged : ∀ f ∈ saved, Staged u base f) (comp : Comp) :
    Sat (restoreComp tools base roots (componentsOf src db saved) comp) t
      (fun _ w => Restoring saved roots u (done ++ ofComp comp saved) w) fun _ _ => False := by
  unfold restoreComp
  rw [sat_bind, sat_query, h.resolvePath_root hu, ends_ok, sat_bind, lift, sat_query,
    entriesOf_componentsOf, ends_ok, List.foldlM_map]
  refine (Sat.foldlM (I := fun gone todo _ w => gone ++ todo = ofComp comp saved ∧
    Restoring saved roots u (done ++ gone) w) ?_ (ofComp comp saved) [] () t
    ⟨rfl, by simpa using h⟩).mono (fun _ w hw => ?_) fun _ _ he => he
  · rintro gone f todo - w ⟨hsplit, hw⟩
    have hmem : f ∈ ofComp comp saved := hsplit ▸ by simp
    obtain ⟨hf, rfl⟩ := mem_ofComp.mp hmem
    refine (sat_restoreEntry hbits hw hu hc hf (hstaged f hf)).mono (fun _ x hx => ?_)
      fun _ _ he => he
    exact ⟨by simpa using hsplit, by simpa using hx⟩
  · simpa using hw.2

theorem sat_restoreFiles {db : Option γ}
    (hbits : ∀ mode < 0o1000, tools.modeBits (oct mode) = some mode)
    (h : Restoring saved roots u [] t) (hu : Fresh roots base u) (hc : Coherent saved)
    (hstaged : ∀ f ∈ saved, Staged u base f) :
    Sat (restoreFiles tools base roots (componentsOf src db saved)) t
      (fun _ w => Restoring saved roots u (comps.flatMap (ofComp · saved)) w)
      fun _ _ => False := by
  refine (Sat.foldlM (I := fun gone _ _ w => Restoring saved roots u
    (gone.flatMap (ofComp · saved)) w) ?_ comps [] () t h).mono (fun _ _ hw => hw) fun _ _ he => he
  intro gone comp todo a w hw
  rw [List.flatMap_append]
  simpa using sat_restoreComp hbits hw hu hc hstaged comp

/-! ### The database -/

/-- The database is to stand outside of the roots and of the staging directory, in a directory that
is there. -/
structure DbPlace (roots : Roots) (staging : Path) (u : PosixTree.Tree γ) : Prop where
  ne_nil : roots.db ≠ []
  names : ∀ k ∈ roots.db, ValidName k
  dir : DirAt u roots.db.dropLast
  free : Free u roots.db
  outside : ∀ comp, ¬ roots.of comp <+: roots.db
  unstaged : ¬ staging <+: roots.db

variable {w : PosixTree.Tree γ} {staging : Path}

theorem Wrote.wellFormed (h : Wrote t u (d ++ [n]) body mode) (hfree : Free t (d ++ [n]))
    (hd : DirAt t d) (hn : ValidName n) (wf : WellFormed t) : WellFormed u := by
  have hold : ∀ p k, u.get (p ++ [k]) ≠ none → p ++ [k] = d ++ [n] ∨ t.get (p ++ [k]) ≠ none := by
    intro p k hne
    by_cases heq : p ++ [k] = d ++ [n]
    · exact Or.inl heq
    · exact Or.inr (h.kept _ heq ▸ hne)
  refine ⟨(h.dirAt hfree).mpr wf.root, fun p k hne => (h.dirAt hfree).mpr ?_, fun p k hne => ?_,
    fun p a target hl => ?_⟩
  · rcases hold p k hne with heq | hne
    · obtain ⟨rfl, -⟩ := List.append_inj' heq rfl
      exact hd
    · exact wf.parent p k hne
  · rcases hold p k hne with heq | hne
    · obtain ⟨-, heq⟩ := List.append_inj' heq rfl
      exact List.singleton_inj.mp heq ▸ hn
    · exact wf.names p k hne
  · by_cases heq : p = d ++ [n]
    · obtain ⟨b, hb, -⟩ := h.made
      rw [heq] at hl
      cases hb.symm.trans hl
    · exact wf.targets p a target (h.kept p heq ▸ hl)

theorem Fresh.wrote_db (hu : Fresh roots base u) (hdb : DbPlace roots staging u)
    (h : Wrote u w roots.db body mode) : Fresh roots base w := by
  obtain ⟨d, n, heq⟩ := (List.eq_nil_or_concat' roots.db).resolve_left hdb.ne_nil
  have hdir := hdb.dir
  have hn := hdb.names n (by simp [heq])
  rw [heq, List.dropLast_concat] at hdir
  refine ⟨(heq ▸ h).wellFormed (heq ▸ hdb.free) hdir hn hu.wf, hu.proper,
    fun comp => (h.dirAt hdb.free).mpr (hu.root comp), fun comp r hr => ?_, hu.apart⟩
  rw [h.kept _ fun hplace => hdb.outside comp (hplace ▸ List.prefix_append _ r)]
  exact hu.empty comp r hr

/-- What stands at the place of the database after it has been restored, if one was saved. -/
def DbDone (db : Option γ) (roots : Roots) (u w : PosixTree.Tree γ) : Prop :=
  (db = none ∧ w = u) ∨ ∃ c mode, db = some c ∧ Wrote u w roots.db c mode

theorem sat_restoreDb {db : Option γ} (hu : Fresh roots base u) (hdb : DbPlace roots staging u)
    (hbase : staging <+: base)
    (hstaged : ∀ c, db = some c → ∃ a,
      u.get (base ++ ["db", "sysible.db"]) = some (.file a c true)) :
    Sat (restoreDb tools base roots (componentsOf src db saved)) u
      (fun _ w => DbDone db roots u w) fun _ _ => False := by
  unfold restoreDb
  rw [getOr_db]
  cases hsome : db with
  | none => exact Or.inl ⟨rfl, rfl⟩
  | some c =>
    obtain ⟨b, hb⟩ := hstaged c hsome
    obtain ⟨d, n, heq⟩ := (List.eq_nil_or_concat' roots.db).resolve_left hdb.ne_nil
    have hdir := hdb.dir
    have hn := hdb.names n (by simp [heq])
    have hfree := hdb.free
    rw [heq, List.dropLast_concat] at hdir
    rw [heq] at hfree
    have hplace : base ++ ["db", "sysible.db"] = base ++ ["db"] ++ ["sysible.db"] := by simp
    rw [hplace] at hb
    have hsd : DirAt u (base ++ ["db"]) := hu.wf.parent _ "sysible.db" (by rw [hb]; simp)
    have hne : base ++ ["db"] ++ ["sysible.db"] ≠ d ++ [n] := by
      rw [← heq, ← hplace]
      exact fun h => hdb.unstaged (h ▸ hbase.trans (List.prefix_append base _))
    have hlead := (hu.wf.plain hdir).leads
    rw [Option.isSome_some, if_pos rfl, heq, List.dropLast_concat, sat_bind, sat_mapError]
    refine sat_makedirs_of_isdir hu.wf.dirClosed hlead.isdir ?_
    rw [sat_mapError, hplace]
    refine sat_copy2_ok hu.wf.dirClosed hsd (hu.wf.plain hsd).names (by decide) hb hdir
      (hu.wf.plain hdir).names hn hne hfree fun w hw => Or.inr ⟨c, _, rfl, heq ▸ hw⟩

/-! ### The round trip -/

variable {archive : Archive γ} {bundle : Bundle γ} {t₀ : PosixTree.Tree γ} {label : String}
  {now : ℚ} {sanitize force : Bool} {old : Roots}

/-- The archive has reached another machine whole: its members pass, `extractall` puts its files
below the staging directory, `json.loads` reads the manifest that was dumped, and SQLite finds the
copy sound. -/
structure Carried (tools : Tools γ) (src : Sources γ) (archive : Archive γ) (bundle : Bundle γ)
    (staging : Path) (t₀ u : PosixTree.Tree γ) : Prop where
  extract : Sat (safeExtract tools archive staging) t₀ (fun _ v => v = u) fun _ _ => False
  unpacked : Unpacked bundle (staging ++ ["sysible-backup"]) u
  manifest : ∃ a c, u.get (staging ++ ["sysible-backup"] ++ ["manifest.json"]) =
    some (.file a c true) ∧ tools.loads c = some bundle.manifest
  sha256 : tools.sha256 = src.sha256
  modeBits : ∀ mode < 0o1000, tools.modeBits (oct mode) = some mode
  integrity : Sat (tools.integrity (staging ++ ["sysible-backup"] ++ ["db", "sysible.db"])) u
    (fun row v => row = some "ok" ∧ v = u) fun _ _ => False

theorem sat_verifyArchive {db : Option (γ × String)}
    (hm : Made src t old label now sanitize bundle db) (hc : Coherent bundle.saved)
    (hcar : Carried tools src archive bundle staging t₀ u) :
    Sat (verifyArchive tools (staging ++ ["sysible-backup"]) bundle.manifest) u
      (fun _ v => v = u) fun _ _ => False := by
  unfold verifyArchive
  rw [hm.manifest, item_components, sat_bind, lift, sat_query, ends_ok, sat_bind, sat_query,
    ← hm.copy, components_verified hcar.sha256 hc hcar.unpacked, ends_ok, getOr_db]
  split_ifs
  · rw [sat_bind]
    refine hcar.integrity.mono (fun row v hrow => ?_) fun _ _ he => he
    rw [hrow.1, hrow.2, if_neg (by simp), sat_pure]
  · rfl

theorem sat_prepare {db : Option (γ × String)}
    (hm : Made src t old label now sanitize bundle db) (hc : Coherent bundle.saved)
    (hcar : Carried tools src archive bundle staging t₀ u)
    (hforce : force = true ∨ pathExists u roots.db = false) :
    Sat (prepare tools archive roots force true staging) t₀ (fun r v => v = u ∧
      r = (bundle.manifest, componentsOf src bundle.db bundle.saved)) fun _ _ => False := by
  obtain ⟨a, c, hget, hloads⟩ := hcar.manifest
  unfold prepare
  refine hcar.extract.bind fun _ v hv => ?_
  subst hv
  rw [sat_bind, sat_mapError, sat_query, (holds_of_get hcar.unpacked.wf hget).readFile, ends_ok,
    sat_bind, lift, sat_query, hloads]
  simp only [Option.elim_some, ends_ok, if_true]
  refine (sat_verifyArchive hm hc hcar).bind fun _ v hv => ?_
  subst hv
  rw [hm.manifest, item_components, ← hm.copy, sat_bind, lift, sat_query, ends_ok]
  split_ifs with hcond
  · have hnone : pathExists v roots.db = false := by
      refine hforce.resolve_left fun hforce => ?_
      simp [hforce] at hcond
    rw [sat_bind, sat_forbid, hnone, if_neg Bool.false_ne_true, sat_pure]
    exact ⟨rfl, rfl⟩
  · exact ⟨rfl, rfl⟩

/-- The machine after the restore: in its roots stand the files of the old roots that the backup did
not leave out, with content and permissions, and no others; and the copy of the database. -/
structure Recovered (t : PosixTree.Tree γ) (old : Roots) (sanitize : Bool) (db : Option γ)
    (roots : Roots) (v : PosixTree.Tree γ) : Prop where
  files : ∀ x ∈ listed t old, omits sanitize x = false → ∃ content node a,
    readFile t (old.of x.1 ++ x.2) = .ok content ∧ stat t (old.of x.1 ++ x.2) = .ok node ∧
      v.get (roots.of x.1 ++ x.2) = some (.file a content true) ∧
      a.mode = node.attrs.mode % 0o1000
  only : ∀ comp rel, fileAt v (roots.of comp ++ rel) ≠ none →
    (comp, rel) ∈ listed t old ∧ omits sanitize (comp, rel) = false
  db : ∀ c, db = some c → ∃ a, v.get roots.db = some (.file a c true)

theorem Restoring.only (h : Restoring saved roots u done t) (hu : Fresh roots base u)
    (hfile : fileAt t (roots.of comp ++ r) ≠ none) : ∃ g ∈ saved, g.comp = comp ∧ g.rel = r := by
  have hnodir : ¬ DirAt t (roots.of comp ++ r) := by
    rintro ⟨a, l, hdir⟩
    exact hfile (by simp [fileAt, hdir])
  have hr : r ≠ [] := by
    rintro rfl
    rw [List.append_nil] at hnodir
    exact hnodir (h.kept.dirAt (hu.root comp))
  rcases h.below comp r hr with hnone | ⟨hdir, -⟩ | ⟨g, hg, hcomp, hrel⟩
  · exact absurd (by simp [fileAt, hnone]) hfile
  · exact absurd hdir hnodir
  · exact ⟨g, h.sub g hg, hcomp, hrel⟩

theorem mem_flatMap_ofComp : f ∈ comps.flatMap (ofComp · saved) ↔ f ∈ saved := by
  rw [List.mem_flatMap]
  refine ⟨fun ⟨_, _, h⟩ => (mem_ofComp.mp h).1, fun h => ⟨f.comp, ?_, mem_ofComp.mpr ⟨h, rfl⟩⟩⟩
  cases f.comp <;> decide

theorem fresh_restoring (hu : Fresh roots base u) : Restoring saved roots u [] u :=
  ⟨hu.wf.dirClosed, fun _ _ => rfl, by simp, by simp, fun comp r hr => Or.inl (hu.empty comp r hr)⟩

theorem DbDone.fresh {db : Option γ} (h : DbDone db roots u w) (hu : Fresh roots base u)
    (hdb : DbPlace roots staging u) : Fresh roots base w := by
  rcases h with ⟨-, rfl⟩ | ⟨c, mode, -, hw⟩
  · exact hu
  · exact hu.wrote_db hdb hw

theorem DbDone.get {db : Option γ} (h : DbDone db roots u w) (hp : p ≠ roots.db) :
    w.get p = u.get p := by
  rcases h with ⟨-, rfl⟩ | ⟨c, mode, -, hw⟩
  · rfl
  · exact hw.kept p hp

theorem recovered_of_restoring {db : Option (γ × String)}
    (hm : Made src t old label now sanitize bundle db) (hu : Fresh roots base u)
    (hdb : DbPlace roots staging u) (hdone : DbDone bundle.db roots u w)
    (h : Restoring bundle.saved roots w (comps.flatMap (ofComp · bundle.saved)) v) :
    Recovered t old sanitize bundle.db roots v := by
  refine ⟨fun x hx homit => ?_, fun comp rel hfile => ?_, fun c hc => ?_⟩
  · obtain ⟨f, hf, hsave⟩ := (mem_mapM hm.saved).2 x
      (List.mem_filter.mpr ⟨hx, by simp [homit]⟩)
    obtain ⟨hcomp, hrel, hread, node, hstat, hmode⟩ := save_ok hsave
    obtain ⟨a, ha, hamode⟩ := h.placed f (mem_flatMap_ofComp.mpr hf)
    rw [hcomp, hrel] at ha
    exact ⟨f.content, node, a, hread, hstat, ha, hamode.trans hmode⟩
  · obtain ⟨g, hg, rfl, rfl⟩ := h.only (hdone.fresh hu hdb) hfile
    exact ⟨(hm.mem_saved hg).1, (hm.mem_saved hg).2.1⟩
  · rcases hdone with ⟨hnone, -⟩ | ⟨c', mode, hc', hw⟩
    · cases hnone.symm.trans hc
    · obtain rfl := Option.some.inj (hc'.symm.trans hc)
      obtain ⟨a, ha, -⟩ := hw.made
      exact ⟨a, (h.kept _ (by simp [ha])).trans ha⟩

theorem sat_restoreStaged_created {db : Option (γ × String)}
    (hm : Made src t old label now sanitize bundle db) (hc : Coherent bundle.saved)
    (hcar : Carried tools src archive bundle staging t₀ u)
    (hu : Fresh roots (staging ++ ["sysible-backup"]) u) (hdb : DbPlace roots staging u)
    (hforce : force = true ∨ pathExists u roots.db = false) :
    Sat (restoreStaged tools archive roots force true staging) t₀
      (fun m v => m = bundle.manifest ∧ Recovered t old sanitize bundle.db roots v)
      fun _ _ => False := by
  unfold restoreStaged
  refine (sat_prepare hm hc hcar hforce).bind fun r v hr => ?_
  obtain ⟨rfl, rfl⟩ := hr
  simp only
  refine (sat_restoreDb hu hdb (List.prefix_append _ _) hcar.unpacked.db).bind fun _ w hdone => ?_
  have hw := hdone.fresh hu hdb
  refine (sat_restoreFiles hcar.modeBits (fresh_restoring hw) hw hc fun f hf => ?_).bind
    fun _ x hx => ?_
  · obtain ⟨a, ha⟩ := hcar.unpacked.saved f hf
    refine ⟨a, (hdone.get fun heq => hdb.unstaged ?_).trans ha⟩
    exact heq ▸ (List.prefix_append staging _).trans (List.prefix_append _ _)
  · rw [sat_pure]
    exact ⟨rfl, recovered_of_restoring hm hu hdb hdone hx⟩

/-- The staging directory holds no place of the roots. -/
theorem Carried.not_staged (hcar : Carried tools src archive bundle staging t₀ u)
    (hu : Fresh roots base u) (hout : ∀ comp, ¬ staging <+: roots.of comp) (comp : Comp)
    (rel : List Name) : ¬ staging <+: roots.of comp ++ rel := by
  intro hpre
  obtain ⟨a, c, hget, -⟩ := hcar.manifest
  have hdir : DirAt u staging := by
    refine hcar.unpacked.wf.dirAt_of_prefix
      (q := staging ++ ["sysible-backup"] ++ ["manifest.json"]) (by rw [hget]; simp) ?_ ?_
    · simp
    · simp
  obtain ⟨b, l, hstaging⟩ := hdir
  obtain ⟨s, hs⟩ := (List.prefix_or_prefix_of_prefix hpre
    (List.prefix_append (roots.of comp) rel)).resolve_left (hout comp)
  have hne : s ≠ [] := by
    rintro rfl
    rw [List.append_nil] at hs
    exact hout comp (hs ▸ List.prefix_rfl)
  rw [← hs, hu.empty comp s hne] at hstaging
  cases hstaging

theorem sat_restoreBackup_created (ht : GoodTree t)
    (hcreate : createBackup src t old label now sanitize = .ok bundle)
    (hcar : Carried tools src archive bundle staging t₀ u)
    (hu : Fresh roots (staging ++ ["sysible-backup"]) u) (hdb : DbPlace roots staging u)
    (hout : ∀ comp, ¬ staging <+: roots.of comp)
    (hforce : force = true ∨ pathExists u roots.db = false) :
    Sat (restoreBackup tools archive roots force true staging) t₀
      (fun m v => m = bundle.manifest ∧ Recovered t old sanitize bundle.db roots v)
      fun _ _ => False := by
  obtain ⟨db, hm⟩ := createBackup_ok hcreate
  unfold restoreBackup
  rw [sat_bind, sat_attempt]
  refine (sat_restoreStaged_created hm (hm.coherent ht) hcar hu hdb hforce).mono (fun m v hv => ?_)
    fun _ _ he => he.elim
  obtain ⟨rfl, hrec⟩ := hv
  rw [sat_bind, sat_step, ends_ok, lift, sat_query, ends_ok]
  have hplace := hcar.not_staged hu hout
  refine ⟨rfl, fun x hx homit => ?_, fun comp rel hfile => ?_, fun c hc => ?_⟩
  · obtain ⟨content, node, a, hread, hstat, ha, hmode⟩ := hrec.files x hx homit
    exact ⟨content, node, a, hread, hstat, (get_rmtree (hplace _ _)).trans ha, hmode⟩
  · rw [fileAt_rmtree (hplace comp rel)] at hfile
    exact hrec.only comp rel hfile
  · obtain ⟨a, ha⟩ := hrec.db c hc
    exact ⟨a, (get_rmtree hdb.unstaged).trans ha⟩

theorem ends_of_sat {σ ε α : Type} {m : Prog σ ε α} {s : σ} {Q : α → σ → Prop}
    (h : Sat m s Q fun _ _ => False) :
    ∃ a, (m.run s).result = .ok a ∧ Q a (m.run s).final := by
  unfold Sat at h
  cases hr : (m.run s).result with
  | ok a =>
    rw [hr] at h
    exact ⟨a, rfl, h⟩
  | error e =>
    rw [hr] at h
    cases h

def oldMachine : PosixTree.Tree String :=
  ⟨List.toAList [⟨[], dirNode⟩, ⟨["opt"], dirNode⟩, ⟨["opt", "sysible.db"], fileNode "live"⟩,
    ⟨["opt", "data"], dirNode⟩, ⟨["opt", "data", "hosts.json"], fileNode "hosts"⟩,
    ⟨["opt", "data", "remote_keys"], dirNode⟩,
    ⟨["opt", "data", "remote_keys", "web"], fileNode "ssh"⟩, ⟨["opt", "certs"], dirNode⟩,
    ⟨["opt", "certs", "server.crt"], fileNode "crt"⟩, ⟨["opt", "run"], dirNode⟩]⟩

def sampleSources : Sources String := ⟨id, String.length, fun c => some (c, some "ok"), some true⟩

def sampleSaved : List (Saved String) :=
  [⟨.data, ["hosts.json"], 0o644, "hosts"⟩, ⟨.cert, ["server.crt"], 0o644, "crt"⟩]

def sampleBundle : Bundle String where
  manifest := manifestOf sampleSources "move" 0 true (some ("live", "ok"))
    ["data/remote_keys/web"] sampleSaved
  db := some "live"
  saved := sampleSaved

theorem sampleBundle_created :
    createBackup sampleSources oldMachine controllerRoots "move" 0 true = .ok sampleBundle := by
  rfl

def newRoots : Roots := ⟨["srv", "sysible.db"], ["srv", "data"], ["srv", "certs"], ["srv", "run"]⟩

def emptyMachine : PosixTree.Tree String :=
  ⟨List.toAList [⟨[], dirNode⟩, ⟨["tmp"], dirNode⟩, ⟨["tmp", "s"], dirNode⟩, ⟨["srv"], dirNode⟩,
    ⟨["srv", "data"], dirNode⟩, ⟨["srv", "certs"], dirNode⟩, ⟨["srv", "run"], dirNode⟩]⟩

def sampleMembers : List (Path × Node String) :=
  [(["sysible-backup"], dirNode), (["sysible-backup", "manifest.json"], fileNode "manifest"),
    (["sysible-backup", "db"], dirNode), (["sysible-backup", "db", "sysible.db"], fileNode "live"),
    (["sysible-backup", "data"], dirNode),
    (["sysible-backup", "data", "hosts.json"], fileNode "hosts"),
    (["sysible-backup", "cert"], dirNode),
    (["sysible-backup", "cert", "server.crt"], fileNode "crt")]

def sampleArchive : Archive String where
  members := sampleMembers.map fun m =>
    ⟨"/".intercalate m.1, if m.2.isDir then .dir else .file⟩
  extractall := unpacked sampleMembers

def unpackedMachine : PosixTree.Tree String :=
  sampleMembers.foldl (fun t m => t.put (["tmp", "s"] ++ m.1) m.2) emptyMachine

def sampleTools : Tools String where
  host := ⟨0o022, fun _ => 0⟩
  depth := maxLinks
  printable _ := true
  sha256 := id
  loads _ := some sampleBundle.manifest
  integrity _ := pure (some "ok")
  modeBits s := some (Nat.ofDigitChars 8 (s.toList.drop 2) 0 % 0o1000)

theorem modeBits_oct {mode : ℕ} (h : mode < 0o1000) :
    sampleTools.modeBits (oct mode) = some mode := by
  have hdigits : (oct mode).toList.drop 2 = Nat.toDigits 8 mode := by simp [oct]
  have hvalue := Nat.ofDigitChars_toDigits (b := 8) (n := mode) (by decide) (by decide)
  change some (Nat.ofDigitChars 8 ((oct mode).toList.drop 2) 0 % 0o1000) = some mode
  rw [hdigits, hvalue, Nat.mod_eq_of_lt h]

theorem unpackedMachine_wf : WellFormed unpackedMachine := wellFormed_of_check (by decide +kernel)

theorem oldMachine_good : GoodTree oldMachine := by
  refine ⟨wellFormed_of_check (by decide +kernel), fun p n hne => ?_⟩
  have h : ∀ q ∈ oldMachine.nodes.keys, '/' ∉ (q.getLastD "").toList := by decide +kernel
  simpa using h (p ++ [n]) (Tree.mem_keys.mpr hne)

theorem sampleArchive_carried : Carried sampleTools sampleSources sampleArchive sampleBundle
    ["tmp", "s"] emptyMachine unpackedMachine where
  extract := by rfl
  unpacked := by
    refine ⟨unpackedMachine_wf, fun f hf => ?_, fun c hc => ?_⟩
    · simp only [sampleBundle, sampleSaved, List.mem_cons, List.not_mem_nil, or_false] at hf
      rcases hf with rfl | rfl <;> exact ⟨_, rfl⟩
    · obtain rfl := Option.some.inj hc
      exact ⟨_, rfl⟩
  manifest := ⟨_, _, rfl, rfl⟩
  sha256 := rfl
  modeBits := fun _ h => modeBits_oct h
  integrity := ⟨rfl, rfl⟩

theorem newRoots_fresh : Fresh newRoots ["tmp", "s", "sysible-backup"] unpackedMachine where
  wf := unpackedMachine_wf
  proper comp := by cases comp <;> decide
  root comp := by cases comp <;> exact ⟨_, _, rfl⟩
  empty comp r hr := by
    by_contra hne
    have h : ∀ q ∈ unpackedMachine.nodes.keys, ∀ comp ∈ comps, newRoots.of comp <+: q →
        q = newRoots.of comp := by decide +kernel
    have := h _ (Tree.mem_keys.mpr hne) comp (by cases comp <;> decide) (List.prefix_append _ r)
    exact hr (by simpa using this)
  apart comp comp' h := by cases comp <;> cases comp' <;> first | rfl | exact absurd h (by decide)

theorem newRoots_dbPlace : DbPlace newRoots ["tmp", "s"] unpackedMachine where
  ne_nil := by decide
  names := by decide
  dir := ⟨_, _, rfl⟩
  free := Or.inl rfl
  outside comp := by cases comp <;> decide
  unstaged := by decide

theorem newRoots_outside (comp : Comp) : ¬ ["tmp", "s"] <+: newRoots.of comp := by
  cases comp <;> decide

theorem newRoots_db_absent :
    false = true ∨ pathExists unpackedMachine newRoots.db = false := Or.inr (by decide +kernel)

end RestoreBackup
