import SysibleController.FlashbackCapture

/-! What is captured, as the restore rule sees it: the directories that the walk of a tracked root
visits, and the roots from which every captured file passes the rule. -/
namespace FlashbackCapture

open PosixTree PathText

variable {γ : Type} {cfg : Settings γ} {m : Machine γ} {p c b : Path} {n : Name}
  {d e f r x path : Text}

/-! ## Places of texts -/

theorem Machine.dirClosed (m : Machine γ) : DirClosed m.tree := m.wf.dirClosed

theorem leads_concat_empty {t : PosixTree.Tree γ} (hc : DirClosed t) :
    Leads t (p ++ [""]) c ↔ Leads t p c := by
  rcases hc.split true (List.cons_ne_nil "" []) maxLinks p [] hc.root with
    ⟨c', j, -, hd, h1, h2⟩ | ⟨e, h1, h2⟩
  · rw [resolve_skip (Or.inl rfl), resolve_nil] at h2
    constructor
    · intro h
      obtain rfl : c' = c := Except.ok.inj (h2.symm.trans h.locate)
      exact ⟨h1, h.dir⟩
    · intro h
      obtain rfl : c' = c := Except.ok.inj (h1.symm.trans h.locate)
      exact ⟨h2, h.dir⟩
  · constructor
    · exact fun h => nomatch h1.symm.trans h.locate
    · exact fun h => absurd h.dir (h2 c h.locate)

theorem place_slash (he : e ≠ []) :
    place m (e ++ '/' :: x) = place m e ++ (x.splitOn '/').map String.ofList := by
  obtain ⟨a, e, rfl⟩ := List.exists_cons_of_ne_nil he
  have habs : Absolute (a :: e ++ '/' :: x) ↔ Absolute (a :: e) := by simp [Absolute]
  rw [place, place, List.splitOn_append_cons_self, List.map_append, if_congr habs rfl rfl,
    List.append_assoc]

theorem place_concat (he : e ≠ []) : place m (e ++ ['/']) = place m e ++ [""] := by
  rw [place_slash he]
  rfl

/-- The steps to a name are those to its directory and the name. -/
theorem place_name (hx : '/' ∉ x) : ∃ b, place m (e ++ '/' :: x) = b ++ [String.ofList x] ∧
    place m (e ++ ['/']) = b ++ [""] := by
  have hsplit : (x.splitOn '/').map String.ofList = [String.ofList x] := by
    rw [List.splitOn_eq_singleton hx]
    rfl
  by_cases he : e = []
  · subst he
    have habs : ∀ y : Text, Absolute ([] ++ '/' :: y) := fun _ => rfl
    refine ⟨[""], ?_, ?_⟩
    · rw [place, if_pos (habs x), List.splitOn_append_cons_self, List.map_append, hsplit]
      rfl
    · rw [place, if_pos (habs [])]
      rfl
  · exact ⟨place m e, by rw [place_slash he, hsplit], place_concat he⟩

theorem leads_root : Leads m.tree (place m ['/']) [] := by
  have hplace : place m ['/'] = ["", ""] := by
    have habs : Absolute ['/'] := rfl
    rw [place, if_pos habs]
    rfl
  rw [hplace]
  refine ⟨?_, m.wf.root⟩
  rw [locate, resolve_skip (Or.inl rfl), resolve_skip (Or.inl rfl), resolve_nil]

theorem leads_stripped (hp : path ≠ []) (h : Leads m.tree (place m path) c) :
    Leads m.tree (place m (stripped path)) c := by
  induction path using List.reverseRecOn with
  | nil => exact absurd rfl hp
  | append_singleton q a ih =>
    by_cases ha : a = '/'
    · subst ha
      by_cases hq : q = []
      · subst hq
        exact h
      · rw [stripped_concat]
        exact ih hq ((leads_concat_empty m.dirClosed).mp (place_concat hq ▸ h))
    · rwa [stripped_of_last hp (by simpa using ha)]

/-- With the slash that a name in it follows. -/
theorem leads_slash (hd : d ≠ []) (h : Leads m.tree (place m d) c) :
    Leads m.tree (place m (base d ++ ['/'])) c := by
  by_cases hl : d.getLast? = some '/'
  · rwa [base_slash hl]
  · rw [base, if_neg hl, place_concat hd]
    exact (leads_concat_empty m.dirClosed).mpr h

/-- All slashes lead to the root. -/
theorem leads_slashes (hp : path ≠ []) (hs : ∀ a ∈ path, a = '/') :
    Leads m.tree (place m path) [] := by
  induction path using List.reverseRecOn with
  | nil => exact absurd rfl hp
  | append_singleton q a ih =>
    obtain rfl : a = '/' := hs a (by simp)
    by_cases hq : q = []
    · subst hq
      exact leads_root
    · rw [place_concat hq]
      exact (leads_concat_empty m.dirClosed).mpr (ih hq fun b hb => hs b (by simp [hb]))

theorem isName_of_get (h : m.tree.get (c ++ [n]) ≠ none) : IsName n.toList := by
  obtain ⟨h1, h2, h3⟩ := m.wf.names c n h
  refine ⟨fun hn => h1 ?_, fun hn => h2 ?_, fun hn => h3 ?_, m.slashless c n h⟩
  · exact String.toList_inj.mp hn
  · exact String.toList_inj.mp hn
  · exact String.toList_inj.mp hn

theorem place_join (hd : d ≠ []) (hn : IsName n.toList) (h : Leads m.tree (place m d) c) :
    ∃ b, Leads m.tree b c ∧ place m (join d n.toList) = b ++ [n] := by
  obtain ⟨b, hjoin, hslash⟩ := place_name (m := m) (e := base d) hn.slashless
  refine ⟨b, ?_, ?_⟩
  · exact (leads_concat_empty m.dirClosed).mp (hslash ▸ leads_slash hd h)
  · rw [join_name hd hn, hjoin, String.ofList_toList]

theorem leads_of_listdir {t : PosixTree.Tree γ} {ns : List Name} (h : listdir t p = .ok ns) :
    ∃ c, Leads t p c := by
  unfold listdir at h
  cases hloc : locate t true p with
  | error err => simp [bind, Except.bind, hloc] at h
  | ok c =>
    simp only [bind, Except.bind, hloc] at h
    split at h
    · rename_i a hget
      exact ⟨c, hloc, a, true, hget⟩
    all_goals cases h

/-! ## The walk of a root -/

/-- The directories that the walk of a root visits, by their path and their place. -/
inductive Visited (m : Machine γ) (r : Text) : Text → Path → Prop where
  | root {c : Path} : Leads m.tree (place m r) c → Visited m r r c
  | child {d : Text} {c : Path} {n : Name} : Visited m r d c → DirAt m.tree (c ++ [n]) →
      Visited m r (join d n.toList) (c ++ [n])

theorem isName_of_dirAt (h : DirAt m.tree (c ++ [n])) : IsName n.toList := by
  obtain ⟨a, l, h⟩ := h
  have hne : m.tree.get (c ++ [n]) ≠ none := by simp [h]
  exact isName_of_get hne

theorem Visited.ne_nil (h : Visited m r d c) (hr : r ≠ []) : d ≠ [] := by
  induction h with
  | root => exact hr
  | child _ hdir ih => exact join_ne_nil ih (isName_of_dirAt hdir)

theorem Visited.leads (h : Visited m r d c) (hr : r ≠ []) : Leads m.tree (place m d) c := by
  induction h with
  | root hl => exact hl
  | @child d c n hv hdir ih =>
    obtain ⟨b, hb, hplace⟩ := place_join (hv.ne_nil hr) (isName_of_dirAt hdir) ih
    obtain ⟨a, l, hget⟩ := hdir
    rw [hplace]
    exact leads_child m.dirClosed hb (m.wf.names c n (by simp [hget])) ⟨a, l, hget⟩

theorem Visited.absolute (h : Visited m r d c) (hr : r ≠ []) : Absolute d ↔ Absolute r := by
  induction h with
  | root => exact Iff.rfl
  | child hv hdir ih =>
    exact (absolute_join (hv.ne_nil hr) (isName_of_dirAt hdir)).trans ih

theorem Visited.orderly (h : Visited m r d c) (hr : r ≠ []) : Orderly d ↔ Orderly r := by
  induction h with
  | root => exact Iff.rfl
  | child hv hdir ih =>
    exact (orderly_join (hv.ne_nil hr) (isName_of_dirAt hdir)).trans ih

/-- The path stays below the root as it is written. -/
theorem Visited.prefix_base (h : Visited m r d c) (hr : r ≠ []) :
    base r ++ ['/'] <+: base d ++ ['/'] := by
  induction h with
  | root => exact List.prefix_refl _
  | @child d c n hv hdir ih =>
    have hn := isName_of_dirAt hdir
    rw [base_join (hv.ne_nil hr) hn, join_name (hv.ne_nil hr) hn, List.append_cons (base d),
      List.append_assoc]
    exact ih.trans (List.prefix_append _ _)

/-- The place stays below the root's. -/
theorem Visited.prefix_place (h : Visited m r d c) (hl : Leads m.tree (place m r) b) :
    b <+: c := by
  induction h with
  | root hl' =>
    obtain rfl := hl.unique hl'
    exact List.prefix_refl _
  | child _ _ ih => exact ih.trans (List.prefix_append _ _)

/-- A path that the walk of a root comes across. -/
def Found (m : Machine γ) (r f : Text) : Prop :=
  ∃ d c n, Visited m r d c ∧ m.tree.get (c ++ [n]) ≠ none ∧ f = join d n.toList

theorem Visited.enter (h : Visited m r d c) (hr : r ≠ []) (hget : m.tree.get (c ++ [n]) ≠ none)
    (hdir : isdir m.tree (place m (join d n.toList)) = true)
    (hlink : islink m.tree (place m (join d n.toList)) = false) :
    Visited m r (join d n.toList) (c ++ [n]) := by
  obtain ⟨b, hb, hplace⟩ := place_join (h.ne_nil hr) (isName_of_get hget) (h.leads hr)
  rw [hplace] at hdir hlink
  exact h.child ((RestorePoint.dirAt_child m.dirClosed hb (m.wf.names c n hget)).mp ⟨hdir, hlink⟩)

theorem found_of_mem_walk {k : ℕ} (hr : r ≠ []) (h : Visited m r d c)
    (hf : f ∈ walk cfg m k d) : Found m r f := by
  induction k generalizing d c with
  | zero => cases hf
  | succ k ih =>
    rw [walk] at hf
    split at hf
    · cases hf
    · rename_i ns hlist
      obtain ⟨-, rfl⟩ := RestorePoint.listable_of_listdir (h.leads hr) hlist
      rcases List.mem_append.mp hf with hf | hf
      · obtain ⟨n, hn, rfl⟩ := List.mem_map.mp (List.mem_filter.mp hf).1
        exact ⟨d, c, n, h, RestorePoint.mem_names.mp hn, rfl⟩
      · obtain ⟨q, hq, hf⟩ := List.mem_flatMap.mp hf
        obtain ⟨hq, hok⟩ := List.mem_filter.mp hq
        obtain ⟨n, hn, rfl⟩ := List.mem_map.mp hq
        simp only [Bool.and_eq_true, Bool.not_eq_true'] at hok
        exact ih (h.enter hr (RestorePoint.mem_names.mp hn) hok.1.1 hok.2) hf

/-- The bound on the depth of a walk cuts nothing off. -/
theorem walk_enough {k : ℕ} (hr : r ≠ []) (h : Visited m r d c)
    (hk : RestorePoint.depth m.tree ≤ k + c.length) : walk cfg m (k + 1) d = walk cfg m k d := by
  induction k generalizing d c with
  | zero =>
    obtain ⟨a, l, hget⟩ := (h.leads hr).dir
    have hlt : c.length < RestorePoint.depth m.tree :=
      RestorePoint.length_lt_depth (by simp [hget])
    omega
  | succ k ih =>
    rw [walk.eq_2, walk.eq_2 cfg m d k]
    split
    · rfl
    · rename_i ns hlist
      obtain ⟨-, rfl⟩ := RestorePoint.listable_of_listdir (h.leads hr) hlist
      refine congrArg _ (List.flatMap_congr fun q hq => ?_)
      obtain ⟨hq, hok⟩ := List.mem_filter.mp hq
      obtain ⟨n, hn, rfl⟩ := List.mem_map.mp hq
      simp only [Bool.and_eq_true, Bool.not_eq_true'] at hok
      refine ih (h.enter hr (RestorePoint.mem_names.mp hn) hok.1.1 hok.2) ?_
      simp only [List.length_append, List.length_singleton]
      omega

theorem found_of_mem_offered (hr : r ≠ []) (hf : f ∈ offered cfg m r) (hfile : isfile m r = false) :
    Found m r f := by
  rw [offered, hfile] at hf
  cases hlist : listdir m.tree (place m r) with
  | error err =>
    unfold walk RestorePoint.depth at hf
    simp [hlist] at hf
  | ok ns =>
    obtain ⟨c, hc⟩ := leads_of_listdir hlist
    exact found_of_mem_walk hr (.root hc) hf

/-! ## What a snapshot holds -/

def captured (cfg : Settings γ) (m : Machine γ) : List Text := (fbCollect cfg m).files.map Prod.fst

theorem mem_files_add {out : Collected γ} {entry : Text × γ}
    (h : entry ∈ (add cfg m out path).files) :
    entry ∈ out.files ∨ (entry.1 = path ∧ fbExcluded cfg path = false) := by
  rw [add] at h
  split at h
  · exact Or.inl h
  · rename_i hskip
    rw [not_or, Bool.not_eq_true, Bool.not_eq_true] at hskip
    split at h
    · exact Or.inl h
    · split_ifs at h
      · exact Or.inl h
      · exact Or.inl h
      · exact Or.inl h
      · rcases List.mem_append.mp h with h | h
        · exact Or.inl h
        · obtain rfl := List.mem_singleton.mp h
          exact Or.inr ⟨rfl, hskip.2⟩
    · exact Or.inl h

theorem mem_files_foldl {paths : List Text} {out : Collected γ} {entry : Text × γ}
    (h : entry ∈ (paths.foldl (add cfg m) out).files) :
    entry ∈ out.files ∨ (entry.1 ∈ paths ∧ fbExcluded cfg entry.1 = false) := by
  induction paths generalizing out with
  | nil => exact Or.inl h
  | cons path paths ih =>
    rcases ih h with h | ⟨h, hx⟩
    · rcases mem_files_add h with h | ⟨rfl, hx⟩
      · exact Or.inl h
      · exact Or.inr ⟨List.mem_cons_self, hx⟩
    · exact Or.inr ⟨List.mem_cons_of_mem path h, hx⟩

theorem offered_of_captured (h : f ∈ captured cfg m) :
    fbExcluded cfg f = false ∧ ∃ r ∈ parts cfg.fbPaths, f ∈ offered cfg m r := by
  obtain ⟨entry, hmem, rfl⟩ := List.mem_map.mp h
  rcases mem_files_foldl hmem with h | ⟨h, hx⟩
  · cases h
  · exact ⟨hx, List.mem_flatMap.mp h⟩

theorem ne_nil_of_mem_parts {text : Text} (h : r ∈ parts text) : r ≠ [] := by
  simpa using (List.mem_filter.mp h).2

/-! ## Texts of places -/

theorem absText_concat (c : Path) (n : Name) :
    absText (c ++ [n]) = c.flatMap (fun n => '/' :: n.toList) ++ '/' :: n.toList := by
  simp [absText]

theorem absText_ne_nil (c : Path) : absText c ≠ [] := by
  rcases List.eq_nil_or_concat' c with rfl | ⟨c, n, rfl⟩ <;> simp [absText]

theorem getLast_absText (hn : IsName n.toList) : (absText (c ++ [n])).getLast? ≠ some '/' := by
  obtain ⟨a, name, ha⟩ := List.exists_cons_of_ne_nil hn.nonempty
  have := hn.getLast
  rw [absText_concat, List.getLast?_append]
  simp_all

theorem stripped_absText_concat (hn : IsName n.toList) :
    stripped (absText (c ++ [n])) = absText (c ++ [n]) :=
  stripped_of_last (absText_ne_nil _) (getLast_absText hn)

theorem stripped_absText (h : DirAt m.tree c) : stripped (absText c) = absText c := by
  rcases List.eq_nil_or_concat' c with rfl | ⟨c, n, rfl⟩
  · rfl
  · exact stripped_absText_concat (isName_of_dirAt h)

theorem join_absText (h : DirAt m.tree c) (hn : IsName n.toList) :
    join (absText c) n.toList = absText (c ++ [n]) := by
  rw [join_name (absText_ne_nil c) hn, absText_concat]
  rcases List.eq_nil_or_concat' c with rfl | ⟨c, k, rfl⟩
  · rfl
  · rw [base, if_neg (getLast_absText (isName_of_dirAt h)), absText_concat]
    simp

theorem absText_prefix (hb : b ≠ []) {x : Path} (hx : x ≠ []) :
    absText b ++ ['/'] <+: absText (b ++ x) := by
  obtain ⟨k, x, rfl⟩ := List.exists_cons_of_ne_nil hx
  refine ⟨k.toList ++ x.flatMap fun n => '/' :: n.toList, ?_⟩
  simp [absText, hb]

/-! ## The rule -/

theorem inside_of_prefix {root cand : Text} (hr : root ∈ allowed cfg m)
    (h : root ++ ['/'] <+: cand) : inside cfg m cand = true := by
  refine List.any_eq_true.mpr ⟨root, hr, ?_⟩
  simp [List.isPrefixOf_iff_prefix.mpr h]

theorem inside_of_mem {cand : Text} (h : cand ∈ allowed cfg m) : inside cfg m cand = true :=
  List.any_eq_true.mpr ⟨cand, h, by simp⟩

theorem stripped_mem_allowed (hr : r ∈ parts cfg.fbPaths) : stripped r ∈ allowed cfg m :=
  List.mem_append_left _ (List.mem_map_of_mem hr)

theorem absText_mem_allowed (hr : r ∈ parts cfg.fbPaths) (hl : Leads m.tree (place m r) b) :
    absText b ∈ allowed cfg m := by
  refine List.mem_append_right _ (List.mem_filterMap.mpr ⟨stripped r, List.mem_map_of_mem hr, ?_⟩)
  rw [realpath, (leads_stripped (ne_nil_of_mem_parts hr) hl).locate]
  simp [stripped_absText hl.dir]

/-- Where the rule looks a path up: as it is written, and with its directory resolved. -/
def Contained (cfg : Settings γ) (m : Machine γ) (f : Text) : Prop :=
  inside cfg m f = true ∧ ∃ real, realpath m (if dirname f = [] then ['/'] else dirname f) = some real ∧
    inside cfg m (join (stripped real) (basename f)) = true

theorem fbRestorable_ok_iff : fbRestorable cfg m f = .ok () ↔ Absolute f ∧ normpath f = f ∧
    fbExcluded cfg f = false ∧ parts cfg.fbPaths ≠ [] ∧ Contained cfg m f := by
  unfold fbRestorable Contained
  by_cases h1 : Absolute f
  · by_cases h2 : normpath f = f
    · cases h3 : fbExcluded cfg f
      · by_cases h4 : parts cfg.fbPaths = []
        · simp [h1, h2, h4, bind, Except.bind]
        · cases h5 : inside cfg m f
          · simp [h1, h2, h4, bind, Except.bind]
          · cases h6 : realpath m (if dirname f = [] then ['/'] else dirname f) with
            | none => simp [h1, h2, h4, h6]
            | some real =>
              cases h7 : inside cfg m (join (stripped real) (basename f))
              · simp [h1, h2, h4, h6, h7]
              · simp [h1, h2, h4, h6, h7]
                rfl
      · simp [h1, h2, bind, Except.bind]
    · simp [h1, h2, bind, Except.bind]
  · simp [h1, bind, Except.bind]

/-- The directory of a path resolves to where its directory leads. -/
theorem realpath_dirname (hd : d ≠ []) (hn : IsName n.toList) (h : Leads m.tree (place m d) c) :
    realpath m (if dirname (join d n.toList) = [] then ['/'] else dirname (join d n.toList)) =
      some (absText c) := by
  have hslash := leads_slash hd h
  have hleads : dirname (join d n.toList) ≠ [] ∧
      Leads m.tree (place m (dirname (join d n.toList))) c := by
    rcases dirname_join hd hn with heq | heq
    · rw [heq]
      exact ⟨by simp, hslash⟩
    · rw [heq]
      exact ⟨stripped_ne_nil _, leads_stripped (by simp) hslash⟩
  rw [if_neg hleads.1, realpath, hleads.2.locate]

/-- A path is contained when the rule finds it as it is written and as its place. -/
theorem contained_join (hd : d ≠ []) (hn : IsName n.toList) (h : Leads m.tree (place m d) c)
    (hf : inside cfg m (join d n.toList) = true) (hc : inside cfg m (absText (c ++ [n])) = true) :
    Contained cfg m (join d n.toList) := by
  refine ⟨hf, absText c, realpath_dirname hd hn h, ?_⟩
  rwa [stripped_absText h.dir, basename_join hd hn, join_absText h.dir hn]

/-- Below a directory that is not `/`, a file is contained where its root is in normal form. -/
theorem contained_of_found (hr : r ∈ parts cfg.fbPaths) (h : Found m r f) (ho : Orderly r)
    (hl : Leads m.tree (place m r) b) (hb : b ≠ []) : Contained cfg m f := by
  obtain ⟨d, c, n, hv, hget, rfl⟩ := h
  have hne := ne_nil_of_mem_parts hr
  have hn := isName_of_get hget
  refine contained_join (hv.ne_nil hne) hn (hv.leads hne) ?_ ?_
  · have hslashes : ∃ a ∈ r, a ≠ '/' := by
      by_contra hall
      push Not at hall
      exact hb (hl.unique (leads_slashes hne hall))
    refine inside_of_prefix (stripped_mem_allowed hr) ?_
    rw [stripped_orderly hne ho hslashes, join_name (hv.ne_nil hne) hn, List.append_cons (base d)]
    exact (hv.prefix_base hne).trans (List.prefix_append _ _)
  · obtain ⟨x, rfl⟩ := hv.prefix_place hl
    refine inside_of_prefix (absText_mem_allowed hr hl) ?_
    rw [List.append_assoc]
    exact absText_prefix hb (by simp)

/-! ## A root that is a file -/

theorem exists_slash (h : '/' ∈ f) : ∃ e x, f = e ++ '/' :: x ∧ '/' ∉ x := by
  obtain ⟨x, e, heq, hx⟩ := List.eq_append_cons_of_mem (List.mem_reverse.mpr h)
  refine ⟨e.reverse, x.reverse, ?_, by simpa using hx⟩
  rw [← List.reverse_reverse f, heq]
  simp

theorem isfile_of_leads (h : Leads m.tree (place m f) c) : isfile m f = false := by
  obtain ⟨a, l, hget⟩ := h.dir
  unfold isfile stat nodeAt
  simp [bind, Except.bind, h.locate, hget]

/-- The name of a file that is no link stands in a directory of its own. -/
theorem file_cases (ha : Absolute f) (hfile : isfile m f = true)
    (hlink : islink m.tree (place m f) = false) : ∃ d c n, d ≠ [] ∧ IsName n.toList ∧
    Leads m.tree (place m d) c ∧ f = join d n.toList ∧
    locate m.tree true (place m f) = .ok (c ++ [n]) := by
  obtain ⟨e, x, rfl, hx⟩ := exists_slash (List.mem_of_mem_head? ha)
  obtain ⟨b, hplace, hslash⟩ := place_name (m := m) (e := e) hx
  obtain ⟨q, a, data, readable, hq, hget⟩ : ∃ q a data readable,
      locate m.tree true (b ++ [String.ofList x]) = .ok q ∧
      m.tree.get q = some (.file a data readable) := by
    unfold isfile stat nodeAt at hfile
    rw [hplace] at hfile
    cases hq : locate m.tree true (b ++ [String.ofList x]) with
    | error err => simp [bind, Except.bind, hq] at hfile
    | ok q =>
      rcases hget : m.tree.get q with _ | (_ | ⟨a, data, readable⟩ | _ | _)
      case some.file => exact ⟨q, a, data, readable, rfl, hget⟩
      all_goals simp [bind, Except.bind, hq, hget] at hfile
  have hnodir : ¬DirAt m.tree q := by
    rintro ⟨a', l, h⟩
    exact nomatch hget.symm.trans h
  rcases m.dirClosed.split true (List.cons_ne_nil (String.ofList x) []) maxLinks b []
    m.dirClosed.root with ⟨c, j, -, hd, h1, h2⟩ | ⟨err, h1, -⟩
  swap
  · exact nomatch h1.symm.trans hq
  replace h2 := h2.symm.trans hq
  rcases name_cases (String.ofList x) with hn | hn | hn
  · rw [resolve_skip hn, resolve_nil] at h2
    exact absurd (Except.ok.inj h2 ▸ hd) hnodir
  · rw [hn, resolve_up, resolve_nil] at h2
    exact absurd (Except.ok.inj h2 ▸ m.dirClosed.dropLast hd) hnodir
  have hb : Leads m.tree b c := ⟨h1, hd⟩
  have hloc : locate m.tree true (b ++ [String.ofList x]) = .ok (c ++ [String.ofList x]) := by
    refine locate_child_follow m.dirClosed hb hn fun a' target hl => ?_
    rw [hplace, islink_child m.dirClosed hb hn, hl] at hlink
    cases hlink
  obtain rfl := Except.ok.inj (hloc.symm.trans hq)
  have hname : IsName (String.ofList x).toList := isName_of_get (by rw [hget]; simp)
  refine ⟨e ++ ['/'], c, String.ofList x, by simp, hname, ?_, ?_, ?_⟩
  · rw [hslash]
    exact (leads_concat_empty m.dirClosed).mpr hb
  · rw [join_name (by simp) hname, String.toList_ofList, base, if_pos (by simp)]
    simp
  · rw [hplace, hloc]

theorem contained_of_file (hr : r ∈ parts cfg.fbPaths) (ha : Absolute r)
    (hfile : isfile m r = true) (hlink : islink m.tree (place m r) = false) :
    Contained cfg m r := by
  obtain ⟨d, c, n, hd, hn, hl, rfl, hloc⟩ := file_cases ha hfile hlink
  have hself : stripped (join d n.toList) = join d n.toList :=
    stripped_of_last (join_ne_nil hd hn) (getLast_join hd hn)
  have hmem := stripped_mem_allowed (m := m) hr
  rw [hself] at hmem
  refine contained_join hd hn hl (inside_of_mem hmem) (inside_of_mem ?_)
  refine List.mem_append_right _ (List.mem_filterMap.mpr ⟨_, List.mem_map_of_mem hr, ?_⟩)
  rw [hself, realpath, hloc]
  simp [stripped_absText_concat hn]

/-! ## Roots from which what is captured can be restored -/

/-- A root that is a directory other than `/`, or a file that is no link. -/
def Anchored (m : Machine γ) (r : Text) : Prop :=
  (∃ c, Leads m.tree (place m r) c ∧ c ≠ []) ∨
    (isfile m r = true ∧ islink m.tree (place m r) = false)

/-- The root is written in normal form, up to a slash after a directory, and is anchored, or
else another root makes up for it. -/
structure Fits (cfg : Settings γ) (m : Machine γ) (r f : Text) : Prop where
  absolute : Absolute r
  normal : if isfile m r = true then normpath r = r else Orderly r
  covered : Anchored m r ∨ Contained cfg m f

theorem restorable_iff_fits (hr : r ∈ parts cfg.fbPaths) (hf : f ∈ offered cfg m r)
    (hx : fbExcluded cfg f = false) : fbRestorable cfg m f = .ok () ↔ Fits cfg m r f := by
  have hne := ne_nil_of_mem_parts hr
  rw [fbRestorable_ok_iff]
  cases hfile : isfile m r with
  | true =>
    rw [offered, if_pos hfile] at hf
    obtain rfl := List.mem_singleton.mp hf
    constructor
    · rintro ⟨ha, hnorm, -, -, hc⟩
      exact ⟨ha, by rwa [if_pos hfile], Or.inr hc⟩
    · rintro ⟨ha, hnorm, hcov⟩
      rw [if_pos hfile] at hnorm
      refine ⟨ha, hnorm, hx, List.ne_nil_of_mem hr, ?_⟩
      rcases hcov with (⟨c, hl, -⟩ | ⟨-, hlink⟩) | hc
      · exact absurd hfile (by simp [isfile_of_leads hl])
      · exact contained_of_file hr ha hfile hlink
      · exact hc
  | false =>
    have hfound := found_of_mem_offered hne hf hfile
    obtain ⟨d, c, n, hv, hget, rfl⟩ := id hfound
    have hn := isName_of_get hget
    have hd := hv.ne_nil hne
    have hnorm : normpath (join d n.toList) = join d n.toList ↔ Orderly r :=
      (orderly_iff hd hn).symm.trans (hv.orderly hne)
    have habs : Absolute (join d n.toList) ↔ Absolute r :=
      (absolute_join hd hn).trans (hv.absolute hne)
    rw [hnorm, habs]
    constructor
    · rintro ⟨ha, ho, -, -, hc⟩
      exact ⟨ha, by rwa [if_neg (by simp [hfile])], Or.inr hc⟩
    · rintro ⟨ha, ho, hcov⟩
      rw [if_neg (by simp [hfile])] at ho
      refine ⟨ha, ho, hx, List.ne_nil_of_mem hr, ?_⟩
      rcases hcov with (⟨b, hl, hb⟩ | ⟨hfile', -⟩) | hc
      · exact contained_of_found hr hfound ho hl hb
      · exact absurd hfile' (by simp [hfile])
      · exact hc

theorem captured_restorable_iff (cfg : Settings γ) (m : Machine γ) :
    (∀ f ∈ captured cfg m, fbRestorable cfg m f = .ok ()) ↔
      ∀ f ∈ captured cfg m, ∀ r ∈ parts cfg.fbPaths, f ∈ offered cfg m r → Fits cfg m r f := by
  constructor
  · intro h f hf r hr ho
    exact (restorable_iff_fits hr ho (offered_of_captured hf).1).mp (h f hf)
  · intro h f hf
    obtain ⟨hx, r, hr, ho⟩ := offered_of_captured hf
    exact (restorable_iff_fits hr ho hx).mpr (h f hf r hr ho)

/-! ### A tracked root directory `/` -/

def slashTree : PosixTree.Tree String where
  nodes := AList.insert [] (.dir ⟨0o755, 0, 0⟩ true)
    (AList.insert ["etc"] (.dir ⟨0o755, 0, 0⟩ true)
      (AList.insert ["etc", "hostname"] (.file ⟨0o644, 0, 0⟩ "web-01" true) ∅))

theorem slashTree_names : ∀ p ∈ slashTree.nodes.keys, ∀ n ∈ p, '/' ∉ n.toList := by
  decide

def slashMachine : Machine String where
  tree := slashTree
  wf := wellFormed_of_check (by decide)
  slashless := fun _ _ h => slashTree_names _ (PosixTree.Tree.mem_keys.mpr h) _ (by simp)
  cwd := []
  cwdDir := ⟨_, _, rfl⟩
  astray := some

def slashSettings : Settings String where
  fbPaths := "/".toList
  fbExclude := []
  fbMaxFile := 262144
  fbMaxTotal := 8388608
  fnmatch := fun path pat => path = pat
  size := String.utf8ByteSize

/-- The rule looks for `//` in front of the path. -/
theorem slash_captures_what_it_refuses :
    ¬∀ f ∈ captured slashSettings slashMachine, fbRestorable slashSettings slashMachine f = .ok () := by
  intro h
  have hmem : "/etc/hostname".toList ∈ captured slashSettings slashMachine := by decide
  obtain ⟨-, -, -, -, hin, -⟩ := fbRestorable_ok_iff.mp (h _ hmem)
  exact absurd hin (by decide)

end FlashbackCapture
