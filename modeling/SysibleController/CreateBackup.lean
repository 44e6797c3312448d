import SysibleController.RestoreBackup
import SysibleController.RestoreWalk
import Mathlib.Data.List.Sort

/-! Making a backup of the controller (`create_backup` in `tools/backup_lib.py`): a copy of the
database, the curated files of the three roots, and a manifest with their digests. A sanitized
backup leaves the key material out. The tree does not change meanwhile, and the staging directory
is left out of the model: what is put into it is what the archive holds. -/
namespace RestoreBackup

open PosixTree JsonValue EarlyExit

variable {γ : Type}

/-- `_COMPONENTS` -/
def curated : Comp → List Name
  | .data => ["api_key.txt", "hosts.json", "remote_keys"]
  | .cert => ["server.crt", "server.key", "server.pem", "trust.crt"]
  | .run => ["controller_secret.key", "webgui.secret", "webgui_sudo.key"]

def comps : List Comp := [.data, .cert, .run]

/-- `str(rel)` -/
def relText (rel : List Name) : String := "/".intercalate rel

/-- `_SECRET_MATCH` -/
def isSecret (comp : Comp) (rel : List Name) : Bool :=
  match comp with
  | .run => true
  | .cert => relText rel = "server.key" || relText rel = "server.pem"
  | .data => relText rel = "api_key.txt" || rel.take 1 = ["remote_keys"]

/-- `p.is_file()` -/
def isFile (t : PosixTree.Tree γ) (p : Path) : Bool :=
  match stat t p with
  | .ok (.file _ _ _) => true
  | _ => false

/-- `rglob("*")` as paths relative to the directory; links to directories are not entered. -/
def below (t : PosixTree.Tree γ) : ℕ → Path → List (List Name)
  | 0, _ => []
  | k + 1, dir =>
    match listdir t dir with
    | .error _ => []
    | .ok names => names.flatMap fun n =>
      [n] :: if isdir t (dir ++ [n]) && !islink t (dir ++ [n]) then
        (below t k (dir ++ [n])).map (n :: ·) else []

/-- Texts in the order of their code points. -/
def textLt : List Char → List Char → Bool
  | [], cs => !cs.isEmpty
  | _ :: _, [] => false
  | a :: as, b :: bs => a.toNat < b.toNat || (a.toNat = b.toNat && textLt as bs)

/-- Paths are sorted component by component. -/
def pathLe : List Name → List Name → Bool
  | [], _ => true
  | _ :: _, [] => false
  | a :: as, b :: bs => textLt a.toList b.toList || (a = b && pathLe as bs)

def entriesBelow (t : PosixTree.Tree γ) (root : Path) (name : Name) : List (List Name) :=
  ((below t (RestorePoint.depth t) (root ++ [name])).insertionSort fun p q => pathLe p q = true).map
    (name :: ·)

/-- The files of a component, by their paths relative to the root. -/
def iterComponentFiles (t : PosixTree.Tree γ) (root : Path) (names : List Name) :
    List (List Name) :=
  names.flatMap fun name =>
    if isFile t (root ++ [name]) then [[name]]
    else if isdir t (root ++ [name]) then
      (entriesBelow t root name).filter fun rel => isFile t (root ++ rel)
    else []

/-- What the backup calls. -/
structure Sources (γ : Type) where
  sha256 : γ → String
  size : γ → ℕ
  /-- SQLite's online backup: the copy, and the first column of its `PRAGMA integrity_check`. -/
  sqliteBackup : γ → Option (γ × Option String)
  /-- `secret_vault.is_encrypting_at_rest()`, unless the vault cannot be asked. -/
  encryptingAtRest : Option Bool

inductive Failure where
  | os (err : Errno)
  | sqlite
  deriving DecidableEq

/-- A file in the archive, with the mode it had. -/
structure Saved (γ : Type) where
  comp : Comp
  rel : List Name
  mode : ℕ
  content : γ

def save (t : PosixTree.Tree γ) (root : Path) (comp : Comp) (rel : List Name) :
    Except Failure (Saved γ) :=
  ((do
    let content ← readFile t (root ++ rel)
    let node ← stat t (root ++ rel)
    .ok ⟨comp, rel, node.attrs.mode % 0o1000, content⟩ : Except Errno (Saved γ))).mapError .os

/-- `oct(mode)` -/
def oct (mode : ℕ) : String := "0o" ++ String.ofList (Nat.toDigits 8 mode)

variable (src : Sources γ)

def manifestEntry (f : Saved γ) : Json :=
  .obj [("path", .str (relText f.rel)), ("sha256", .str (src.sha256 f.content)),
    ("size", .int (src.size f.content)), ("mode", .str (oct f.mode))]

def dbEntry (content : γ) : Json :=
  .obj [("path", .str "sysible.db"), ("sha256", .str (src.sha256 content)),
    ("size", .int (src.size content))]

/-- What an archive holds under `sysible-backup`. -/
structure Bundle (γ : Type) where
  manifest : Json
  db : Option γ
  saved : List (Saved γ)

def ofComp (comp : Comp) (saved : List (Saved γ)) : List (Saved γ) :=
  saved.filter fun f => f.comp = comp

def componentsOf (db : Option γ) (saved : List (Saved γ)) : List (String × Json) :=
  (db.map fun content => ("db", Json.arr [dbEntry src content])).toList ++
    comps.filterMap fun comp => match ofComp comp saved with
      | [] => none
      | f :: fs => some (comp.name, .arr ((f :: fs).map (manifestEntry src)))

def degraded : String :=
  "at-rest encryption is DEGRADED (no key + SYSIBLE_SECRET_REQUIRED=0): the database in this " ++
  "sanitized bundle may contain PLAINTEXT secrets (e.g. sudo/become passwords). Treat this " ++
  "bundle as sensitive despite --sanitize."

def warnings (sanitize : Bool) : List Json :=
  if sanitize && src.encryptingAtRest = some false then [.str degraded] else []

def saveDb (t : PosixTree.Tree γ) (db : Path) : Except Failure (Option (γ × String)) :=
  if pathExists t db then do
    let content ← (readFile t db).mapError .os
    match src.sqliteBackup content with
    | none => .error .sqlite
    | some (copy, row) => .ok (some (copy, row.getD "unknown"))
  else .ok none

/-- The files of all components, each with its component. -/
def listed (t : PosixTree.Tree γ) (roots : Roots) : List (Comp × List Name) :=
  comps.flatMap fun comp => (iterComponentFiles t (roots.of comp) (curated comp)).map (comp, ·)

def omits (sanitize : Bool) (f : Comp × List Name) : Bool := sanitize && isSecret f.1 f.2

def manifestOf (label : String) (now : ℚ) (sanitize : Bool) (db : Option (γ × String))
    (omitted : List String) (saved : List (Saved γ)) : Json :=
  .obj ([("schema_version", .int 1), ("created", .float (some now)), ("label", .str label),
    ("components", .obj (componentsOf src (db.map Prod.fst) saved)),
    ("db_integrity", db.elim .null fun d => .str d.2), ("sanitized", .bool sanitize),
    ("omitted", .arr (omitted.map .str)), ("warnings", .arr (warnings src sanitize))] ++
    if db.isSome then [("db_kind", .str "sqlite")] else [])

def createBackup (t : PosixTree.Tree γ) (roots : Roots) (label : String) (now : ℚ)
    (sanitize : Bool) : Except Failure (Bundle γ) := do
  let db ← saveDb src t roots.db
  let omitted := (listed t roots).filter (omits sanitize)
  let kept := (listed t roots).filter fun f => !omits sanitize f
  let saved ← kept.mapM fun f => save t (roots.of f.1) f.1 f.2
  .ok ⟨manifestOf src label now sanitize db (omitted.map fun f => f.1.name ++ "/" ++ relText f.2)
    saved, db.map Prod.fst, saved⟩

variable {src} {t u : PosixTree.Tree γ} {roots : Roots} {label : String} {now : ℚ}
  {sanitize : Bool} {bundle : Bundle γ}

theorem mem_mapM {ε α β : Type} {f : α → Except ε β} : ∀ {l : List α} {l' : List β},
    l.mapM f = .ok l' → (∀ b ∈ l', ∃ a ∈ l, f a = .ok b) ∧ ∀ a ∈ l, ∃ b ∈ l', f a = .ok b
  | [], l', h => by
    obtain rfl := Except.ok.inj h
    simp
  | a :: l, l', h => by
    rw [List.mapM_cons] at h
    obtain ⟨b, hb, h⟩ := bind_ok h
    obtain ⟨bs, hbs, h⟩ := bind_ok h
    obtain rfl := Except.ok.inj h
    obtain ⟨hl, hr⟩ := mem_mapM hbs
    refine ⟨fun x hx => ?_, fun x hx => ?_⟩
    · rcases List.mem_cons.mp hx with rfl | hx
      · exact ⟨a, List.mem_cons_self, hb⟩
      · obtain ⟨y, hy, hxy⟩ := hl x hx
        exact ⟨y, List.mem_cons_of_mem a hy, hxy⟩
    · rcases List.mem_cons.mp hx with rfl | hx
      · exact ⟨b, List.mem_cons_self, hb⟩
      · obtain ⟨y, hy, hxy⟩ := hr x hx
        exact ⟨y, List.mem_cons_of_mem b hy, hxy⟩

theorem save_ok {root : Path} {comp : Comp} {rel : List Name} {f : Saved γ}
    (h : save t root comp rel = .ok f) : f.comp = comp ∧ f.rel = rel ∧
      readFile t (root ++ rel) = .ok f.content ∧
      ∃ node, stat t (root ++ rel) = .ok node ∧ f.mode = node.attrs.mode % 0o1000 := by
  unfold save at h
  cases hread : readFile t (root ++ rel) with
  | error e => simp [hread, bind, Except.bind, Except.mapError] at h
  | ok content =>
    cases hstat : stat t (root ++ rel) with
    | error e => simp [hread, hstat, bind, Except.bind, Except.mapError] at h
    | ok node =>
      simp only [hread, hstat, bind, Except.bind, Except.mapError, Except.ok.injEq] at h
      subst h
      exact ⟨rfl, rfl, rfl, node, rfl, rfl⟩

/-- What a backup that has been made is made of. -/
structure Made (src : Sources γ) (t : PosixTree.Tree γ) (roots : Roots) (label : String) (now : ℚ)
    (sanitize : Bool) (bundle : Bundle γ) (db : Option (γ × String)) : Prop where
  stored : saveDb src t roots.db = .ok db
  copy : bundle.db = db.map Prod.fst
  saved : ((listed t roots).filter fun f => !omits sanitize f).mapM
    (fun f => save t (roots.of f.1) f.1 f.2) = .ok bundle.saved
  manifest : bundle.manifest = manifestOf src label now sanitize db
    (((listed t roots).filter (omits sanitize)).map fun f => f.1.name ++ "/" ++ relText f.2)
    bundle.saved

theorem createBackup_ok (h : createBackup src t roots label now sanitize = .ok bundle) :
    ∃ db, Made src t roots label now sanitize bundle db := by
  unfold createBackup at h
  obtain ⟨db, hdb, h⟩ := bind_ok h
  obtain ⟨saved, hsaved, h⟩ := bind_ok h
  obtain rfl := Except.ok.inj h
  exact ⟨db, hdb, rfl, hsaved, rfl⟩

/-! ### The paths of a backup -/

/-- Names as the kernel has them. -/
structure GoodName (n : Name) : Prop where
  valid : ValidName n
  slashless : '/' ∉ n.toList

structure GoodTree (t : PosixTree.Tree γ) : Prop where
  wf : WellFormed t
  slashless : ∀ p n, t.get (p ++ [n]) ≠ none → '/' ∉ n.toList

/-- A relative path that a manifest can name. -/
structure GoodPath (rel : List Name) : Prop where
  ne_nil : rel ≠ []
  names : ∀ n ∈ rel, GoodName n

variable {root d : Path} {rel rel' : List Name} {comp : Comp} {n : Name} {k : ℕ}

theorem goodName_of_listdir (ht : GoodTree t) {names : List Name} (h : listdir t d = .ok names)
    (hn : n ∈ names) : GoodName n := by
  unfold listdir at h
  obtain ⟨q, -, h⟩ := bind_ok h
  split at h
  · obtain rfl := Except.ok.inj h
    have hget := RestorePoint.mem_names.mp hn
    exact ⟨ht.wf.names _ n hget, ht.slashless _ n hget⟩
  all_goals cases h

theorem goodPath_cons (hn : GoodName n) (h : ∀ m ∈ rel, GoodName m) : GoodPath (n :: rel) :=
  ⟨by simp, List.forall_mem_cons.mpr ⟨hn, h⟩⟩

theorem goodPath_of_mem_below (ht : GoodTree t) (h : rel ∈ below t k d) : GoodPath rel := by
  induction k generalizing d rel with
  | zero => cases h
  | succ k ih =>
    rw [below] at h
    split at h
    · cases h
    · next names hnames =>
      obtain ⟨n, hn, h⟩ := List.mem_flatMap.mp h
      have hgood := goodName_of_listdir ht hnames hn
      rcases List.mem_cons.mp h with rfl | h
      · exact goodPath_cons hgood (by simp)
      · split_ifs at h
        · obtain ⟨rest, hrest, rfl⟩ := List.mem_map.mp h
          exact goodPath_cons hgood (ih hrest).names
        · cases h

theorem goodName_curated (comp : Comp) : ∀ n ∈ curated comp, GoodName n := by
  have h : ∀ n ∈ curated comp, ValidName n ∧ '/' ∉ n.toList := by
    cases comp <;> decide
  exact fun n hn => ⟨(h n hn).1, (h n hn).2⟩

/-- What is listed is a file by a good path. -/
theorem mem_iterComponentFiles (ht : GoodTree t)
    (h : rel ∈ iterComponentFiles t root (curated comp)) :
    GoodPath rel ∧ isFile t (root ++ rel) = true := by
  obtain ⟨name, hname, h⟩ := List.mem_flatMap.mp h
  have hgood := goodName_curated comp name hname
  split_ifs at h with hfile hdir
  · obtain rfl := List.mem_singleton.mp h
    exact ⟨goodPath_cons hgood (by simp), hfile⟩
  · obtain ⟨h, hfile⟩ := List.mem_filter.mp h
    obtain ⟨rest, hrest, rfl⟩ := List.mem_map.mp h
    have := goodPath_of_mem_below ht ((List.mem_insertionSort _).mp hrest)
    exact ⟨goodPath_cons hgood this.names, hfile⟩
  · cases h

theorem mem_listed (ht : GoodTree t) {f : Comp × List Name} (h : f ∈ listed t roots) :
    GoodPath f.2 ∧ isFile t (roots.of f.1 ++ f.2) = true := by
  obtain ⟨comp, -, h⟩ := List.mem_flatMap.mp h
  obtain ⟨rel, hrel, rfl⟩ := List.mem_map.mp h
  exact mem_iterComponentFiles ht hrel

theorem isdir_of_pathExists (hc : DirClosed t) {s : Path} (hs : s ≠ [])
    (h : pathExists t (d ++ s) = true) : isdir t d = true := by
  induction s using List.reverseRecOn with
  | nil => exact absurd rfl hs
  | append_singleton s n ih =>
    rw [← List.append_assoc] at h
    have hdir := pathExists_parent hc h
    by_cases hs' : s = []
    · simpa [hs'] using hdir
    · exact ih hs' (pathExists_of_isdir hdir)

theorem not_isdir_of_isFile {p : Path} (h : isFile t p = true) : isdir t p = false := by
  unfold isFile at h
  unfold isdir
  split at h
  · next hstat => simp [hstat, Node.isDir]
  · cases h

theorem pathExists_of_isFile {p : Path} (h : isFile t p = true) : pathExists t p = true := by
  unfold isFile at h
  unfold pathExists
  split at h
  · next hstat => simp [hstat, Except.isOk, Except.toBool]
  · cases h

/-- No file lies below another. -/
theorem eq_of_prefix (hc : DirClosed t) (hfile : isFile t (root ++ rel) = true)
    (hfile' : isFile t (root ++ rel') = true) (h : rel <+: rel') : rel = rel' := by
  obtain ⟨s, rfl⟩ := h
  by_contra hne
  have hexists := pathExists_of_isFile hfile'
  rw [← List.append_assoc] at hexists
  have hdir := isdir_of_pathExists hc (fun hs => hne (by rw [hs, List.append_nil])) hexists
  rw [not_isdir_of_isFile hfile] at hdir
  cases hdir

/-! ### What the archive holds -/

/-- The saved files are the files of the roots that are not left out, as they were read. -/
theorem Made.mem_saved {db : Option (γ × String)}
    (h : Made src t roots label now sanitize bundle db) {f : Saved γ} (hf : f ∈ bundle.saved) :
    (f.comp, f.rel) ∈ listed t roots ∧ omits sanitize (f.comp, f.rel) = false ∧
      save t (roots.of f.comp) f.comp f.rel = .ok f := by
  obtain ⟨⟨comp, rel⟩, hmem, hsave⟩ := (mem_mapM h.saved).1 f hf
  obtain ⟨hlisted, hkept⟩ := List.mem_filter.mp hmem
  obtain ⟨rfl, rfl, -⟩ := save_ok hsave
  exact ⟨hlisted, by simpa using hkept, hsave⟩

/-- The files as a restore needs them. -/
structure Coherent (saved : List (Saved γ)) : Prop where
  good : ∀ f ∈ saved, GoodPath f.rel
  mode : ∀ f ∈ saved, f.mode < 0o1000
  prefixFree : ∀ f ∈ saved, ∀ g ∈ saved, f.comp = g.comp → f.rel <+: g.rel → f = g

theorem Made.coherent {db : Option (γ × String)} (ht : GoodTree t)
    (h : Made src t roots label now sanitize bundle db) : Coherent bundle.saved := by
  refine ⟨fun f hf => (mem_listed ht (h.mem_saved hf).1).1, fun f hf => ?_,
    fun f hf g hg hcomp hpre => ?_⟩
  · obtain ⟨-, -, -, node, -, hmode⟩ := save_ok (h.mem_saved hf).2.2
    rw [hmode]
    exact Nat.mod_lt _ (by decide)
  · obtain ⟨hlf, -, hsf⟩ := h.mem_saved hf
    obtain ⟨hlg, -, hsg⟩ := h.mem_saved hg
    have hfile := (mem_listed ht hlf).2
    have hfile' := (mem_listed ht hlg).2
    rw [hcomp] at hfile hsf
    have hrel : f.rel = g.rel := eq_of_prefix ht.wf.dirClosed hfile hfile' hpre
    rw [hrel] at hsf
    exact Except.ok.inj (hsf.symm.trans hsg)

/-! ### The check of a fresh archive -/

/-- The archive's files stand below a directory. -/
structure Unpacked (bundle : Bundle γ) (base : Path) (u : PosixTree.Tree γ) : Prop where
  wf : WellFormed u
  saved : ∀ f ∈ bundle.saved, ∃ a,
    u.get (base ++ f.comp.name :: f.rel) = some (.file a f.content true)
  db : ∀ c, bundle.db = some c → ∃ a,
    u.get (base ++ ["db", "sysible.db"]) = some (.file a c true)

theorem holds_of_get {p : Path} {a : Attrs} {body : γ} (wf : WellFormed u)
    (h : u.get p = some (.file a body true)) : Holds u p p body := by
  rcases List.eq_nil_or_concat' p with rfl | ⟨d, n, rfl⟩
  · obtain ⟨b, l, hroot⟩ := wf.root
    cases hroot.symm.trans h
  · have hne : u.get (d ++ [n]) ≠ none := by simp [h]
    exact holds_child wf.dirClosed (wf.plain (wf.parent d n hne)).leads (wf.names d n hne) h

theorem linkParts_relText (h : GoodPath rel) : linkParts (relText rel) = rel := by
  unfold linkParts relText
  rw [String.toList_intercalate]
  have hslash : "/".toList = ['/'] := by decide
  rw [hslash, List.splitOn_intercalate '/' ?_ (by simpa using h.ne_nil)]
  · simp
  · intro l hl
    obtain ⟨n, hn, rfl⟩ := List.mem_map.mp hl
    exact (h.names n hn).slashless

theorem parts_relText (h : GoodPath rel) : parts (relText rel) = rel := by
  rw [parts, linkParts_relText h, List.filter_eq_self]
  intro n hn
  obtain ⟨h1, h2, -⟩ := (h.names n hn).valid
  simpa using ⟨h1, h2⟩

theorem isAbsolute_relText (h : GoodPath rel) : isAbsolute (relText rel) = false := by
  obtain ⟨n, rest, rfl⟩ := List.exists_cons_of_ne_nil h.ne_nil
  obtain ⟨hvalid, hslash⟩ := h.names n List.mem_cons_self
  have hn : n.toList ≠ [] := by simpa using hvalid.1
  obtain ⟨c, cs, hcs⟩ := List.exists_cons_of_ne_nil hn
  have hc : c ≠ '/' := fun hc => hslash (by rw [hcs, hc]; exact List.mem_cons_self)
  unfold isAbsolute relText
  rw [String.toList_intercalate]
  cases rest <;> simp [hcs, hc, List.intercalate]

theorem joinPath_relText (p : Path) (h : GoodPath rel) : joinPath p (relText rel) = p ++ rel := by
  rw [joinPath, isAbsolute_relText h, if_neg Bool.false_ne_true, parts_relText h]

theorem joinPath_name (p : Path) (comp : Comp) : joinPath p comp.name = p ++ [comp.name] := by
  cases comp <;> rfl

variable {tools : Tools γ} {base : Path}

theorem verifyEntry_ok {comp path : String} {entry : Json} {body : γ} {s : Path}
    (hpath : item "path" entry = .ok (.str path))
    (hsha : item "sha256" entry = .ok (.str (tools.sha256 body)))
    (hfile : Holds u (joinPath (joinPath base comp) path) s body) :
    verifyEntry tools base comp entry u = .ok () := by
  unfold verifyEntry
  simp [hpath, hsha, text, bind, Except.bind, hfile.pathExists, hfile.readFile, Except.mapError,
    sameText, pure, Except.pure]

theorem forM_ok {ε α : Type} {f : α → Except ε Unit} {l : List α} (h : ∀ x ∈ l, f x = .ok ()) :
    l.forM f = .ok () := by
  induction l with
  | nil => rfl
  | cons x l ih =>
    change (f x >>= fun _ => l.forM f) = .ok ()
    rw [h x List.mem_cons_self]
    exact ih fun y hy => h y (List.mem_cons_of_mem x hy)

theorem mem_componentsOf {db : Option γ} {saved : List (Saved γ)} {x : String × Json}
    (h : x ∈ componentsOf src db saved) :
    (∃ c, db = some c ∧ x = ("db", .arr [dbEntry src c])) ∨
      ∃ comp, x = (comp.name, .arr ((ofComp comp saved).map (manifestEntry src))) := by
  rcases List.mem_append.mp h with h | h
  · obtain ⟨c, hc, rfl⟩ := Option.map_eq_some_iff.mp (Option.mem_toList.mp h)
    exact Or.inl ⟨c, hc, rfl⟩
  · obtain ⟨comp, -, hx⟩ := List.mem_filterMap.mp h
    refine Or.inr ⟨comp, ?_⟩
    split at hx
    · cases hx
    · next f fs hsaved =>
      rw [hsaved]
      exact (Option.some.inj hx).symm

theorem mem_ofComp {saved : List (Saved γ)} {f : Saved γ} :
    f ∈ ofComp comp saved ↔ f ∈ saved ∧ f.comp = comp := by
  simp [ofComp]

theorem components_verified (hsha : tools.sha256 = src.sha256) (hc : Coherent bundle.saved)
    (hu : Unpacked bundle base u) :
    ((componentsOf src bundle.db bundle.saved).forM fun f => do
      let entries ← iterate f.2
      entries.forM fun entry => verifyEntry tools base f.1 entry u) = .ok () := by
  refine forM_ok fun x hx => ?_
  rcases mem_componentsOf hx with ⟨c, hdb, rfl⟩ | ⟨comp, rfl⟩
  · obtain ⟨a, ha⟩ := hu.db c hdb
    refine forM_ok fun entry hentry => ?_
    obtain rfl := List.mem_singleton.mp hentry
    have hplace : joinPath (joinPath base "db") "sysible.db" = base ++ ["db", "sysible.db"] :=
      List.append_assoc base ["db"] ["sysible.db"]
    rw [← hplace] at ha
    exact verifyEntry_ok rfl (by rw [hsha]; rfl) (holds_of_get hu.wf ha)
  · refine forM_ok fun entry hentry => ?_
    obtain ⟨f, hf, rfl⟩ := List.mem_map.mp hentry
    obtain ⟨hsaved, rfl⟩ := mem_ofComp.mp hf
    obtain ⟨a, ha⟩ := hu.saved f hsaved
    have hplace : joinPath (joinPath base f.comp.name) (relText f.rel) =
        base ++ f.comp.name :: f.rel := by
      rw [joinPath_name, joinPath_relText _ (hc.good f hsaved), List.append_assoc]
      rfl
    rw [← hplace] at ha
    exact verifyEntry_ok rfl (by rw [hsha]; rfl) (holds_of_get hu.wf ha)

theorem item_components {db : Option (γ × String)} {omitted : List String}
    {saved : List (Saved γ)} :
    (item "components" (manifestOf src label now sanitize db omitted saved) >>= fieldsOf) =
      .ok (componentsOf src (db.map Prod.fst) saved) := rfl

theorem getOr_db (db : Option γ) (saved : List (Saved γ)) :
    truthy (getOr "db" .null (componentsOf src db saved)) = db.isSome := by
  cases db with
  | some c => rfl
  | none =>
    have hnone : get "db" (componentsOf src (none : Option γ) saved) = none := by
      refine List.lookup_eq_none_iff.mpr fun x hx => ?_
      rcases mem_componentsOf hx with ⟨c, hc, -⟩ | ⟨comp, rfl⟩
      · cases hc
      · cases comp <;> rfl
    rw [getOr, hnone]
    rfl

end RestoreBackup
