import SysibleController.JsonValue
import SysibleController.PythonRepr
import SysibleController.RealPath

/-! Restoring the controller from a backup archive: its members and its manifest are checked, and
the files that the manifest names are copied from the staging directory into the roots. -/
namespace RestoreBackup

open PosixTree AtomicSteps Prog JsonValue

inductive Stop where
  | refused (why : String)
  /-- A `KeyError`, a `TypeError` or another one that the shape of the manifest gives rise to. -/
  | malformed
  | failed (err : Errno)
  /-- The `RuntimeError` for links that lead in a circle. -/
  | loop
  deriving DecidableEq

/-- The archive or its manifest is judged bad, or a database is in the way. -/
def Stop.isRefusal : Stop → Bool
  | refused _ | malformed => true
  | failed _ | loop => false

inductive Comp where
  | data
  | cert
  | run
  deriving DecidableEq

def Comp.name : Comp → String
  | data => "data"
  | cert => "cert"
  | run => "run"

structure Roots where
  db : Path
  data : Path
  cert : Path
  run : Path

def Roots.of (roots : Roots) : Comp → Path
  | .data => roots.data
  | .cert => roots.cert
  | .run => roots.run

inductive Kind where
  | file
  | dir
  | sym
  | lnk
  | dev
  deriving DecidableEq

structure Member where
  name : String
  kind : Kind

abbrev BackupM (γ : Type) := Prog (PosixTree.Tree γ) Stop

variable {γ : Type}

structure Archive (γ : Type) where
  members : List Member
  /-- `tar.extractall(dest)`. -/
  extractall : Path → FsM γ Unit

/-- What the program calls. -/
structure Tools (γ : Type) where
  host : Host
  /-- How deep Python follows links that lead into one another. -/
  depth : ℕ
  printable : Char → Bool
  sha256 : γ → String
  /-- `json.loads` -/
  loads : γ → Option Json
  /-- The first column of `PRAGMA integrity_check`. -/
  integrity : Path → BackupM γ (Option String)
  /-- `int(mode, 8) & 0o777` -/
  modeBits : String → Option ℕ

def parts (s : String) : List Name := (linkParts s).filter fun c => c ≠ "" ∧ c ≠ "."

def joinPath (p : Path) (s : String) : Path := if isAbsolute s then parts s else p ++ parts s

/-- `p == root or str(p).startswith(str(root) + os.sep)` -/
def inside (root p : Path) : Bool := p = root || (root ≠ [] && decide (root <+: p))

def lift {α : Type} (r : Except Stop α) : BackupM γ α := query fun _ => r

variable (tools : Tools γ)

def resolvePath (t : PosixTree.Tree γ) (p : Path) : Except Stop Path :=
  match realpath tools.depth t p with
  | some q => .ok q
  | none => .error .loop

def checkMember (dest : Path) (m : Member) (t : PosixTree.Tree γ) : Except Stop Unit :=
  if m.kind = .sym ∨ m.kind = .lnk ∨ m.kind = .dev then
    .error (.refused ("unsafe archive member (links/devices not allowed): " ++ m.name))
  else do
    let target ← resolvePath tools t (joinPath dest m.name)
    if !inside dest target then .error (.refused ("unsafe path in archive: " ++ m.name))

/-- The staging directory is given by its real path. -/
def safeExtract (archive : Archive γ) (dest : Path) : BackupM γ Unit := do
  query fun t => archive.members.forM fun m => checkMember tools dest m t
  (archive.extractall dest).mapError .failed

/-! ### The manifest -/

def item (key : String) : Json → Except Stop Json
  | .obj fields => (get key fields).elim (.error .malformed) .ok
  | _ => .error .malformed

def text : Json → Except Stop String
  | .str s => .ok s
  | _ => .error .malformed

def fieldsOf : Json → Except Stop (List (String × Json))
  | .obj fields => .ok fields
  | _ => .error .malformed

/-- What a `for` goes through. -/
def iterate : Json → Except Stop (List Json)
  | .arr items => .ok items
  | .obj fields => .ok (fields.map fun f => .str f.1)
  | .str s => .ok (s.toList.map fun c => .str (String.ofList [c]))
  | _ => .error .malformed

def sameText (s : String) : Json → Bool
  | .str s' => s' = s
  | _ => false

def verifyEntry (base : Path) (comp : String) (entry : Json) (t : PosixTree.Tree γ) :
    Except Stop Unit := do
  let path ← item "path" entry >>= text
  let f := joinPath (joinPath base comp) path
  if !pathExists t f then .error (.refused ("archive missing " ++ comp ++ "/" ++ path))
  let content ← (readFile t f).mapError .failed
  let digest ← item "sha256" entry
  if !sameText (tools.sha256 content) digest then
    .error (.refused ("checksum mismatch for " ++ comp ++ "/" ++ path))

def verifyArchive (base : Path) (manifest : Json) : BackupM γ Unit := do
  let components ← lift (item "components" manifest >>= fieldsOf)
  query fun t => components.forM fun f => do
    let entries ← iterate f.2
    entries.forM fun entry => verifyEntry tools base f.1 entry t
  if truthy (getOr "db" .null components) then
    let row ← tools.integrity (base ++ ["db", "sysible.db"])
    if row ≠ some "ok" then
      let shown := row.elim "None" fun first =>
        "(" ++ String.ofList (PythonRepr.repr tools.printable first.toList) ++ ",)"
      raise (.refused ("restored DB failed integrity_check: " ++ shown))

/-! ### The copies -/

/-- All that comes before the first copy. -/
def prepare (archive : Archive γ) (roots : Roots) (force verify : Bool) (staging : Path) :
    BackupM γ (Json × List (String × Json)) := do
  safeExtract tools archive staging
  let base := staging ++ ["sysible-backup"]
  let content ← (query (readFile · (base ++ ["manifest.json"]))).mapError .failed
  let manifest ← lift ((tools.loads content).elim (.error .malformed) .ok)
  if verify then verifyArchive tools base manifest
  let components ← lift (item "components" manifest >>= fieldsOf)
  if truthy (getOr "db" .null components) && !force then
    forbid (pathExists · roots.db) (.refused ("/" ++ "/".intercalate roots.db ++
      " exists; refusing to overwrite without force=True (stop the controller first)."))
  pure (manifest, components)

def restoreDb (base : Path) (roots : Roots) (components : List (String × Json)) :
    BackupM γ Unit := do
  if truthy (getOr "db" .null components) then
    (makedirs tools.host roots.db.dropLast).mapError .failed
    (copy2 tools.host (base ++ ["db", "sysible.db"]) roots.db).mapError .failed

/-- Where an entry of the manifest goes: its path, and its place within the root. -/
def place (comp : Comp) (root : Path) (entry : Json) (t : PosixTree.Tree γ) :
    Except Stop (String × Path) := do
  let rel ← item "path" entry >>= text
  let shown := String.ofList (PythonRepr.repr tools.printable rel.toList)
  if isAbsolute rel || (linkParts rel).contains ".." then
    .error (.refused ("unsafe path in manifest: " ++ shown))
  let dst ← resolvePath tools t (root ++ parts rel)
  if inside root dst then .ok (rel, dst)
  else .error (.refused ("path escapes " ++ comp.name ++ " root: " ++ shown))

/-- The mode that an entry records: a number that is no text makes `int(mode, 8)` fail. -/
def modeOf (entry : Json) : Except Stop (Option ℕ) := do
  let fields ← fieldsOf entry
  let mode := getOr "mode" .null fields
  if truthy mode then
    let s ← text mode
    .ok (tools.modeBits s)
  else .ok none

def restoreEntry (base : Path) (comp : Comp) (root : Path) (entry : Json) : BackupM γ Unit := do
  let (rel, dst) ← query (place tools comp root entry)
  (makedirs tools.host dst.dropLast).mapError .failed
  (copy2 tools.host (joinPath (base ++ [comp.name]) rel) dst).mapError .failed
  match ← lift (modeOf tools entry) with
  | some mode => do
    let _ ← attempt (step (chmod dst mode) : FsM γ Unit)
    pure ()
  | none => pure ()

def entriesOf (components : List (String × Json)) (comp : Comp) : Except Stop (List Json) :=
  iterate (getOr comp.name (.arr []) components)

def restoreComp (base : Path) (roots : Roots) (components : List (String × Json)) (comp : Comp) :
    BackupM γ Unit := do
  let root ← query (resolvePath tools · (roots.of comp))
  let entries ← lift (entriesOf components comp)
  entries.foldlM (fun _ entry => restoreEntry tools base comp root entry) ()

def restoreFiles (base : Path) (roots : Roots) (components : List (String × Json)) :
    BackupM γ Unit :=
  [Comp.data, .cert, .run].foldlM (fun _ comp => restoreComp tools base roots components comp) ()

/-- `shutil.rmtree(staging, ignore_errors=True)` -/
def rmtree (staging : Path) (t : PosixTree.Tree γ) : PosixTree.Tree γ :=
  (t.nodes.keys.filter fun p => decide (staging <+: p)).foldl PosixTree.Tree.drop t

/-- The body of the `try`. -/
def restoreStaged (archive : Archive γ) (roots : Roots) (force verify : Bool) (staging : Path) :
    BackupM γ Json := do
  let (manifest, components) ← prepare tools archive roots force verify staging
  let base := staging ++ ["sysible-backup"]
  restoreDb tools base roots components
  restoreFiles tools base roots components
  pure manifest

def restoreBackup (archive : Archive γ) (roots : Roots) (force verify : Bool) (staging : Path) :
    BackupM γ Json := do
  let result : Except Stop Json ←
    attempt (restoreStaged tools archive roots force verify staging)
  step fun t => .ok (rmtree staging t)
  lift result

end RestoreBackup
