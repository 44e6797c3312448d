import SysibleController.PathText
import SysibleController.RestoreWalk

/-! Config capture (`_fb_collect` in `host_agent/agent.py`) and the rule a restore is checked
against on the same host (`_fb_restorable`). -/
namespace FlashbackCapture

open PosixTree PathText

/-- What the agent reads its configuration and the disk's bytes by. -/
structure Settings (γ : Type) where
  fbPaths : Text
  fbExclude : Text
  fbMaxFile : ℤ
  fbMaxTotal : ℤ
  fnmatch : Text → Text → Bool
  size : γ → ℕ

/-- The host the agent runs on. No name on a disk has a slash in it. -/
structure Machine (γ : Type) extends FileSystem γ where
  slashless : ∀ p n, tree.get (p ++ [n]) ≠ none → '/' ∉ n.toList
  cwd : Path
  cwdDir : DirAt tree cwd
  /-- What `realpath` answers of a path that leads nowhere, if it does not raise. -/
  astray : Text → Option Text

variable {γ : Type} (cfg : Settings γ) (m : Machine γ)

/-- `[p for p in text.split(":") if p]`. -/
def parts (text : Text) : List Text := (text.splitOn ':').filter (· ≠ [])

def fbExcluded (path : Text) : Bool := (parts cfg.fbExclude).any (cfg.fnmatch path)

/-- The steps a path takes from the root of the tree. -/
def place (path : Text) : Path :=
  (if Absolute path then [] else m.cwd) ++ (path.splitOn '/').map String.ofList

def isfile (path : Text) : Bool :=
  match stat m.tree (place m path) with
  | .ok (.file _ _ _) => true
  | _ => false

/-- The text of a place. -/
def absText (c : Path) : Text :=
  if c = [] then ['/'] else c.flatMap fun n => '/' :: n.toList

def realpath (path : Text) : Option Text :=
  match locate m.tree true (place m path) with
  | .ok c => some (absText c)
  | .error _ => m.astray path

/-! ## Capture -/

/-- A file is kept by its bytes, of which the snapshot holds the base64 text. -/
structure Collected (γ : Type) where
  files : List (Text × γ)
  skipped : ℕ
  total : ℕ
  truncated : Bool

def base64Length (size : ℕ) : ℕ := 4 * ((size + 2) / 3)

/-- The file that is read has the size it was looked up with. -/
def add (out : Collected γ) (fp : Text) : Collected γ :=
  if out.truncated ∨ fbExcluded cfg fp then out
  else match stat m.tree (place m fp) with
    | .error _ => { out with skipped := out.skipped + 1 }
    | .ok (.file _ data readable) =>
      if cfg.fbMaxFile < cfg.size data then { out with skipped := out.skipped + 1 }
      else if readable = false then { out with skipped := out.skipped + 1 }
      else if cfg.fbMaxTotal < out.total + base64Length (cfg.size data) then
        { out with truncated := true }
      else { out with
        total := out.total + base64Length (cfg.size data)
        files := out.files ++ [(fp, data)] }
    | .ok _ => out

/-- The paths `os.walk` hands to `add`, top-down and without following links. -/
def walk : ℕ → Text → List Text
  | 0, _ => []
  | k + 1, dirpath =>
    match listdir m.tree (place m dirpath) with
    | .error _ => []
    | .ok names =>
      let paths := names.map fun n => join dirpath n.toList
      paths.filter (fun p => !isdir m.tree (place m p)) ++
        (paths.filter fun p => isdir m.tree (place m p) && !fbExcluded cfg (p ++ ['/']) &&
          !islink m.tree (place m p)).flatMap (walk k)

/-- What a root offers: itself, or the files below it. -/
def offered (root : Text) : List Text :=
  if isfile m root then [root] else walk cfg m (RestorePoint.depth m.tree) root

/-- After a truncation the walks go on or break off, and nothing is added either way. -/
def fbCollect : Collected γ :=
  ((parts cfg.fbPaths).flatMap (offered cfg m)).foldl (add cfg m) ⟨[], 0, 0, false⟩

/-! ## The rule for a restore -/

def allowed : List Text :=
  let roots := (parts cfg.fbPaths).map stripped
  roots ++ roots.filterMap fun r => (realpath m r).map stripped

def inside (cand : Text) : Bool :=
  (allowed cfg m).any fun root => cand = root || (root ++ ['/']).isPrefixOf cand

def fbRestorable (path : Text) : Except String Unit := do
  if ¬Absolute path then throw "not an absolute path"
  if normpath path ≠ path then
    throw "path is not in normal form (.. or redundant separators)"
  if fbExcluded cfg path then throw "on the never-captured exclude list"
  if parts cfg.fbPaths = [] then throw "this host tracks no config paths"
  if !inside cfg m path then throw "outside every tracked config root"
  let dir := dirname path
  match realpath m (if dir = [] then ['/'] else dir) with
  | none => throw "its directory could not be resolved"
  | some real =>
    let realParent := stripped real
    if !inside cfg m (join realParent (basename path)) then
      let parent := String.ofList realParent
      throw s!"its directory resolves outside the tracked roots ({parent})"

end FlashbackCapture
