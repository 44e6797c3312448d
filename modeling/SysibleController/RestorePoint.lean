import SysibleController.PathResolution

/-! The walk that captures a restore point (`_rp_walk` in `host_agent/agent.py`). Roots and
exclusions are absolute paths; a manifest entry leaves its path as components. -/
namespace RestorePoint

open PosixTree

inductive Payload where
  | dir
  | link (target : String)
  | file (size : ℕ) (sha256 : String)
  deriving DecidableEq

structure Entry where
  path : Path
  mode : ℕ
  uid : ℕ
  gid : ℕ
  payload : Payload
  deriving DecidableEq

def Entry.isDir (e : Entry) : Bool := e.payload = .dir

/-- `RP_NEVER` and `RP_MAX_FILE`, and what the walk asks of a file's bytes. -/
structure Settings (γ : Type) where
  never : List Path
  maxFile : ℕ
  size : γ → ℕ
  sha256 : γ → String

variable {γ : Type} (cfg : Settings γ) (t : PosixTree.Tree γ)

def rpExcluded (p : Path) : Bool := cfg.never.any fun pref => pref.isPrefixOf p

def dirEntry (p : Path) (node : Node γ) : Entry :=
  ⟨p, node.attrs.mode, node.attrs.uid, node.attrs.gid, .dir⟩

/-- What the walk records for a name that does not lead to a directory. -/
def fileEntry (p : Path) : Option Entry :=
  if rpExcluded cfg p then none
  else match lstat t p with
    | .ok (.link a target) => some ⟨p, 0o777, a.uid, a.gid, .link target⟩
    | .ok (.file a c true) =>
      if cfg.maxFile < cfg.size c then none
      else some ⟨p, a.mode, a.uid, a.gid, .file (cfg.size c) (cfg.sha256 c)⟩
    | _ => none

/-- `os.walk` below one directory, at most `k` levels deep. -/
def walkBelow : ℕ → Path → List Entry
  | 0, _ => []
  | k + 1, dirpath =>
    match listdir t dirpath with
    | .error _ => []
    | .ok names =>
      let dirnames := names.filter fun n => isdir t (dirpath ++ [n])
      let filenames := names.filter fun n => !isdir t (dirpath ++ [n])
      let here := match lstat t dirpath with
        | .ok node => dirEntry dirpath node ::
            filenames.filterMap fun n => fileEntry cfg t (dirpath ++ [n])
        | .error _ => []
      here ++ (dirnames.filter fun n => !rpExcluded cfg (dirpath ++ [n]) &&
        !islink t (dirpath ++ [n])).flatMap fun n => walkBelow k (dirpath ++ [n])

/-- One more than the longest path of the tree has components. -/
def depth : ℕ := (t.nodes.keys.map List.length).foldr max 0 + 1

def rpWalk (roots : List Path) : List Entry :=
  (roots.filter fun r => !rpExcluded cfg r && pathExists t r).flatMap fun r =>
    walkBelow cfg t (depth t) r

end RestorePoint
