import SysibleController.PosixPrograms
import SysibleController.RestorePoint
import Mathlib.Data.Char
import Mathlib.Data.List.Lex
import Mathlib.Data.List.Sort

/-! The offline apply of a staged restore point (`apply_staged` in
`host_agent/flashback_restore.py`) on the root of the machine. -/
namespace FlashbackRestore

open AtomicSteps Prog PosixTree RestorePoint

structure Tally where
  wrote : ℕ
  displaced : ℕ
  errors : List (Path × Errno)

def Tally.ok (out : Tally) : Bool := out.errors.isEmpty

/-- How the job's own files are read and written. -/
structure Codec (γ : Type) where
  manifest : γ → Option (List Entry)
  result : Tally → γ

inductive Raised where
  | os (e : Errno)
  | notStaged
  | badManifest

def systemUpdateLink : Path := ["system-update"]

variable {γ : Type} {δ : Type} (host : Host) (job : Path)

def orDefault (mode default : ℕ) : ℕ := if mode = 0 then default else mode

/-- The temporary name in the final directory. -/
def sysibleNew (p : Path) : Path := p.dropLast ++ [p.getLastD "" ++ ".sysible-new"]

/-- One entry of the manifest; the number of objects written. -/
def restoreEntry (e : Entry) : FsM γ ℕ := do
  match e.payload with
  | .dir =>
    makedirs host e.path
    step (chmod e.path (orDefault e.mode 0o755))
    return 0
  | .link target =>
    makedirs host e.path.dropLast
    if ← ask fun t => islink t e.path || pathExists t e.path then step (unlink e.path)
    step (symlink target e.path)
    return 1
  | .file _ _ =>
    makedirs host e.path.dropLast
    copyfile host (job ++ "tree" :: e.path) (sysibleNew e.path)
    let _ ← attempt (step (chown (sysibleNew e.path) e.uid e.gid))
    step (chmod (sysibleNew e.path) (orDefault e.mode 0o644))
    step (rename host (sysibleNew e.path) e.path)
    return 1

def applyEntry (out : Tally) (e : Entry) : Prog (PosixTree.Tree γ) δ Tally := do
  if e.path = [] then return out
  match ← attempt (restoreEntry host job e) with
  | .ok wrote => return { out with wrote := out.wrote + wrote }
  | .error exc => return { out with errors := out.errors ++ [(e.path, exc)] }

/-- The text of a path, by which entries and extras are sorted. -/
def text (p : Path) : List Char := p.flatMap fun n => '/' :: n.toList

def entryLE (a b : Entry) : Prop :=
  (a.isDir = true ∧ b.isDir = false) ∨ (a.isDir = b.isDir ∧ text a.path ≤ text b.path)

instance : DecidableRel entryLE := fun _ _ => inferInstanceAs (Decidable (_ ∨ _))

/-- Directories first, so files have somewhere to land. -/
def sortEntries (entries : List Entry) : List Entry := entries.insertionSort entryLE

/-- Objects in a captured directory that the point has no entry for. -/
def extrasUnder (t : PosixTree.Tree γ) (entries : List Entry) : List Path :=
  let want := (entries.map Entry.path).filter (· ≠ [])
  ((entries.filter Entry.isDir).map Entry.path).dedup.flatMap fun dir =>
    match listdir t dir with
    | .error _ => []
    | .ok names => (names.map fun n => dir ++ [n]).filter fun p =>
        p ∉ want ∧ ¬(isdir t p = true ∧ islink t p = false)

/-- Moves what is there now out of the way rather than destroying it. -/
def displace (p : Path) : FsM γ Unit := do
  makedirs host (job ++ "displaced" :: p.dropLast)
  match ← attempt (step (rename host p (job ++ "displaced" :: p))) with
  | .ok () => pure ()
  | .error _ =>
    copy2 host p (job ++ "displaced" :: p)
    step (unlink p)

def displaceExtra (out : Tally) (p : Path) : Prog (PosixTree.Tree γ) δ Tally := do
  match ← attempt (displace host job p) with
  | .ok () => return { out with displaced := out.displaced + 1 }
  | .error exc => return { out with errors := out.errors ++ [(p, exc)] }

def restoreTree (entries : List Entry) (removeExtras : Bool) : Prog (PosixTree.Tree γ) δ Tally := do
  let out ← (sortEntries entries).foldlM (applyEntry host job) ⟨0, 0, []⟩
  if removeExtras then
    let extras ← ask (extrasUnder · entries)
    (extras.insertionSort fun p q => text q ≤ text p).foldlM (displaceExtra host job) out
  else return out

/-- The trigger goes before any work. -/
def disarm (link : Path) : FsM γ Unit := do
  if ← ask fun t => islink t link || pathExists t link then step (unlink link)

def applyStaged (codec : Codec γ) (link : Path) (removeExtras : Bool) :
    Prog (PosixTree.Tree γ) Raised Tally := do
  forbid (!pathExists · (job ++ ["READY"])) .notStaged
  let _ ← attempt (disarm link)
  let m ← (query (readFile · (job ++ ["manifest.json"]))).mapError Raised.os
  match codec.manifest m with
  | none => raise .badManifest
  | some entries =>
    let out ← restoreTree host job entries removeExtras
    (step (writeFile host (job ++ ["result.json"]) (codec.result out))).mapError Raised.os
    return out

end FlashbackRestore
