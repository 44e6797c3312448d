import Mathlib.Data.List.AList
import Mathlib.Data.Nat.Bitwise

/-! A POSIX file tree as a process with root's privileges sees it: directories, regular files,
symbolic links and special files under absolute paths, path resolution with the kernel's bound
on links, and the system calls on them. Hard links, times and full disks are left out; a file
may be unreadable and a directory unlistable for reasons of the medium. -/
namespace PosixTree

abbrev Name := String

/-- Components from the root of the tree; `[]` is the root. -/
abbrev Path := List Name

structure Attrs where
  mode : ℕ
  uid : ℕ
  gid : ℕ
  deriving DecidableEq

inductive Special where
  | fifo
  | socket
  | device
  deriving DecidableEq

inductive Node (γ : Type) where
  | dir (attrs : Attrs) (listable : Bool)
  | file (attrs : Attrs) (content : γ) (readable : Bool)
  | link (attrs : Attrs) (target : String)
  | special (attrs : Attrs) (kind : Special)
  deriving DecidableEq

structure Tree (γ : Type) where
  nodes : AList fun _ : Path => Node γ

inductive Errno where
  | noent
  | exist
  | notdir
  | isdir
  | loop
  | xdev
  | acces
  | nxio
  | sameFile
  | specialFile
  deriving DecidableEq

/-- What a call needs to know beside the tree: the process's umask, and which device a
directory is on. -/
structure Host where
  umask : ℕ
  device : Path → ℕ

variable {γ : Type}

def Tree.get (t : Tree γ) (p : Path) : Option (Node γ) := t.nodes.lookup p

def Tree.put (t : Tree γ) (p : Path) (node : Node γ) : Tree γ := ⟨t.nodes.insert p node⟩

def Tree.drop (t : Tree γ) (p : Path) : Tree γ := ⟨t.nodes.erase p⟩

@[simp] theorem Tree.get_put (t : Tree γ) (p q : Path) (node : Node γ) :
    (t.put p node).get q = if q = p then some node else t.get q := by
  split
  · next h => subst h; exact AList.lookup_insert _
  · next h => exact AList.lookup_insert_ne h

@[simp] theorem Tree.get_drop (t : Tree γ) (p q : Path) :
    (t.drop p).get q = if q = p then none else t.get q := by
  split
  · next h => subst h; exact AList.lookup_erase _ _
  · next h => exact AList.lookup_erase_ne h

theorem Tree.mem_keys {t : Tree γ} {p : Path} : p ∈ t.nodes.keys ↔ t.get p ≠ none := by
  rw [← AList.mem_keys, ← AList.lookup_isSome]
  exact Option.ne_none_iff_isSome.symm

def Node.attrs : Node γ → Attrs
  | .dir a _ => a
  | .file a _ _ => a
  | .link a _ => a
  | .special a _ => a

def Node.setAttrs (a : Attrs) : Node γ → Node γ
  | .dir _ l => .dir a l
  | .file _ c r => .file a c r
  | .link _ target => .link a target
  | .special _ k => .special a k

def Node.isDir : Node γ → Bool
  | .dir _ _ => true
  | _ => false

def Node.isLink : Node γ → Bool
  | .link _ _ => true
  | _ => false

/-! ### Path resolution -/

def isAbsolute (target : String) : Bool := target.toList.head? = some '/'

def linkParts (target : String) : List Name := (target.toList.splitOn '/').map String.ofList

/-- Where the target of a link that stands in `dir` starts. -/
def linkBase (dir : Path) (target : String) : Path := if isAbsolute target then [] else dir

/-- Walks along components until the first link, which `jump` continues from. -/
def walkWith (t : Tree γ) (follow : Bool) (jump : Path → List Name → Except Errno Path) :
    Path → List Name → Except Errno Path
  | cur, [] => .ok cur
  | cur, c :: rest =>
    if c = "" ∨ c = "." then walkWith t follow jump cur rest
    else if c = ".." then walkWith t follow jump cur.dropLast rest
    else match t.get (cur ++ [c]) with
      | some (.dir _ _) => walkWith t follow jump (cur ++ [c]) rest
      | some (.link _ target) =>
        if rest = [] ∧ follow = false then .ok (cur ++ [c])
        else jump (linkBase cur target) (linkParts target ++ rest)
      | some _ => if rest = [] then .ok (cur ++ [c]) else .error .notdir
      | none => if rest = [] then .ok (cur ++ [c]) else .error .noent

/-- Resolution with at most `n` links on the way. -/
def resolve (t : Tree γ) (follow : Bool) : ℕ → Path → List Name → Except Errno Path
  | 0 => walkWith t follow fun _ _ => .error .loop
  | n + 1 => walkWith t follow (resolve t follow n)

def maxLinks : ℕ := 40

/-- The place a path leads to; a missing last component is no error yet. -/
def locate (t : Tree γ) (follow : Bool) (p : Path) : Except Errno Path :=
  resolve t follow maxLinks [] p

def nodeAt (t : Tree γ) (follow : Bool) (p : Path) : Except Errno (Node γ) := do
  match t.get (← locate t follow p) with
  | some node => .ok node
  | none => .error .noent

def lstat (t : Tree γ) (p : Path) : Except Errno (Node γ) := nodeAt t false p

def stat (t : Tree γ) (p : Path) : Except Errno (Node γ) := nodeAt t true p

def pathExists (t : Tree γ) (p : Path) : Bool := (stat t p).isOk

def isdir (t : Tree γ) (p : Path) : Bool :=
  match stat t p with
  | .ok node => node.isDir
  | .error _ => false

def islink (t : Tree γ) (p : Path) : Bool :=
  match lstat t p with
  | .ok node => node.isLink
  | .error _ => false

/-! ### Reading -/

/-- The name of `q` below `p`. -/
def childName (p q : Path) : Option Name :=
  if q.dropLast = p then q.getLast? else none

def names (t : Tree γ) (p : Path) : List Name := t.nodes.keys.filterMap (childName p)

def listdir (t : Tree γ) (p : Path) : Except Errno (List Name) := do
  let q ← locate t true p
  match t.get q with
  | some (.dir _ true) => .ok (names t q)
  | some (.dir _ false) => .error .acces
  | some _ => .error .notdir
  | none => .error .noent

/-- Reading a device is taken to fail, as reading a socket does. -/
def readFile (t : Tree γ) (p : Path) : Except Errno γ := do
  match ← stat t p with
  | .file _ c true => .ok c
  | .file _ _ false => .error .acces
  | .dir _ _ => .error .isdir
  | _ => .error .nxio

/-! ### System calls that change the tree -/

def chmod (p : Path) (mode : ℕ) (t : Tree γ) : Except Errno (Tree γ) := do
  let q ← locate t true p
  match t.get q with
  | some node => .ok (t.put q (node.setAttrs { node.attrs with mode := mode }))
  | none => .error .noent

/-- The set-id bits of a regular file do not survive a change of its owner. -/
def chown (p : Path) (uid gid : ℕ) (t : Tree γ) : Except Errno (Tree γ) := do
  let q ← locate t true p
  match t.get q with
  | some (.file a c r) => .ok (t.put q (.file ⟨a.mode % 0o2000, uid, gid⟩ c r))
  | some node => .ok (t.put q (node.setAttrs ⟨node.attrs.mode, uid, gid⟩))
  | none => .error .noent

def unlink (p : Path) (t : Tree γ) : Except Errno (Tree γ) := do
  let q ← locate t false p
  match t.get q with
  | some (.dir _ _) => .error .isdir
  | some _ => .ok (t.drop q)
  | none => .error .noent

def symlink (target : String) (p : Path) (t : Tree γ) : Except Errno (Tree γ) := do
  let q ← locate t false p
  match t.get q with
  | some _ => .error .exist
  | none => if target = "" then .error .noent else .ok (t.put q (.link ⟨0o777, 0, 0⟩ target))

def attrsOf (t : Tree γ) (p : Path) : Attrs := ((t.get p).map Node.attrs).getD ⟨0, 0, 0⟩

/-- A new object belongs to root, and to the group of a parent with the set-group bit, which a
new directory also inherits. -/
def newDir (host : Host) (parent : Attrs) : Attrs :=
  let inherits := parent.mode.testBit 10
  ⟨0o777 - (0o777 &&& host.umask) + (if inherits then 0o2000 else 0), 0,
    if inherits then parent.gid else 0⟩

def newFile (host : Host) (parent : Attrs) : Attrs :=
  ⟨0o666 - (0o666 &&& host.umask), 0, if parent.mode.testBit 10 then parent.gid else 0⟩

def mkdir (host : Host) (p : Path) (t : Tree γ) : Except Errno (Tree γ) := do
  let q ← locate t false p
  match t.get q with
  | some _ => .error .exist
  | none => .ok (t.put q (.dir (newDir host (attrsOf t q.dropLast)) true))

/-- Opens for writing, creating or truncating, and writes; what was written can be read. A
device takes the bytes. -/
def writeFile (host : Host) (p : Path) (c : γ) (t : Tree γ) : Except Errno (Tree γ) := do
  let q ← locate t true p
  match t.get q with
  | none => .ok (t.put q (.file (newFile host (attrsOf t q.dropLast)) c true))
  | some (.file a _ _) => .ok (t.put q (.file a c true))
  | some (.special _ .device) => .ok t
  | some (.dir _ _) => .error .isdir
  | some _ => .error .nxio

/-- `rename` of an object that is no directory; nothing modelled moves a directory. -/
def rename (host : Host) (src dst : Path) (t : Tree γ) : Except Errno (Tree γ) := do
  let s ← locate t false src
  let d ← locate t false dst
  match t.get s, t.get d with
  | none, _ => .error .noent
  | some (.dir _ _), _ => .error .isdir
  | some node, target =>
    if host.device s.dropLast ≠ host.device d.dropLast then .error .xdev
    else if target.any Node.isDir then .error .isdir
    else .ok ((t.drop s).put d node)

/-! ### Well-formed trees -/

def ValidName (n : Name) : Prop := n ≠ "" ∧ n ≠ "." ∧ n ≠ ".."

instance (n : Name) : Decidable (ValidName n) := inferInstanceAs (Decidable (_ ∧ _))

def DirAt (t : Tree γ) (p : Path) : Prop := ∃ a l, t.get p = some (.dir a l)

structure WellFormed (t : Tree γ) : Prop where
  root : DirAt t []
  parent : ∀ p n, t.get (p ++ [n]) ≠ none → DirAt t p
  names : ∀ p n, t.get (p ++ [n]) ≠ none → ValidName n
  targets : ∀ p a target, t.get p = some (.link a target) → target ≠ ""

/-- Well-formedness, looked up place by place. -/
def Tree.check (t : Tree γ) : Bool :=
  (t.get []).any Node.isDir && t.nodes.keys.all fun p =>
    (p = [] || (t.get p.dropLast).any Node.isDir && decide (ValidName (p.getLastD ""))) &&
      match t.get p with
      | some (.link _ target) => target ≠ ""
      | _ => true

theorem dirAt_of_any {t : Tree γ} {p : Path} (h : (t.get p).any Node.isDir = true) :
    DirAt t p := by
  cases hget : t.get p with
  | none =>
    rw [hget] at h
    cases h
  | some node =>
    rw [hget] at h
    cases node with
    | dir a l => exact ⟨a, l, hget⟩
    | file | link | special => cases h

theorem wellFormed_of_check {t : Tree γ} (h : t.check = true) : WellFormed t := by
  simp only [Tree.check, Bool.and_eq_true, List.all_eq_true, Bool.or_eq_true,
    decide_eq_true_eq] at h
  obtain ⟨hroot, hall⟩ := h
  have hkey : ∀ p, t.get p ≠ none → p ∈ t.nodes.keys := fun p => Tree.mem_keys.mpr
  refine ⟨dirAt_of_any hroot, ?_, ?_, ?_⟩
  · intro p n hget
    obtain ⟨hp, -⟩ := hall _ (hkey _ hget)
    have := (hp.resolve_left (by simp)).1
    rw [List.dropLast_concat] at this
    exact dirAt_of_any this
  · intro p n hget
    obtain ⟨hp, -⟩ := hall _ (hkey _ hget)
    simpa using (hp.resolve_left (by simp)).2
  · intro p a target hget
    obtain ⟨-, htarget⟩ := hall p (hkey p (by simp [hget]))
    rw [hget] at htarget
    simpa using htarget

structure FileSystem (γ : Type) where
  tree : Tree γ
  wf : WellFormed tree

end PosixTree
