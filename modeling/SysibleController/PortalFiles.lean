import SysibleController.Interleaving
import SysibleController.PastTrace
import SysibleController.PathText
import Mathlib.Logic.Function.Basic

/-! The shared file pools of the portal (`portal_files.py`): saves and deletions cut at their file
system steps, any number of them at once. A save looks for a name that is free, one existence
check at a time, and writes in a later step; a write may also fail, with a part of the file left
behind or without one. -/
namespace PortalFiles

open PathText TransitionSystem Interleaving PastTrace

/-- What `safe_filename` lets through: an invalid name cannot be stored. -/
abbrev Name := {n : Text // IsName n}

abbrev Data := List UInt8

/-- The files of the machine by their absolute path. -/
abbrev Disk := Text → Option Data

inductive Area where
  | uploads
  | downloads
  deriving DecidableEq

/-- `Path(name).name`: the last component that is not empty and not a dot. -/
def pathName (filename : Text) : Text :=
  ((filename.splitOn '/').filter fun x => x ≠ [] && x ≠ ['.']).getLast?.getD []

theorem pathName_slashless (filename : Text) : '/' ∉ pathName filename := by
  rw [pathName]
  cases h : ((filename.splitOn '/').filter fun x => x ≠ [] && x ≠ ['.']).getLast? with
  | none => exact List.not_mem_nil
  | some x =>
    exact Splitting.sep_notMem (List.mem_filter.mp (List.mem_of_getLast? h)).1

/-- `safe_filename`; nothing is its `InvalidFilename`. -/
def safeFilename (filename : Text) : Option Name :=
  if h : pathName filename ∉ [[], ['.'], ['.', '.']] then
    some ⟨pathName filename, by
      simp only [List.mem_cons, List.not_mem_nil, or_false, not_or] at h
      exact ⟨h.1, h.2.1, h.2.2, pathName_slashless filename⟩⟩
  else none

/-! ### Names with a number -/

/-- `PurePath.suffix`: from the last dot on, unless it is the first or the last character. -/
def suffix (n : Text) : Text :=
  let front := n.rdropWhile (· ≠ '.')
  if front.length ≤ 1 ∨ front = n then [] else n.drop (front.length - 1)

def stem (n : Text) : Text := n.take (n.length - (suffix n).length)

def numbered (n : Text) (k : ℕ) : Text :=
  stem n ++ " (".toList ++ Nat.toDigits 10 k ++ [')'] ++ suffix n

theorem mem_of_mem_suffix {n : Text} {c : Char} (h : c ∈ suffix n) : c ∈ n := by
  simp only [suffix] at h
  split at h
  · cases h
  · exact List.mem_of_mem_drop h

theorem isName_numbered {n : Text} (hn : IsName n) (k : ℕ) : IsName (numbered n k) := by
  have hparen : ')' ∈ numbered n k := by simp [numbered]
  refine ⟨?_, ?_, ?_, ?_⟩
  · exact List.ne_nil_of_mem hparen
  · intro h
    rw [h] at hparen
    revert hparen
    decide
  · intro h
    rw [h] at hparen
    revert hparen
    decide
  · intro h
    simp only [numbered, List.mem_append] at h
    rcases h with (((h | h) | h) | h) | h
    · exact hn.slashless (List.mem_of_mem_take h)
    · revert h
      decide
    · have hdigit := Nat.isDigit_of_mem_toDigits (b := 10) (by omega) (by omega) h
      revert hdigit
      decide
    · revert h
      decide
    · exact hn.slashless (mem_of_mem_suffix h)

/-- The names that a save tries one after the other. -/
def candidate (n : Name) : ℕ → Name
  | 0 => n
  | k + 1 => ⟨numbered n.1 (k + 1), isName_numbered n.2 (k + 1)⟩

/-! ### The steps -/

/-- The point that a call has reached. At `first` it asks for the name itself, at `looping k` for
the `k`-th candidate; at `writing` the name was free when it asked. -/
inductive Point where
  | first (area : Area) (name : Name) (data : Data)
  | looping (area : Area) (name : Name) (data : Data) (k : ℕ)
  | writing (area : Area) (dest : Name) (data : Data)
  | deleting (area : Area) (name : Name)
  | unlinking (area : Area) (name : Name)

def Point.area : Point → Area
  | .first area .. | .looping area .. | .writing area .. | .deleting area _
  | .unlinking area _ => area

def save (area : Area) (filename : Text) (data : Data) : Option Point :=
  (safeFilename filename).map fun name => .first area name data

def saveUpload : Text → Data → Option Point := save .uploads
def saveDownload : Text → Data → Option Point := save .downloads

def delete (area : Area) (filename : Text) : Option Point :=
  (safeFilename filename).map (.deleting area)

def deleteUpload : Text → Option Point := delete .uploads
def deleteDownload : Text → Option Point := delete .downloads

inductive Outcome where
  | silent
  | saved (area : Area) (name : Name) (data : Data)
  | deleted (area : Area) (name : Name)

/-- How a write fails, if it does: with a part of the file left behind or without. -/
abbrev Fault := Option (Option Data)

variable (root : Text)

def directory : Area → Text
  | .uploads => root ++ "/uploads".toList
  | .downloads => root ++ "/downloads".toList

def path (area : Area) (name : Name) : Text := directory root area ++ '/' :: name.1

def put (disk : Disk) (area : Area) (name : Name) (content : Option Data) : Disk :=
  Function.update disk (path root area name) content

def next (fault : Fault) (disk : Disk) : Point → Disk × Outcome × Option Point
  | .first area name data =>
    if (disk (path root area name)).isSome then (disk, .silent, some (.looping area name data 0))
    else (disk, .silent, some (.writing area name data))
  | .looping area name data k =>
    if (disk (path root area (candidate name k))).isSome then
      (disk, .silent, some (.looping area name data (k + 1)))
    else (disk, .silent, some (.writing area (candidate name k) data))
  | .writing area dest data =>
    match fault with
    | none => (put root disk area dest (some data), .saved area dest data, none)
    | some none => (disk, .silent, none)
    | some (some part) => (put root disk area dest (some part), .silent, none)
  | .deleting area name =>
    if (disk (path root area name)).isSome then (disk, .silent, some (.unlinking area name))
    else (disk, .silent, none)
  | .unlinking area name =>
    if (disk (path root area name)).isSome then
      (put root disk area name none, .deleted area name, none)
    else (disk, .silent, none)

/-- A call enters with any file name that `safe_filename` lets through. -/
def Enters (th : Point) : Prop :=
  (∃ filename data, saveUpload filename data = some th ∨ saveDownload filename data = some th) ∨
    ∃ filename, deleteUpload filename = some th ∨ deleteDownload filename = some th

def portal : Program Disk Point Outcome :=
  ⟨Enters, fun disk th outcome disk' th' =>
    ∃ fault, next root fault disk th = (disk', outcome, th')⟩

/-! ### What a run keeps -/

abbrev Step := Event Point Outcome

def Saved (area : Area) (name : Name) (data : Data) (e : Step) : Prop :=
  ∃ th, e = .act th (.saved area name data)

def Deleted (area : Area) (name : Name) (e : Step) : Prop :=
  ∃ th, e = .act th (.deleted area name)

/-- The name was returned by a save, with this content, and was not deleted since. -/
def Live (area : Area) (name : Name) (data : Data) (trace : List Step) : Prop :=
  Since (fun e => ¬Deleted area name e) (Saved area name data) trace

structure NothingLost (start : Disk) (trace : List Step) (disk : Disk) : Prop where
  stored : ∀ area name data, Live area name data trace → disk (path root area name) = some data
  apart : AtEach (fun past e => ∀ area name data data', Saved area name data e →
    ¬Live area name data' past) trace
  outside : ∀ x, (∀ th, .call th ∈ trace → ∀ name, x ≠ path root th.area name) → disk x = start x

/-- A write goes to a name that is still free. -/
def FreeAtWrite (p : Pool Disk Point) : Step → Prop
  | .act (.writing area dest _) _ => p.shared (path root area dest) = none
  | _ => True

variable {root} {disk disk' : Disk} {area area' : Area} {name name' : Name} {x : Text}

theorem path_inj : path root area name = path root area' name' ↔ area = area' ∧ name = name' := by
  constructor
  · intro h
    cases area <;> cases area' <;>
      simp only [path, directory, List.append_assoc, List.append_cancel_left_eq] at h
    · exact ⟨rfl, Subtype.ext (List.cons_injective h)⟩
    · exact absurd h (by simp)
    · exact absurd h (by simp)
    · exact ⟨rfl, Subtype.ext (List.cons_injective h)⟩
  · rintro ⟨rfl, rfl⟩
    rfl

theorem put_same (content : Option Data) :
    put root disk area name content (path root area name) = content :=
  Function.update_self ..

theorem put_other {content : Option Data} (h : x ≠ path root area name) :
    put root disk area name content x = disk x :=
  Function.update_of_ne h ..

/-- All that an action can do. -/
inductive Acts (root : Text) (disk : Disk) : Point → Outcome → Disk → Prop where
  | looks (th : Point) : Acts root disk th .silent disk
  | saves (area : Area) (dest : Name) (data : Data) :
    Acts root disk (.writing area dest data) (.saved area dest data)
      (put root disk area dest (some data))
  | breaks (area : Area) (dest : Name) (data part : Data) :
    Acts root disk (.writing area dest data) .silent (put root disk area dest (some part))
  | unlinks (area : Area) (name : Name) :
    Acts root disk (.unlinking area name) (.deleted area name) (put root disk area name none)

theorem next_acts {fault : Fault} {th : Point} {outcome : Outcome} {th' : Option Point}
    (h : next root fault disk th = (disk', outcome, th')) :
    Acts root disk th outcome disk' ∧ ∀ y ∈ th', y.area = th.area := by
  cases th with
  | first area name data =>
    simp only [next] at h
    split at h <;> cases h <;> exact ⟨.looks _, by rintro y ⟨⟩; rfl⟩
  | looping area name data k =>
    simp only [next] at h
    split at h <;> cases h <;> exact ⟨.looks _, by rintro y ⟨⟩; rfl⟩
  | writing area dest data =>
    rcases fault with - | - | part <;> cases h
    · exact ⟨.saves .., nofun⟩
    · exact ⟨.looks _, nofun⟩
    · exact ⟨.breaks .., nofun⟩
  | deleting area name =>
    simp only [next] at h
    split at h <;> cases h
    · exact ⟨.looks _, by rintro y ⟨⟩; rfl⟩
    · exact ⟨.looks _, nofun⟩
  | unlinking area name =>
    simp only [next] at h
    split at h <;> cases h
    · exact ⟨.unlinks .., nofun⟩
    · exact ⟨.looks _, nofun⟩

/-! ### Names that live -/

variable {trace : List Step} {data data' : Data} {th : Point}

theorem live_silent (e : Step) (he : ∀ area name data, ¬Saved area name data e)
    (hd : ∀ area name, ¬Deleted area name e) :
    Live area name data (trace ++ [e]) ↔ Live area name data trace :=
  since_snoc_of_neutral (he _ _ _) (hd _ _)

theorem live_saved : Live area name data (trace ++ [.act th (.saved area' name' data')]) ↔
    (area = area' ∧ name = name' ∧ data = data') ∨ Live area name data trace := by
  rw [Live, since_snoc]
  constructor
  · rintro (⟨_, h⟩ | ⟨h, -⟩)
    · cases h
      exact .inl ⟨rfl, rfl, rfl⟩
    · exact .inr h
  · rintro (⟨rfl, rfl, rfl⟩ | h)
    · exact .inl ⟨_, rfl⟩
    · exact .inr ⟨h, by rintro ⟨_, h⟩; cases h⟩

theorem live_deleted : Live area name data (trace ++ [.act th (.deleted area' name')]) ↔
    Live area name data trace ∧ ¬(area = area' ∧ name = name') := by
  rw [Live, since_snoc]
  constructor
  · rintro (⟨_, h⟩ | ⟨h, hkeep⟩)
    · cases h
    · exact ⟨h, by rintro ⟨rfl, rfl⟩; exact hkeep ⟨_, rfl⟩⟩
  · rintro ⟨h, hne⟩
    exact .inr ⟨h, by rintro ⟨_, h⟩; cases h; exact hne ⟨rfl, rfl⟩⟩

/-! ### The run -/

/-- What is known of a run: the claim about its trace and its disk, and that every thread stands in
an area of a call. -/
structure Known (root : Text) (start : Disk) (trace : List Step) (p : Pool Disk Point) : Prop where
  kept : NothingLost root start trace p.shared
  called : ∀ th ∈ p.threads, ∃ c, .call c ∈ trace ∧ c.area = th.area

variable {start : Disk}

/-- A step that changes nothing on the disk and ends no call with an answer. -/
theorem NothingLost.silent (h : NothingLost root start trace disk) {e : Step}
    (he : ∀ area name data, ¬Saved area name data e) (hd : ∀ area name, ¬Deleted area name e) :
    NothingLost root start (trace ++ [e]) disk := by
  refine ⟨?_, atEach_snoc.mpr ⟨h.apart, fun _ _ _ _ hs => absurd hs (he _ _ _)⟩, ?_⟩
  · intro area name data hlive
    exact h.stored _ _ _ ((live_silent e he hd).mp hlive)
  · intro x hx
    exact h.outside x fun th hth => hx th (List.mem_append_left _ hth)

/-- A write to a free name puts no file of a live name at risk. -/
theorem NothingLost.free (h : NothingLost root start trace disk)
    (hfree : disk (path root area name) = none) : ¬Live area name data trace := by
  intro hlive
  rw [h.stored _ _ _ hlive] at hfree
  cases hfree

theorem NothingLost.act (h : NothingLost root start trace disk) {outcome : Outcome}
    (hact : Acts root disk th outcome disk') (hcall : ∃ c, .call c ∈ trace ∧ c.area = th.area)
    (hfree : ∀ area dest data, th = .writing area dest data →
      disk (path root area dest) = none) :
    NothingLost root start (trace ++ [.act th outcome]) disk' := by
  have houtside (area : Area) (name : Name) (content : Option Data) (harea : area = th.area)
      (x : Text) (hx : ∀ c, .call c ∈ trace ++ [.act th outcome] → ∀ n, x ≠ path root c.area n) :
      put root disk area name content x = start x := by
    obtain ⟨c, hc, hsame⟩ := hcall
    rw [put_other, h.outside x fun c hc => hx c (List.mem_append_left _ hc)]
    have hne := hx c (List.mem_append_left _ hc) name
    rwa [hsame, ← harea] at hne
  cases hact with
  | looks => exact h.silent (by rintro _ _ _ ⟨_, h⟩; cases h) (by rintro _ _ ⟨_, h⟩; cases h)
  | saves area dest data =>
    have hdest := hfree area dest data rfl
    refine ⟨?_, atEach_snoc.mpr ⟨h.apart, ?_⟩, fun x => houtside area dest _ rfl x⟩
    · intro area' name' data' hlive
      rcases live_saved.mp hlive with ⟨rfl, rfl, rfl⟩ | hbefore
      · exact put_same _
      · rw [put_other, h.stored _ _ _ hbefore]
        intro hpath
        obtain ⟨rfl, rfl⟩ := path_inj.mp hpath
        exact h.free hdest hbefore
    · rintro area' name' data' data'' ⟨_, hsaved⟩
      cases hsaved
      exact h.free hdest
  | breaks area dest data part =>
    have hdest := hfree area dest data rfl
    have hsilent : NothingLost root start
        (trace ++ [.act (.writing area dest data) .silent]) disk :=
      h.silent (by rintro _ _ _ ⟨_, h⟩; cases h) (by rintro _ _ ⟨_, h⟩; cases h)
    refine ⟨?_, hsilent.apart, fun x => houtside area dest _ rfl x⟩
    intro area' name' data' hlive
    rw [put_other, hsilent.stored _ _ _ hlive]
    intro hpath
    obtain ⟨rfl, rfl⟩ := path_inj.mp hpath
    exact hsilent.free hdest hlive
  | unlinks area name =>
    refine ⟨?_, atEach_snoc.mpr ⟨h.apart, ?_⟩, fun x => houtside area name _ rfl x⟩
    · intro area' name' data' hlive
      obtain ⟨hlive, hne⟩ := live_deleted.mp hlive
      rw [put_other, h.stored _ _ _ hlive]
      exact fun hpath => hne (path_inj.mp hpath)
    · rintro area' name' data' data'' ⟨_, hsaved⟩
      cases hsaved

theorem Known.step {p q : Pool Disk Point} {e : Step} (h : Known root start trace p)
    (st : Steps (portal root) p e q) (hfree : FreeAtWrite root p e) :
    Known root start (trace ++ [e]) q := by
  have hpast {c : Point} (hc : .call c ∈ trace) : .call c ∈ trace ++ [e] :=
    List.mem_append_left _ hc
  cases st with
  | @call s ts th _ =>
    refine ⟨h.kept.silent (by rintro _ _ _ ⟨_, h⟩; cases h) (by rintro _ _ ⟨_, h⟩; cases h), ?_⟩
    intro y hy
    rcases List.mem_cons.mp hy with rfl | hy
    · exact ⟨y, by simp, rfl⟩
    · obtain ⟨c, hc, harea⟩ := h.called y hy
      exact ⟨c, hpast hc, harea⟩
  | @act s s' pre post th th' outcome hact =>
    obtain ⟨fault, hnext⟩ := hact
    obtain ⟨hacts, hareas⟩ := next_acts hnext
    have hcall := h.called th (by simp)
    refine ⟨h.kept.act hacts hcall ?_, ?_⟩
    · rintro area dest data rfl
      exact hfree
    · intro y hy
      rcases mem_moved th hy with hown | hy
      · obtain ⟨c, hc, harea⟩ := hcall
        exact ⟨c, hpast hc, harea.trans (hareas y hown).symm⟩
      · obtain ⟨c, hc, harea⟩ := h.called y hy
        exact ⟨c, hpast hc, harea⟩

def noFiles : Disk := fun _ => none

def report : Name := ⟨"report.txt".toList, by decide, by decide, by decide, by decide⟩

def uploading (data : Data) : Point := .first .uploads report data

theorem uploading_enters (data : Data) : Enters (uploading data) :=
  .inl ⟨"in/report.txt".toList, data, .inl rfl⟩

abbrev srv : Text := "/srv".toList

def uploaded : List Step :=
  [.call (uploading [1]), .act (uploading [1]) .silent,
    .act (.writing .uploads report [1]) (.saved .uploads report [1])]

def uploadedDisk (data : Data) : Disk := put srv noFiles .uploads report (some data)

theorem calls (disk : Disk) (ths : List Point) (data : Data) : Steps (portal srv) ⟨disk, ths⟩
    (.call (uploading data)) ⟨disk, uploading data :: ths⟩ := .call (uploading_enters data)

theorem finds_free (ths : List Point) (data : Data) : Steps (portal srv)
    ⟨noFiles, uploading data :: ths⟩ (.act (uploading data) .silent)
    ⟨noFiles, .writing .uploads report data :: ths⟩ := .first ⟨none, rfl⟩

theorem writes (disk : Disk) (ths : List Point) (data : Data) : Steps (portal srv)
    ⟨disk, .writing .uploads report data :: ths⟩
    (.act (.writing .uploads report data) (.saved .uploads report data))
    ⟨put srv disk .uploads report (some data), ths⟩ := .first_ends ⟨none, rfl⟩

/-- Two hosts send a file of the same name, and both look before either writes. -/
def sentTwice : List Step :=
  [.call (uploading [1]), .act (uploading [1]) .silent, .call (uploading [2]),
    .act (uploading [2]) .silent,
    .act (.writing .uploads report [2]) (.saved .uploads report [2]),
    .act (.writing .uploads report [1]) (.saved .uploads report [1])]

end PortalFiles
