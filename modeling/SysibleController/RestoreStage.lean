import SysibleController.FlashbackRestore
import SysibleController.RestorePoll
import SysibleController.StraightPaths
import Mathlib.Data.List.Infix

/-! Staging a restore point (`stage` in `host_agent/flashback_restore.py`) on the file tree of the
machine, and where it writes. An answer of `fetch_blob` is given for each entry by its number in
the manifest, so that it need not be the same twice. -/
namespace FlashbackStage

open AtomicSteps Prog PosixTree
open FlashbackRestore (orDefault)
open RestorePoll (Entry components partPath)

inductive Raised where
  | os (e : Errno)
  | fetch
  | digest
  | badMode

/-- The digest of a file's bytes, and what goes into the job's own files. -/
structure Settings (γ : Type) where
  sha256 : γ → String
  manifest : List Entry → γ
  staged : γ

structure Summary where
  files : ℕ
  dirs : ℕ
  links : ℕ
  fetched : ℕ
  reused : ℕ

abbrev StageM (γ : Type) := Prog (PosixTree.Tree γ) Raised

section Program

variable {γ : Type} (cfg : Settings γ) (host : Host) (job : Path)

def os {α : Type} (m : FsM γ α) : StageM γ α := m.mapError Raised.os

def chmodTo (p : Path) (mode : Option ℕ) (default : ℕ) : StageM γ Unit :=
  match mode with
  | none => raise .badMode
  | some m => os (step (chmod p (orDefault m default)))

/-- Already staged from an earlier, interrupted attempt and still correct. -/
def alreadyStaged (dest : Path) (sha : String) : StageM γ Bool := do
  if ← ask fun t => pathExists t dest && !islink t dest && sha ≠ "" then
    let c ← os (query (readFile · dest))
    return cfg.sha256 c = sha
  else return false

def fetchFile (body : Option γ) (dest : Path) (sha : String) : StageM γ Unit :=
  match body with
  | none => raise .fetch
  | some c =>
    if sha ≠ "" ∧ cfg.sha256 c ≠ sha then raise .digest
    else do
      os (step (writeFile host (partPath dest) c))
      os (step (rename host (partPath dest) dest))

inductive Kind where
  | dir
  | link
  | file
  deriving DecidableEq

/-- `(e.get("kind") or "f")[:1]`; anything but `d` and `l` is a file. -/
def kindOf (e : Entry) : Kind :=
  match e.kind.toList.head? with
  | some 'd' => .dir
  | some 'l' => .link
  | _ => .file

def dest (e : Entry) : Path := job ++ "tree" :: components e.path

def stageDir (out : Summary) (e : Entry) : StageM γ Summary := do
  os (makedirs host (dest job e))
  chmodTo (dest job e) e.mode 0o755
  return { out with dirs := out.dirs + 1 }

def stageLink (out : Summary) (e : Entry) : StageM γ Summary := do
  os (makedirs host (dest job e).dropLast)
  if ← ask fun t => islink t (dest job e) || pathExists t (dest job e) then
    os (step (unlink (dest job e)))
  os (step (symlink e.target (dest job e)))
  return { out with links := out.links + 1 }

def stageFile (body : Option γ) (out : Summary) (e : Entry) : StageM γ Summary := do
  os (makedirs host (dest job e).dropLast)
  if ← alreadyStaged cfg (dest job e) e.sha256 then
    chmodTo (dest job e) e.mode 0o644
    return { out with files := out.files + 1, reused := out.reused + 1 }
  else
    fetchFile cfg host body (dest job e) e.sha256
    chmodTo (dest job e) e.mode 0o644
    return { out with files := out.files + 1, fetched := out.fetched + 1 }

def stageEntry (body : Option γ) (out : Summary) (e : Entry) : StageM γ Summary :=
  if components e.path = [""] then return out
  else match kindOf e with
    | .dir => stageDir host job out e
    | .link => stageLink host job out e
    | .file => stageFile cfg host job body out e

/-- READY is written last and only on complete success. -/
def stage (fetchBlob : ℕ → String → Option γ) (entries : List Entry) : StageM γ Summary := do
  os (makedirs host (job ++ ["tree"]))
  if ← ask (pathExists · (job ++ ["READY"])) then os (step (unlink (job ++ ["READY"])))
  let out ← entries.zipIdx.foldlM
    (fun out x => stageEntry cfg host job (fetchBlob x.2 x.1.sha256) out x.1) ⟨0, 0, 0, 0, 0⟩
  os (step (writeFile host (job ++ ["manifest.json"]) (cfg.manifest entries)))
  os (step (writeFile host (job ++ ["READY"]) cfg.staged))
  return out

end Program

variable {γ : Type} {cfg : Settings γ} {host : Host} {job p q d : Path} {n : Name} {e : Entry}
  {t u : PosixTree.Tree γ} {S : Path → Prop} {f : Bool}

/-! ## The state of the tree -/

/-- Outside the job the tree is as it was, and links stand at places of `S` only. -/
structure Within (t : PosixTree.Tree γ) (job : Path) (S : Path → Prop) (u : PosixTree.Tree γ) :
    Prop where
  outside : ∀ q, ¬ job <+: q → u.get q = t.get q
  links : ∀ q, LinkAt u q → S q

theorem Within.put {node : Node γ} (h : Within t job S u) (hq : job <+: q)
    (hnode : ∀ a target, node = .link a target → S q) : Within t job S (u.put q node) := by
  refine ⟨fun r hr => ?_, fun r hr => ?_⟩
  · rw [Tree.get_put, if_neg]
    · exact h.outside r hr
    · rintro rfl
      exact hr hq
  · obtain ⟨a, target, hget⟩ := hr
    rw [Tree.get_put] at hget
    split_ifs at hget with hrq
    · obtain rfl := Option.some.inj hget
      exact hrq ▸ hnode a target rfl
    · exact h.links r ⟨a, target, hget⟩

theorem Within.drop (h : Within t job S u) (hq : job <+: q) : Within t job S (u.drop q) := by
  refine ⟨fun r hr => ?_, fun r hr => ?_⟩
  · rw [Tree.get_drop, if_neg]
    · exact h.outside r hr
    · rintro rfl
      exact hr hq
  · obtain ⟨a, target, hget⟩ := hr
    rw [Tree.get_drop] at hget
    split_ifs at hget
    exact h.links r ⟨a, target, hget⟩

theorem Within.mono {S' : Path → Prop} (h : Within t job S u) (hS : ∀ q, S q → S' q) :
    Within t job S' u := ⟨h.outside, fun q hq => hS q (h.links q hq)⟩

theorem keeps_chmod {mode : ℕ} (hp : Direct S true p) (hin : job <+: straight p) :
    Keeps (Within t job S) (step (chmod p mode) : FsM γ Unit) := by
  refine keeps_step fun s u hs h => ?_
  obtain ⟨q, node, a, hq, hget, rfl⟩ := chmod_form h
  obtain rfl := locate_straight hs.links hp hq
  refine hs.put hin fun b target hnode => ?_
  obtain ⟨a', rfl⟩ := setAttrs_target hnode
  exact hs.links _ ⟨a', target, hget⟩

theorem keeps_unlink (hp : Direct S false p) (hin : job <+: straight p) :
    Keeps (Within t job S) (step (unlink p) : FsM γ Unit) := by
  refine keeps_step fun s u hs h => ?_
  obtain ⟨q, node, hq, -, -, rfl⟩ := unlink_form h
  obtain rfl := locate_straight hs.links hp hq
  exact hs.drop hin

theorem keeps_writeFile {c : γ} (hp : Direct S true p) (hin : job <+: straight p) :
    Keeps (Within t job S) (step (writeFile host p c) : FsM γ Unit) := by
  refine keeps_step fun s u hs h => ?_
  rcases writeFile_form h with rfl | ⟨q, a, hq, -, rfl⟩
  · exact hs
  · obtain rfl := locate_straight hs.links hp hq
    exact hs.put hin fun b target hnode => nomatch hnode

theorem keeps_rename (hp : Direct S true p) (hq : Direct S false q) (hpin : job <+: straight p)
    (hqin : job <+: straight q) :
    Keeps (Within t job S) (step (rename host p q) : FsM γ Unit) := by
  refine keeps_step fun s u hs h => ?_
  obtain ⟨r, d, node, hr, hd, hget, -, -, rfl⟩ := rename_form h
  obtain rfl := locate_straight hs.links hp.unfollowed hr
  obtain rfl := locate_straight hs.links hq hd
  refine (hs.drop hpin).put hqin fun a target hnode => ?_
  exact absurd (hs.links _ ⟨a, target, hnode ▸ hget⟩)
    (hp.links p [] (List.append_nil p) fun _ => rfl)

/-- A link is made at the place of `p`, and at no other. -/
theorem symlink_within {S' : Path → Prop} {target : String} (hp : Direct S false p)
    (hin : job <+: straight p) (hS : ∀ q, S q → S' q) (hp' : S' (straight p))
    (hs : Within t job S u) :
    KeepsFrom (Within t job S') (step (symlink target p) : FsM γ Unit) u := by
  have hu := hs.mono hS
  unfold KeepsFrom Prog.run step
  cases h : symlink target p u with
  | error e => exact ⟨nofun, hu⟩
  | ok v =>
    obtain ⟨q, a, hq, -, rfl⟩ := symlink_form h
    obtain rfl := locate_straight hs.links hp hq
    exact ⟨by simpa using hu, hu.put hin fun _ _ _ => hp'⟩

/-- Directories above the job are there already. -/
theorem keeps_mkdir (hdirs : ∀ s, s <+: job → s ≠ job → DirAt t s) (hp : Direct S false p)
    (hin : job <+: straight p ∨ straight p <+: job) :
    Keeps (Within t job S) (step (mkdir host p) : FsM γ Unit) := by
  refine keeps_step fun s u hs h => ?_
  obtain ⟨q, a, hq, hnone, rfl⟩ := mkdir_form h
  obtain rfl := locate_straight hs.links hp hq
  by_cases hjob : job <+: straight p
  · exact hs.put hjob fun b target hnode => nomatch hnode
  · have hpre := hin.resolve_left hjob
    obtain ⟨b, l, hdir⟩ := hdirs _ hpre fun heq => hjob (heq ▸ List.prefix_refl _)
    rw [hs.outside _ hjob, hdir] at hnone
    cases hnone

/-! ## One entry -/

/-- The directory of the job stands on directories. -/
structure Rooted (t : PosixTree.Tree γ) (job : Path) : Prop where
  names : ∀ n ∈ job, ValidName n
  dirs : ∀ s, s <+: job → s ≠ job → DirAt t s
  place : ¬ LinkAt t job

/-- No link of `S` is on the way of an entry, and none where a directory or the temporary file of
the entry goes. -/
structure Safe (S : Path → Prop) (job : Path) (e : Entry) : Prop where
  parent : Direct S true (dest job e).dropLast
  up : ".." ∉ components e.path
  dir : kindOf e = .dir → ¬ S (straight (dest job e))
  temp : kindOf e = .file → ¬ S (straight (partPath (dest job e)))

theorem components_ne_nil (path : String) : components path ≠ [] := by
  unfold components
  simp [List.splitOn_ne_nil]

theorem dest_eq (job : Path) (e : Entry) : ∃ d n, dest job e = d ++ [n] ∧
    (dest job e).dropLast = d ∧ job ++ ["tree"] <+: d ∧ n ∈ components e.path := by
  obtain ⟨d, n, hd⟩ := (List.eq_nil_or_concat' (components e.path)).resolve_left
    (components_ne_nil _)
  refine ⟨job ++ "tree" :: d, n, ?_, ?_, ⟨d, by simp⟩, by simp [hd]⟩
  · simp [dest, hd]
  · have happ : dest job e = (job ++ "tree" :: d) ++ [n] := by simp [dest, hd]
    rw [happ, List.dropLast_concat]

theorem part_ne_up (n : Name) : n ++ ".part" ≠ ".." := by
  intro h
  have := congrArg (fun s : Name => s.toList.getLast?) h
  simp at this

theorem straight_inside (hn : ∀ m ∈ job, ValidName m) (h : job <+: p) : job <+: straight p := by
  obtain ⟨r, rfl⟩ := h
  rw [straight_append, straight_of_names hn]
  exact List.prefix_append job _

theorem keeps_makedirs_within (hroot : Rooted t job) (hp : Direct S false p) (h : job <+: p) :
    Keeps (Within t job S) (makedirs host p : FsM γ Unit) := by
  refine keeps_makedirs fun q hq => ?_
  have hdirect : Direct S false q := by
    by_cases hqp : q = p
    · exact hqp ▸ hp
    · exact (hp.take hq hqp).unfollowed
  refine keeps_mkdir hroot.dirs hdirect ?_
  rcases List.prefix_or_prefix_of_prefix h hq with hpre | hpre
  · exact .inl (straight_inside hroot.names hpre)
  · refine .inr ?_
    rwa [straight_of_names fun m hm => hroot.names m (hpre.subset hm)]

theorem keeps_chmodTo {mode : Option ℕ} {default : ℕ} (hp : Direct S true p)
    (hin : job <+: straight p) :
    Keeps (Within t job S) (chmodTo p mode default : StageM γ Unit) := by
  cases mode with
  | none => exact keeps_raise _
  | some m => exact (keeps_chmod hp hin).mapError

theorem alreadyStaged_run (p : Path) (sha : String) (u : PosixTree.Tree γ) :
    ∃ r, (alreadyStaged cfg p sha).run u = ⟨[], u, r⟩ ∧
      (r = .ok true → pathExists u p = true ∧ islink u p = false) := by
  unfold alreadyStaged Prog.run
  simp only [Bind.bind, ask]
  cases hb : pathExists u p && !islink u p && decide (sha ≠ "") with
  | false => exact ⟨_, rfl, nofun⟩
  | true =>
    simp only [Bool.and_eq_true, Bool.not_eq_true'] at hb
    cases hr : readFile u p with
    | error e => exact ⟨.error (.os e), by simp [os, mapError, query, hr, Except.mapError], nofun⟩
    | ok c =>
      refine ⟨.ok (decide (cfg.sha256 c = sha)), ?_, fun _ => hb.1⟩
      simp [os, mapError, query, hr, Except.mapError, pure]

/-- A path that leads to no link now may be followed. -/
theorem chmodTo_within {mode : Option ℕ} {default : ℕ} (hp : Direct S false p)
    (hin : job <+: straight p) (hno : ¬ LinkAt u (straight p)) (hs : Within t job S u) :
    KeepsFrom (Within t job S) (chmodTo p mode default : StageM γ Unit) u := by
  have hnow : Within t job (LinkAt u) u := ⟨hs.outside, fun q hq => hq⟩
  have hkeeps : Keeps (Within t job (LinkAt u)) (chmodTo p mode default : StageM γ Unit) :=
    keeps_chmodTo ((hp.anti hs.links).followed hno) hin
  exact (hkeeps u hnow).mono fun w hw => hw.mono hs.links

/-- What a rename puts in place is no link. -/
theorem rename_not_linkAt (hs : ∀ r, LinkAt u r → S r) (hp : Direct S true p)
    (hq : Direct S false q) {v : PosixTree.Tree γ} (h : rename host p q u = .ok v) :
    ¬ LinkAt v (straight q) := by
  obtain ⟨r, d, node, hr, hd, hget, -, -, rfl⟩ := rename_form h
  obtain rfl := locate_straight hs hp.unfollowed hr
  obtain rfl := locate_straight hs hq hd
  rintro ⟨a, target, hlink⟩
  rw [Tree.get_put, if_pos rfl] at hlink
  obtain rfl := Option.some.inj hlink
  exact hp.links p [] (List.append_nil p) (fun _ => rfl) (hs _ ⟨a, target, hget⟩)

theorem fetchFile_within {body : Option γ} {sha : String} (htemp : Direct S true (partPath p))
    (htin : job <+: straight (partPath p)) (hp : Direct S false p) (hin : job <+: straight p)
    (hs : Within t job S u) :
    KeepsFrom (Within t job S) (fetchFile cfg host body p sha) u ∧
      Sat (fetchFile cfg host body p sha) u (fun _ v => ¬ LinkAt v (straight p))
        fun _ _ => True := by
  unfold fetchFile
  cases body with
  | none => exact ⟨keeps_raise _ u hs, trivial⟩
  | some c =>
    dsimp only
    split_ifs with hbad
    · exact ⟨keeps_raise _ u hs, trivial⟩
    · have hwrite : Keeps (Within t job S) (step (writeFile host (partPath p) c) : FsM γ Unit) :=
        keeps_writeFile htemp htin
      refine ⟨hwrite.mapError.bind (fun _ => (keeps_rename htemp hp htin hin).mapError) u hs, ?_⟩
      unfold os
      rw [sat_bind, sat_mapError, sat_step]
      cases hw : writeFile host (partPath p) c u with
      | error e => trivial
      | ok v =>
        have hv : Within t job S v := by
          have := (hwrite u hs).2
          unfold Prog.run step at this
          simpa [hw] using this
        rw [EarlyExit.ends_ok, sat_mapError, sat_step]
        cases hr : rename host (partPath p) p v with
        | error e => trivial
        | ok w => exact rename_not_linkAt hv.links htemp hp hr

section Entry

variable {S' : Path → Prop} {body : Option γ} {out : Summary} (hroot : Rooted t job)
  (he : Safe S job e)

include hroot he

/-- The place of an entry is inside the job, and led to directly. -/
theorem Safe.place : Direct S false (dest job e) ∧ job <+: straight (dest job e) := by
  obtain ⟨d, n, hd, hinit, htree, hn⟩ := dest_eq job e
  have hparent := he.parent
  rw [hinit] at hparent
  have hjob : job <+: d := (List.prefix_append job ["tree"]).trans htree
  rw [hd]
  exact ⟨hparent.snoc fun h => he.up (h ▸ hn),
    straight_inside hroot.names (hjob.trans (List.prefix_append d [n]))⟩

theorem Safe.temporary (hkind : kindOf e = .file) : Direct S true (partPath (dest job e)) ∧
    job <+: straight (partPath (dest job e)) := by
  obtain ⟨d, n, hd, hinit, htree, -⟩ := dest_eq job e
  have hparent := he.parent
  rw [hinit] at hparent
  have hjob : job <+: d := (List.prefix_append job ["tree"]).trans htree
  have hpart : partPath (dest job e) = d ++ [n ++ ".part"] := by simp [partPath, hd]
  have htemp := he.temp hkind
  rw [hpart] at htemp ⊢
  exact ⟨(hparent.snoc (part_ne_up n)).followed htemp,
    straight_inside hroot.names (hjob.trans (List.prefix_append d _))⟩

theorem Safe.keeps_parent :
    Keeps (Within t job S) (os (makedirs host (dest job e).dropLast) : StageM γ Unit) := by
  obtain ⟨d, n, -, hinit, htree, -⟩ := dest_eq job e
  have hparent := he.parent
  rw [hinit] at hparent ⊢
  exact (keeps_makedirs_within hroot hparent.unfollowed
    ((List.prefix_append job ["tree"]).trans htree)).mapError

theorem keeps_stageDir (hkind : kindOf e = .dir) :
    Keeps (Within t job S) (stageDir host job out e : StageM γ Summary) := by
  obtain ⟨hdest, hin⟩ := he.place hroot
  have hpre : job <+: dest job e := List.prefix_append job _
  exact (keeps_makedirs_within hroot hdest hpre).mapError.bind fun _ =>
    (keeps_chmodTo (hdest.followed (he.dir hkind)) hin).bind fun _ => keeps_pure _

theorem stageLink_within (hS : ∀ q, S q → S' q) (hlink : S' (straight (dest job e)))
    (hs : Within t job S u) :
    KeepsFrom (Within t job S') (stageLink host job out e : StageM γ Summary) u := by
  have hmono : ∀ w, Within t job S w → Within t job S' w := fun w hw => hw.mono hS
  obtain ⟨hdest, hin⟩ := he.place hroot
  refine (he.keeps_parent hroot).then hmono (fun _ v hv => ?_) u hs
  refine (keeps_ask _).then hmono (fun b v hv => ?_) v hv
  have hput : ∀ w, Within t job S w → KeepsFrom (Within t job S')
      (os (step (symlink e.target (dest job e))) >>= fun _ =>
        (pure { out with links := out.links + 1 } : StageM γ Summary)) w := by
    intro w hw
    have hmade : KeepsFrom (Within t job S')
        (os (step (symlink e.target (dest job e))) : StageM γ Unit) w :=
      (symlink_within hdest hin hS hlink hw).mapError
    exact hmade.bind fun _ _ => keeps_pure _ _ hmade.2
  cases b with
  | true => exact (keeps_unlink hdest hin).mapError.then hmono (fun _ w hw => hput w hw) v hv
  | false => exact hput v hv

theorem keeps_stageFile (hkind : kindOf e = .file) :
    Keeps (Within t job S) (stageFile cfg host job body out e) := by
  obtain ⟨hdest, hin⟩ := he.place hroot
  obtain ⟨htemp, htin⟩ := he.temporary hroot hkind
  refine (he.keeps_parent hroot).then (fun _ hw => hw) fun _ v hv => ?_
  obtain ⟨r, hrun, hreused⟩ := @alreadyStaged_run γ cfg (dest job e) e.sha256 v
  have hstay : KeepsFrom (Within t job S) (alreadyStaged cfg (dest job e) e.sha256) v := by
    unfold KeepsFrom
    rw [hrun]
    exact ⟨nofun, hv⟩
  refine hstay.bind fun b hb => ?_
  rw [hrun] at hb ⊢
  have hclose : ∀ (w : PosixTree.Tree γ) (o : Summary), Within t job S w →
      ¬ LinkAt w (straight (dest job e)) → KeepsFrom (Within t job S)
      (chmodTo (dest job e) e.mode 0o644 >>= fun _ => (pure o : StageM γ Summary)) w := by
    intro w o hw hno
    have hmode : KeepsFrom (Within t job S)
        (chmodTo (dest job e) e.mode 0o644 : StageM γ Unit) w := chmodTo_within hdest hin hno hw
    exact hmode.bind fun _ _ => keeps_pure _ _ hmode.2
  cases b with
  | true =>
    obtain ⟨hex, hno⟩ := hreused hb
    exact hclose v _ hv (not_linkAt_of_reused hv.links hdest hex hno)
  | false =>
    obtain ⟨hfetch, hplain⟩ := @fetchFile_within γ cfg host job _ t v S body e.sha256 htemp htin
      hdest hin hv
    refine hfetch.bind fun _ hok => hclose _ _ hfetch.2 ?_
    unfold Sat at hplain
    rw [hok] at hplain
    exact hplain

end Entry

theorem stageEntry_within {S' : Path → Prop} {body : Option γ} {out : Summary}
    (hroot : Rooted t job) (he : components e.path ≠ [""] → Safe S job e) (hS : ∀ q, S q → S' q)
    (hlink : kindOf e = .link → S' (straight (dest job e))) (hs : Within t job S u) :
    KeepsFrom (Within t job S') (stageEntry cfg host job body out e) u := by
  have hmono : ∀ w, Within t job S w → Within t job S' w := fun w hw => hw.mono hS
  unfold stageEntry
  split_ifs with hempty
  · exact keeps_pure out u (hmono u hs)
  split
  · next hkind => exact (keeps_stageDir hroot (he hempty) hkind u hs).mono hmono
  · next hkind => exact stageLink_within hroot (he hempty) hS (hlink hkind) hs
  · next hkind => exact (keeps_stageFile hroot (he hempty) hkind u hs).mono hmono

/-! ## The whole call -/

/-- Where links stand once `entries` are staged: where they stood, and at the entries for links. -/
def Planted (t : PosixTree.Tree γ) (job : Path) (entries : List Entry) (q : Path) : Prop :=
  LinkAt t q ∨ ∃ e ∈ entries, kindOf e = .link ∧ q = straight (dest job e)

/-- The directory of the jobs is there, the job's own files are no links, and each entry is safe
from the links that are there or come before it. -/
structure Contained (t : PosixTree.Tree γ) (job : Path) (entries : List Entry) : Prop where
  root : Rooted t job
  manifest : ¬ LinkAt t (job ++ ["manifest.json"])
  ready : ¬ LinkAt t (job ++ ["READY"])
  way : ∀ pre e post, entries = pre ++ e :: post → components e.path ≠ [""] →
    Safe (Planted t job pre) job e

/-- No object outside the job is other than it was, in any state of the run. -/
def Confined {α : Type} (t : PosixTree.Tree γ) (job : Path)
    (r : Run (PosixTree.Tree γ) Raised α) : Prop :=
  ∀ u ∈ r.past ++ [r.final], ∀ q, ¬ job <+: q → u.get q = t.get q

variable {entries pre l : List Entry} {fetchBlob : ℕ → String → Option γ}

theorem Planted.append (h : Planted t job pre q) : Planted t job (pre ++ l) q :=
  h.imp_right fun ⟨e, he, hrest⟩ => ⟨e, List.mem_append_left l he, hrest⟩

theorem entries_within (hroot : Rooted t job) (i : ℕ) (out : Summary)
    (hway : ∀ a e b, l = a ++ e :: b → components e.path ≠ [""] →
      Safe (Planted t job (pre ++ a)) job e)
    (hs : Within t job (Planted t job pre) u) :
    KeepsFrom (Within t job (Planted t job (pre ++ l))) ((l.zipIdx i).foldlM
      (fun out x => stageEntry cfg host job (fetchBlob x.2 x.1.sha256) out x.1) out) u := by
  induction l generalizing pre i out u with
  | nil =>
    rw [List.append_nil]
    exact keeps_pure out u hs
  | cons e l ih =>
    rw [List.zipIdx_cons, List.foldlM_cons]
    have happ : pre ++ e :: l = (pre ++ [e]) ++ l := by simp
    have hsafe : components e.path ≠ [""] → Safe (Planted t job pre) job e := by
      intro hne
      simpa using hway [] e l rfl hne
    have hstep := @stageEntry_within γ cfg host job e t u _ (Planted t job (pre ++ [e]))
      (fetchBlob i e.sha256) out hroot hsafe (fun _ hq => hq.append)
      (fun hkind => .inr ⟨e, by simp, hkind, rfl⟩) hs
    rw [happ]
    have hfirst : KeepsFrom (Within t job (Planted t job (pre ++ [e] ++ l)))
        (stageEntry cfg host job (fetchBlob i e.sha256) out e) u :=
      hstep.mono fun w hw => hw.mono fun _ hq => hq.append
    refine hfirst.bind fun out' _ => ih (i + 1) out' (fun a e' b hl hne => ?_) hstep.2
    simpa using hway (e :: a) e' b (by simp [hl]) hne

theorem straight_dest (hroot : Rooted t job) (e : Entry) :
    straight (dest job e) = job ++ "tree" :: straight (components e.path) := by
  have hcons : straight ("tree" :: components e.path) = "tree" :: straight (components e.path) := by
    simp [straight]
  rw [dest, straight_append, straight_of_names hroot.names, hcons]

/-- Nothing is planted on the way to the job's own files. -/
theorem own_direct (hroot : Rooted t job) (hn : ValidName n) (htree : n ≠ "tree")
    (hlink : ¬ LinkAt t (job ++ [n])) : Direct (Planted t job entries) true (job ++ [n]) := by
  have hnames : ∀ m ∈ job ++ [n], ValidName m := by
    intro m hm
    rcases List.mem_append.mp hm with hm | hm
    · exact hroot.names m hm
    · exact List.mem_singleton.mp hm ▸ hn
  refine ⟨fun hup => (hnames _ hup).2.2 rfl, fun s r heq _ => ?_⟩
  have hs : s <+: job ++ [n] := ⟨r, heq⟩
  rw [straight_of_names fun m hm => hnames m (hs.subset hm)]
  have hprefix : s <+: job ∨ s = job ++ [n] := (List.prefix_concat_iff.mp hs).symm
  rintro (hat | ⟨e, -, -, rfl⟩)
  · rcases hprefix with hpre | rfl
    · by_cases hjob : s = job
      · exact hroot.place (hjob ▸ hat)
      · obtain ⟨a, k, hdir⟩ := hroot.dirs s hpre hjob
        obtain ⟨b, target, hget⟩ := hat
        rw [hdir] at hget
        cases hget
    · exact hlink hat
  · rw [straight_dest hroot] at hprefix
    rcases hprefix with hpre | heq
    · have := hpre.length_le
      simp only [List.length_append, List.length_cons] at this
      omega
    · have := List.append_cancel_left heq
      simp only [List.cons.injEq] at this
      exact htree this.1.symm

def smallMachine : PosixTree.Tree String :=
  (((⟨∅⟩ : PosixTree.Tree String).put [] (.dir ⟨0o755, 0, 0⟩ true)).put ["etc"]
    (.dir ⟨0o755, 0, 0⟩ true)).put ["stage"] (.dir ⟨0o755, 0, 0⟩ true)

def plainSettings : Settings String := ⟨id, fun _ => "[]", "staged\n"⟩

def motd : Entry := ⟨"/etc/motd", "f", "", some 0o644, "hello"⟩

theorem smallMachine_links (q : Path) : ¬ LinkAt smallMachine q := by
  rintro ⟨a, target, hget⟩
  simp only [smallMachine, Tree.get_put] at hget
  split_ifs at hget <;> cases hget

end FlashbackStage
