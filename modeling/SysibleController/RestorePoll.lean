import SysibleController.AtomicSteps
import Mathlib.Logic.Function.Basic

/-! How an agent takes up a queued restore: it polls for the job, stages it and arms the offline
apply (`_rp_poll` in `host_agent/agent.py`, `stage` and `arm` in
`host_agent/flashback_restore.py`). Every call of the system or the network is a step that may
fail for reasons of its own, and the agent may be stopped between any two steps. A path is a
place of its own, whatever links there are. The counts that are only printed and the reboot
after an armed restore are left out. -/
namespace RestorePoll

open AtomicSteps Prog EarlyExit

abbrev Path := List String

inductive Obj where
  | dir (mode : ℕ)
  | file (content : String) (mode : ℕ)
  | link (target : String)
  deriving DecidableEq

abbrev Disk := Path → Option Obj

/-- `faults` has an entry for each call to come, the text of its failure if it fails;
`reports` are the finish reports that have reached the controller. -/
structure World where
  disk : Disk
  faults : List (Option String)
  reports : List (String × Bool)

abbrev AgentM := Prog World String

/-! ## Calls -/

/-- The next call fails if the next fault says so. -/
def trying : AgentM Unit := do
  let fault ← ask fun w => w.faults.head?.join
  step fun w => .ok { w with faults := w.faults.tail }
  match fault with
  | some why => raise why
  | none => pure ()

def sys (f : Disk → Except String Disk) : AgentM Unit := do
  trying
  step fun w => (f w.disk).map fun d => { w with disk := d }

def put (p : Path) (o : Option Obj) (d : Disk) : Disk := Function.update d p o

def islink (d : Disk) (p : Path) : Bool :=
  match d p with
  | some (.link _) => true
  | _ => false

def isdir (d : Disk) (p : Path) : Bool :=
  match d p with
  | some (.dir _) => true
  | _ => false

def pathExists (d : Disk) (p : Path) : Bool := (d p).isSome && !islink d p

/-- `os.makedirs(path, exist_ok=True)`. -/
def makedirs (p : Path) (d : Disk) : Except String Disk :=
  if p.inits.tail.any fun q => (d q).isSome && !isdir d q then .error "File exists"
  else .ok fun q => if (d q).isNone && q.isPrefixOf p then some (.dir 0o755) else d q

def chmod (p : Path) (mode : ℕ) (d : Disk) : Except String Disk :=
  match d p with
  | none => .error "No such file or directory"
  | some (.dir _) => .ok (put p (some (.dir mode)) d)
  | some (.file content _) => .ok (put p (some (.file content mode)) d)
  | some (.link _) => .ok d

def remove (p : Path) (d : Disk) : Except String Disk :=
  match d p with
  | none => .error "No such file or directory"
  | some (.dir _) => .error "Is a directory"
  | some _ => .ok (put p none d)

def symlink (target : String) (p : Path) (d : Disk) : Except String Disk :=
  if (d p).isSome then .error "File exists" else .ok (put p (some (.link target)) d)

/-- `open(path, "w")`. -/
def truncate (p : Path) (d : Disk) : Except String Disk :=
  match d p with
  | some (.dir _) => .error "Is a directory"
  | some (.file _ mode) => .ok (put p (some (.file "" mode)) d)
  | _ => .ok (put p (some (.file "" 0o644)) d)

def fill (p : Path) (content : String) (d : Disk) : Except String Disk :=
  match d p with
  | some (.file _ mode) => .ok (put p (some (.file content mode)) d)
  | _ => .error "Bad file descriptor"

def replace (p q : Path) (d : Disk) : Except String Disk :=
  if isdir d q then .error "Is a directory"
  else match d p with
    | none => .error "No such file or directory"
    | some o => .ok (put p none (put q (some o) d))

/-- A file is there as soon as it is opened, and has its content once that is written. -/
def writeText (p : Path) (content : String) : AgentM Unit := do
  sys (truncate p)
  sys (fill p content)

def removeIfThere (p : Path) : AgentM Unit := do
  if ← ask fun w => (w.disk p).isSome then sys (remove p)

/-! ## Staging -/

/-- An entry of the manifest; `mode` is `none` where `int` raises on it, 0 where it is missing. -/
structure Entry where
  path : String
  kind : String
  target : String
  mode : Option ℕ
  sha256 : String
  deriving DecidableEq

/-- What the controller answers: no job where it has none or refuses, an empty page after the
last one given, and `none` where it refuses a page or a blob. -/
structure Job where
  id : String
  deriving DecidableEq

structure Answers where
  job : Option Job
  pages : List (Option (List Entry))
  blob : String → Option String

structure Settings where
  sha256 : String → String
  manifestJson : String → List Entry → String
  applyScript : String

def stageRoot : Path := ["var", "lib", "sysible", "flashback", "stage"]

def jobDir (jobId : String) : Path := stageRoot ++ [jobId]

def readyPath (jobId : String) : Path := jobDir jobId ++ ["READY"]

def pathText (p : Path) : String := String.join (p.map ("/" ++ ·))

def isReady (d : Disk) (jobId : String) : Bool := pathExists d (readyPath jobId)

/-- The components of a path without its leading slashes. -/
def components (path : String) : Path :=
  ((path.toList.dropWhile (· = '/')).splitOn '/').map String.ofList

def partPath (p : Path) : Path := p.dropLast ++ [p.getLastD "" ++ ".part"]

/-- `_sha` of what is there; a file that cannot be read is an exception. -/
def digestAt (cfg : Settings) (p : Path) : AgentM String := do
  trying
  match ← ask fun w => w.disk p with
  | some (.file content _) => return cfg.sha256 content
  | _ => raise "Is a directory"

def orMode (mode : Option ℕ) (default : ℕ) : AgentM ℕ :=
  match mode with
  | none => raise "invalid literal for int()"
  | some 0 => pure default
  | some m => pure m

def chmodTo (p : Path) (mode : Option ℕ) (default : ℕ) : AgentM Unit := do
  let m ← orMode mode default
  sys (chmod p m)

def fetch (answers : Answers) (sha : String) : AgentM String := do
  trying
  match answers.blob sha with
  | some body => return body
  | none => raise ("blob " ++ sha ++ " unavailable")

/-- Staged by an earlier, interrupted attempt and still correct. -/
def alreadyStaged (cfg : Settings) (dest : Path) (e : Entry) : AgentM Bool := do
  let there ← ask fun w => pathExists w.disk dest
  if there && e.sha256 ≠ "" then
    let digest ← digestAt cfg dest
    return decide (digest = e.sha256)
  else return false

def checkDigest (cfg : Settings) (e : Entry) (body : String) : AgentM Unit :=
  if e.sha256 ≠ "" && cfg.sha256 body ≠ e.sha256 then
    raise (e.path ++ ": content does not match its digest")
  else pure ()

def fetchFile (cfg : Settings) (answers : Answers) (dest : Path) (e : Entry) : AgentM Unit := do
  let body ← fetch answers e.sha256
  checkDigest cfg e body
  writeText (partPath dest) body
  sys (replace (partPath dest) dest)

def stageFile (cfg : Settings) (answers : Answers) (dest : Path) (e : Entry) : AgentM Unit := do
  if ← alreadyStaged cfg dest e then chmodTo dest e.mode 0o644
  else
    fetchFile cfg answers dest e
    chmodTo dest e.mode 0o644

def stageEntry (cfg : Settings) (answers : Answers) (tree : Path) (e : Entry) : AgentM Unit := do
  if components e.path = [""] then return ()
  let dest := tree ++ components e.path
  match e.kind.toList.head? with
  | some 'd' =>
    sys (makedirs dest)
    chmodTo dest e.mode 0o755
  | some 'l' =>
    sys (makedirs dest.dropLast)
    removeIfThere dest
    sys (symlink e.target dest)
  | _ =>
    sys (makedirs dest.dropLast)
    stageFile cfg answers dest e

def dropReady (jobId : String) : AgentM Unit := do
  if ← ask fun w => isReady w.disk jobId then sys (remove (readyPath jobId))

/-- READY is written last. -/
def stage (cfg : Settings) (answers : Answers) (jobId : String) (entries : List Entry) :
    AgentM Unit := do
  sys (makedirs (jobDir jobId ++ ["tree"]))
  dropReady jobId
  entries.foldlM (fun _ e => stageEntry cfg answers (jobDir jobId ++ ["tree"]) e) ()
  writeText (jobDir jobId ++ ["manifest.json"]) (cfg.manifestJson jobId entries)
  writeText (readyPath jobId) "staged\n"

/-! ## Arming -/

def unitPath : Path := ["etc", "systemd", "system", "sysible-flashback-restore.service"]
def applyBin : Path := ["usr", "local", "lib", "sysible", "flashback-apply-restore"]
def wants : Path := ["etc", "systemd", "system", "system-update.target.wants"]
def systemUpdateLink : Path := ["system-update"]

def unitText (jobId : String) : String :=
  "[Unit]\nDescription=Sysible Flashback — apply a staged restore point\n" ++
  "DefaultDependencies=no\nRequires=sysinit.target\nAfter=sysinit.target\n" ++
  "Before=shutdown.target\nConditionPathExists=/system-update\n\n[Service]\nType=oneshot\n" ++
  "ExecStart=/usr/local/lib/sysible/flashback-apply-restore " ++ jobId ++
  "\nFailureAction=reboot\nSuccessAction=reboot\n\n[Install]\nWantedBy=system-update.target\n"

/-- The link that makes systemd enter the offline update goes in last. -/
def installApply (cfg : Settings) (jobId : String) : AgentM Unit := do
  sys (makedirs applyBin.dropLast)
  writeText applyBin cfg.applyScript
  sys (chmod applyBin 0o755)
  sys (makedirs unitPath.dropLast)
  writeText unitPath (unitText jobId)
  sys (makedirs wants)
  removeIfThere (wants ++ ["sysible-flashback-restore.service"])
  sys (symlink (pathText unitPath) (wants ++ ["sysible-flashback-restore.service"]))
  removeIfThere systemUpdateLink
  sys (symlink (pathText (jobDir jobId)) systemUpdateLink)

def arm (cfg : Settings) (jobId : String) : AgentM (Bool × String) := do
  if !(← ask fun w => isReady w.disk jobId) then
    return (false, "that restore point is not fully staged")
  if (← ask fun w => !isdir w.disk ["run", "systemd", "system"] &&
      !isdir w.disk ["etc", "systemd", "system"]) then
    return (false, "this host does not appear to run systemd, so the offline apply cannot be " ++
      "installed — the restore has NOT been applied")
  match ← attempt (installApply cfg jobId) with
  | .error e => return (false, "could not install the offline apply: " ++ e)
  | .ok () => return (true, "systemd offline update")

/-! ## The poll -/

def fetchManifest : List (Option (List Entry)) → AgentM (List Entry)
  | [] => do
    trying
    return []
  | none :: _ => do
    trying
    raise "manifest unavailable"
  | some page :: rest => do
    trying
    if page.isEmpty then return []
    let more ← fetchManifest rest
    return page ++ more

def stageAndArm (cfg : Settings) (answers : Answers) (jobId : String) : AgentM Unit := do
  let entries ← fetchManifest answers.pages
  stage cfg answers jobId entries
  let armed ← arm cfg jobId
  if !armed.1 then raise armed.2

def report (jobId : String) (ok : Bool) : AgentM Unit := do
  trying
  step fun w => .ok { w with reports := w.reports ++ [(jobId, ok)] }

def rpPoll (cfg : Settings) (answers : Answers) : AgentM Unit := do
  trying
  match answers.job with
  | none => return ()
  | some job =>
    if ← ask fun w => isReady w.disk job.id then return ()
    trying
    match ← attempt (stageAndArm cfg answers job.id) with
    | .ok () => return ()
    | .error _ => report job.id false

/-- The states the agent can be stopped in. -/
def points {α : Type} (m : AgentM α) (w : World) : List World := w :: (m.run w).past

/-- Any number of polls for the job, each stopped at some point. -/
inductive Interrupted (cfg : Settings) (jobId : String) : World → World → Prop where
  | refl (w) : Interrupted cfg jobId w w
  | poll {w u v answers faults} : Interrupted cfg jobId w u →
      answers.job = some ⟨jobId⟩ → v ∈ points (rpPoll cfg answers) { u with faults := faults } →
      Interrupted cfg jobId w v

/-- The link and the unit of the job are in place. -/
def Armed (d : Disk) (jobId : String) : Prop :=
  d systemUpdateLink = some (.link (pathText (jobDir jobId))) ∧
    ∃ mode, d unitPath = some (.file (unitText jobId) mode)

/-- After a poll without failing calls the job is armed or reported as failed. -/
def Progress (cfg : Settings) (later : Answers) (jobId : String) (w : World) : Prop :=
  Armed ((rpPoll cfg later).run { w with faults := [] }).final.disk jobId ∨
    (jobId, false) ∈ ((rpPoll cfg later).run { w with faults := [] }).final.reports

/-- Where a job that has not been staged before is stopped any number of times and is still
pending, a later poll makes progress, where `C` holds of what is on disk and only there. -/
def ProgressLaw (cfg : Settings) (C : Disk → String → Prop) : Prop :=
  ∀ jobId w₀ w later, isReady w₀.disk jobId = false → Interrupted cfg jobId w₀ w →
    (jobId, false) ∉ w.reports → later.job = some ⟨jobId⟩ →
    (Progress cfg later jobId w ↔ C w.disk jobId)

/-- A job that is marked READY is armed. -/
def ArmedIfReady (d : Disk) (jobId : String) : Prop := isReady d jobId = true → Armed d jobId

/-! ## Calls that do not fail -/

variable {α β : Type} {w : World} {cfg : Settings} {answers : Answers} {jobId : String}

/-- Where no fault is left, none comes up. -/
def Quiet (m : AgentM α) : Prop :=
  ∀ w, w.faults = [] → Sat m w (fun _ u => u.faults = []) fun _ u => u.faults = []

theorem sat_trying {Q : Unit → World → Prop} {E : String → World → Prop} (hw : w.faults = [])
    (hQ : Q () w) : Sat trying w Q E := by
  have hsame : { w with faults := w.faults.tail } = w := by rw [hw, List.tail_nil, ← hw]
  rw [trying, sat_bind, sat_ask, hw]
  simp only [List.head?_nil, Option.join_none]
  rw [sat_bind, sat_step, ends_ok, hsame]
  exact hQ

theorem sat_sys {f : Disk → Except String Disk} {Q : Unit → World → Prop}
    {E : String → World → Prop} (hw : w.faults = []) (hE : ∀ why, E why w)
    (hQ : ∀ d, f w.disk = .ok d → Q () { w with disk := d }) : Sat (sys f) w Q E := by
  rw [sys, sat_bind]
  apply sat_trying hw
  rw [sat_step]
  cases hf : f w.disk with
  | ok d => exact hQ d hf
  | error why => exact hE why

theorem quiet_pure (a : α) : Quiet (pure a) := fun _ hw => hw

theorem quiet_raise (why : String) : Quiet (raise why : AgentM α) := fun _ hw => hw

theorem quiet_ask (f : World → α) : Quiet (ask f) := fun _ hw => hw

theorem quiet_trying : Quiet trying := fun _ hw => sat_trying hw hw

theorem quiet_sys (f : Disk → Except String Disk) : Quiet (sys f) :=
  fun _ hw => sat_sys hw (fun _ => hw) fun _ _ => hw

theorem Quiet.bind {m : AgentM α} {f : α → AgentM β} (hm : Quiet m) (hf : ∀ a, Quiet (f a)) :
    Quiet (m >>= f) :=
  fun w hw => (hm w hw).bind fun a u hu => hf a u hu

theorem Quiet.foldlM {ι : Type} {f : α → ι → AgentM α} (hf : ∀ a x, Quiet (f a x))
    (xs : List ι) (a : α) : Quiet (xs.foldlM f a) := by
  induction xs generalizing a with
  | nil => exact quiet_pure a
  | cons x xs ih =>
    rw [List.foldlM_cons]
    exact (hf a x).bind ih

theorem quiet_writeText (p : Path) (content : String) : Quiet (writeText p content) :=
  (quiet_sys _).bind fun _ => quiet_sys _

theorem quiet_removeIfThere (p : Path) : Quiet (removeIfThere p) := by
  refine (quiet_ask _).bind fun there => ?_
  cases there with
  | true => exact quiet_sys _
  | false => exact quiet_pure ()

theorem quiet_chmodTo (p : Path) (mode : Option ℕ) (default : ℕ) :
    Quiet (chmodTo p mode default) := by
  refine Quiet.bind ?_ fun _ => quiet_sys _
  unfold orMode
  split
  · exact quiet_raise _
  · exact quiet_pure _
  · exact quiet_pure _

theorem quiet_fetch (sha : String) : Quiet (fetch answers sha) := by
  refine quiet_trying.bind fun _ => ?_
  cases answers.blob sha with
  | some body => exact quiet_pure body
  | none => exact quiet_raise _

theorem quiet_digestAt (p : Path) : Quiet (digestAt cfg p) := by
  refine quiet_trying.bind fun _ => (quiet_ask _).bind fun o => ?_
  split
  · exact quiet_pure _
  · exact quiet_raise _

theorem quiet_alreadyStaged (dest : Path) (e : Entry) : Quiet (alreadyStaged cfg dest e) := by
  refine (quiet_ask _).bind fun there => ?_
  split
  · exact (quiet_digestAt _).bind fun _ => quiet_pure _
  · exact quiet_pure _

theorem quiet_checkDigest (e : Entry) (body : String) : Quiet (checkDigest cfg e body) := by
  unfold checkDigest
  split
  · exact quiet_raise _
  · exact quiet_pure ()

theorem quiet_fetchFile (dest : Path) (e : Entry) : Quiet (fetchFile cfg answers dest e) :=
  (quiet_fetch _).bind fun _ => (quiet_checkDigest _ _).bind fun _ =>
    (quiet_writeText _ _).bind fun _ => quiet_sys _

theorem quiet_stageFile (dest : Path) (e : Entry) : Quiet (stageFile cfg answers dest e) := by
  refine (quiet_alreadyStaged _ _).bind fun reuse => ?_
  split
  · exact quiet_chmodTo _ _ _
  · exact (quiet_fetchFile _ _).bind fun _ => quiet_chmodTo _ _ _

theorem quiet_stageEntry (tree : Path) (e : Entry) : Quiet (stageEntry cfg answers tree e) := by
  unfold stageEntry
  split
  · exact quiet_pure ()
  · dsimp only
    split
    · exact (quiet_sys _).bind fun _ => quiet_chmodTo _ _ _
    · exact (quiet_sys _).bind fun _ => (quiet_removeIfThere _).bind fun _ => quiet_sys _
    · exact (quiet_sys _).bind fun _ => quiet_stageFile _ _

theorem quiet_dropReady : Quiet (dropReady jobId) := by
  refine (quiet_ask _).bind fun ready => ?_
  cases ready with
  | true => exact quiet_sys _
  | false => exact quiet_pure ()

theorem quiet_stage (entries : List Entry) : Quiet (stage cfg answers jobId entries) :=
  (quiet_sys _).bind fun _ => quiet_dropReady.bind fun _ =>
    (Quiet.foldlM (fun _ e => quiet_stageEntry _ e) _ _).bind fun _ =>
      (quiet_writeText _ _).bind fun _ => quiet_writeText _ _

theorem quiet_fetchManifest (pages : List (Option (List Entry))) : Quiet (fetchManifest pages) := by
  induction pages with
  | nil => exact quiet_trying.bind fun _ => quiet_pure _
  | cons page rest ih =>
    cases page with
    | none => exact quiet_trying.bind fun _ => quiet_raise _
    | some page =>
      refine quiet_trying.bind fun _ => ?_
      split
      · exact quiet_pure _
      · exact ih.bind fun _ => quiet_pure _

/-! ## The unit stays where it is -/

def UnitIn (d : Disk) (jobId : String) : Prop :=
  ∃ mode, d unitPath = some (.file (unitText jobId) mode)

theorem put_self (p : Path) (o : Option Obj) (d : Disk) : put p o d p = o := by
  simp [put]

theorem put_other {p q : Path} {o : Option Obj} {d : Disk} (h : q ≠ p) : put p o d q = d q :=
  Function.update_of_ne h _ _

theorem makedirs_unit {p : Path} {d d' : Disk} (h : makedirs p d = .ok d')
    (hunit : UnitIn d jobId) : UnitIn d' jobId := by
  obtain ⟨mode, hmode⟩ := hunit
  unfold makedirs at h
  split at h
  · cases h
  · obtain rfl := Except.ok.inj h
    exact ⟨mode, by simp [hmode]⟩

theorem remove_unit {p : Path} {d d' : Disk} (hp : unitPath ≠ p) (h : remove p d = .ok d')
    (hunit : UnitIn d jobId) : UnitIn d' jobId := by
  unfold remove at h
  split at h
  · cases h
  · cases h
  · obtain rfl := Except.ok.inj h
    obtain ⟨mode, hmode⟩ := hunit
    exact ⟨mode, (put_other hp).trans hmode⟩

theorem symlink_unit {p : Path} {target : String} {d d' : Disk} (hp : unitPath ≠ p)
    (h : symlink target p d = .ok d') (hunit : UnitIn d jobId) : UnitIn d' jobId := by
  unfold symlink at h
  split at h
  · cases h
  · obtain rfl := Except.ok.inj h
    obtain ⟨mode, hmode⟩ := hunit
    exact ⟨mode, (put_other hp).trans hmode⟩

/-- What a step keeps, in a form the next one can use. -/
def Installing (jobId : String) (u : World) : Prop := u.faults = [] ∧ UnitIn u.disk jobId

theorem sat_sys_unit {f : Disk → Except String Disk} (hw : Installing jobId w)
    (hf : ∀ d, f w.disk = .ok d → UnitIn w.disk jobId → UnitIn d jobId) :
    Sat (sys f) w (fun _ u => Installing jobId u) fun _ u => u.faults = [] :=
  sat_sys hw.1 (fun _ => hw.1) fun d hd => ⟨hw.1, hf d hd hw.2⟩

theorem sat_removeIfThere_unit {p : Path} (hp : unitPath ≠ p) (hw : Installing jobId w) :
    Sat (removeIfThere p) w (fun _ u => Installing jobId u) fun _ u => u.faults = [] := by
  rw [removeIfThere, sat_bind, sat_ask]
  by_cases hthere : (w.disk p).isSome = true
  · rw [if_pos hthere]
    exact sat_sys_unit hw fun d hd => remove_unit hp hd
  · rw [if_neg hthere]
    exact hw

/-- The content of a file that has been written. -/
theorem sat_writeUnit (hw : w.faults = []) :
    Sat (writeText unitPath (unitText jobId)) w (fun _ u => Installing jobId u)
      fun _ u => u.faults = [] := by
  refine (quiet_sys _ w hw).bind fun _ u hu => sat_sys hu (fun _ => hu) fun d hd => ?_
  refine ⟨hu, ?_⟩
  unfold fill at hd
  split at hd
  · rename_i content mode hfile
    obtain rfl := Except.ok.inj hd
    exact ⟨mode, by dsimp only; rw [put_self]⟩
  · cases hd

/-- An install that goes through leaves the job armed. -/
theorem sat_installApply (hw : w.faults = []) :
    Sat (installApply cfg jobId) w (fun _ u => u.faults = [] ∧ Armed u.disk jobId)
      fun _ u => u.faults = [] := by
  refine (quiet_sys _ w hw).bind fun _ w₁ h₁ => ?_
  refine (quiet_writeText _ _ w₁ h₁).bind fun _ w₂ h₂ => ?_
  refine (quiet_sys _ w₂ h₂).bind fun _ w₃ h₃ => ?_
  refine (quiet_sys _ w₃ h₃).bind fun _ w₄ h₄ => ?_
  refine (sat_writeUnit h₄).bind fun _ w₅ h₅ => ?_
  refine (sat_sys_unit h₅ fun d hd => makedirs_unit hd).bind fun _ w₆ h₆ => ?_
  refine (sat_removeIfThere_unit (by decide) h₆).bind fun _ w₇ h₇ => ?_
  refine (sat_sys_unit h₇ fun d hd => symlink_unit (by decide) hd).bind fun _ w₈ h₈ => ?_
  refine (sat_removeIfThere_unit (by decide) h₈).bind fun _ w₉ h₉ => ?_
  refine sat_sys h₉.1 (fun _ => h₉.1) fun d hd => ⟨h₉.1, ?_, symlink_unit (by decide) hd h₉.2⟩
  unfold symlink at hd
  split at hd
  · cases hd
  · obtain rfl := Except.ok.inj hd
    dsimp only
    rw [put_self]

theorem sat_arm (hw : w.faults = []) :
    Sat (arm cfg jobId) w (fun r u => u.faults = [] ∧ (r.1 = true → Armed u.disk jobId))
      fun _ u => u.faults = [] := by
  rw [arm, sat_bind, sat_ask]
  split
  · exact ⟨hw, nofun⟩
  · rw [sat_bind, sat_ask]
    split
    · exact ⟨hw, nofun⟩
    · rw [sat_bind, sat_attempt]
      refine (sat_installApply hw).mono (fun _ u hu => ?_) fun _ u hu => ?_
      · exact ⟨hu.1, fun _ => hu.2⟩
      · exact ⟨hu, nofun⟩

theorem sat_stageAndArm (hw : w.faults = []) :
    Sat (stageAndArm cfg answers jobId) w (fun _ u => Armed u.disk jobId)
      fun _ u => u.faults = [] := by
  refine (quiet_fetchManifest _ w hw).bind fun entries w₁ h₁ => ?_
  refine (quiet_stage entries w₁ h₁).bind fun _ w₂ h₂ => ?_
  refine (sat_arm h₂).bind fun r u hu => ?_
  cases hr : r.1 with
  | true => simpa [hr, sat_pure] using hu.2 hr
  | false => simpa [hr, sat_raise] using hu.1

/-! ## Progress -/

theorem Sat.final {m : AgentM α} {P : World → Prop} (h : Sat m w (fun _ u => P u) fun _ u => P u) :
    P (m.run w).final := by
  unfold Sat at h
  cases hr : (m.run w).result with
  | ok a =>
    rw [hr] at h
    exact h
  | error e =>
    rw [hr] at h
    exact h

/-- A job that is marked READY is taken to be waiting for the reboot. -/
theorem poll_ready (hw : w.faults = []) (hjob : answers.job = some ⟨jobId⟩)
    (hready : isReady w.disk jobId = true) : ((rpPoll cfg answers).run w).final = w := by
  apply Sat.final (P := fun u => u = w)
  rw [rpPoll, sat_bind]
  apply sat_trying hw
  rw [hjob]
  dsimp only
  rw [sat_bind, sat_ask, if_pos hready]
  rfl

theorem poll_unready (hw : w.faults = []) (hjob : answers.job = some ⟨jobId⟩)
    (hready : isReady w.disk jobId = false) :
    Armed ((rpPoll cfg answers).run w).final.disk jobId ∨
      (jobId, false) ∈ ((rpPoll cfg answers).run w).final.reports := by
  apply Sat.final (P := fun u => Armed u.disk jobId ∨ (jobId, false) ∈ u.reports)
  rw [rpPoll, sat_bind]
  apply sat_trying hw
  rw [hjob]
  dsimp only
  rw [sat_bind, sat_ask, if_neg (by simp [hready]), sat_bind]
  apply sat_trying hw
  rw [sat_bind, sat_attempt]
  refine (sat_stageAndArm hw).mono (fun _ u hu => ?_) fun _ u hu => ?_
  · exact Or.inl hu
  · rw [report, sat_bind]
    apply sat_trying hu
    rw [sat_step, ends_ok]
    exact Or.inr (by simp)

/-- A queued restore makes progress exactly where a READY job is armed. -/
theorem restore_progress (cfg : Settings) : ProgressLaw cfg ArmedIfReady := by
  intro jobId w₀ w later _ _ hpending hjob
  have hw : ({ w with faults := [] } : World).faults = [] := rfl
  unfold Progress ArmedIfReady
  by_cases hready : isReady w.disk jobId = true
  · rw [poll_ready hw hjob hready]
    constructor
    · rintro (harmed | hreported)
      · exact fun _ => harmed
      · exact absurd hreported hpending
    · intro h
      exact Or.inl (h hready)
  · have hunready : isReady w.disk jobId = false := by simpa using hready
    constructor
    · exact fun _ h => absurd h hready
    · exact fun _ => poll_unready hw hjob hunready

/-! The agent is stopped after it has marked an empty restore point READY. -/

def sampleSettings : Settings := ⟨id, fun _ _ => "", ""⟩

def sampleAnswers : Answers := ⟨some ⟨"7"⟩, [], fun _ => none⟩

def sampleWorld : World := ⟨fun _ => none, [], []⟩

theorem ready_job_is_never_armed : ¬ ProgressLaw sampleSettings fun _ _ => True := by
  intro hlaw
  have hstuck : ((rpPoll sampleSettings sampleAnswers).run sampleWorld).past.any (fun v =>
      isReady v.disk "7" && (v.disk systemUpdateLink).isNone && !v.reports.contains ("7", false)) =
      true := by
    decide
  obtain ⟨v, hv, hpoint⟩ := List.any_eq_true.mp hstuck
  simp only [Bool.and_eq_true, Bool.not_eq_true', Option.isNone_iff_eq_none] at hpoint
  obtain ⟨⟨hready, hlink⟩, hreports⟩ := hpoint
  have hpending : ("7", false) ∉ v.reports := by simpa using hreports
  have hstop : Interrupted sampleSettings "7" sampleWorld v :=
    .poll (.refl _) rfl (List.mem_cons_of_mem sampleWorld hv)
  have hprogress := (hlaw "7" sampleWorld v sampleAnswers rfl hstop hpending rfl).mpr trivial
  unfold Progress at hprogress
  rw [@poll_ready { v with faults := [] } sampleSettings sampleAnswers "7" rfl rfl hready]
    at hprogress
  rcases hprogress with ⟨hlinked, -⟩ | hreported
  · rw [hlink] at hlinked
    cases hlinked
  · exact hpending hreported

end RestorePoll
