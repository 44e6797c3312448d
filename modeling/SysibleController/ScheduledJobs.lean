import SysibleController.KeyedTable
import SysibleController.PythonText
import SysibleController.Schedules

/-! The store of scheduled jobs (`webgui/schedules.py`). Each function that changes it does so
under the module's lock, and leaves it alone when it raises. Clocks and time stamps count
microseconds; the zone database is a parameter. -/
namespace ScheduledJobs

open KeyedTable PythonText Schedules

structure RunRecord where
  time : ℚ
  status : String
  detail : String
  deriving DecidableEq

structure StoredJob where
  id : String
  name : String
  action : String
  arg : String
  targets : List String
  cadence : String
  atText : String
  weekday : ℤ
  tz : String
  enabled : Bool
  lastRun : Option ℚ
  lastStatus : Option String
  lastDetail : String
  history : List RunRecord
  nextRun : Option ℤ
  deriving DecidableEq

abbrev Jobs := Table StoredJob.id

/-- `ACTIONS`, with their labels. -/
def actions : List (String × String) :=
  [("patch_scan", "Rescan patch status (live)"), ("posture_scan", "Rescan compliance posture"),
    ("security_updates", "Install security updates"), ("all_updates", "Install all updates"),
    ("clean_pkg_cache", "Clean package cache"), ("vacuum_journal", "Vacuum journal logs (7 days)"),
    ("fstrim", "Trim filesystems (fstrim)"), ("clear_failed_units", "Clear failed units"),
    ("sync_time", "Sync clock now"), ("restart_service", "Restart a service"),
    ("run_command", "Run a shell command"), ("reboot", "Reboot")]

def argActions : List (String × String) :=
  [("restart_service", "Service name"), ("run_command", "Command")]

def cadences : List String := ["hourly", "daily", "weekly"]

def cadenceOf (text : String) : Cadence :=
  if text = "hourly" then .hourly else if text = "weekly" then .weekly else .daily

variable (zones : String → ZonedTime.Zone)

def StoredJob.schedule (j : StoredJob) : Schedules.Job :=
  ⟨cadenceOf j.cadence, some j.atText, some j.weekday⟩

/-- `compute_next_run(j)` at the given time. -/
def nextAfter (j : StoredJob) (now : ℚ) : ℤ := computeNextRun (zones j.tz) j.schedule now

def validate (action cadence arg : String) : Except String Unit :=
  if actions.all (·.1 ≠ action) then .error s!"Unknown action: {action}"
  else if cadence ∉ cadences then .error s!"Unknown cadence: {cadence}"
  else match argActions.lookup action with
    | some label =>
      if strip arg = "" then .error s!"{label} is required for this action." else .ok ()
    | none => .ok ()

/-- What a call asks of a new job. -/
structure NewJob where
  name : String
  action : String
  targets : List String
  cadence : String
  atText : String
  weekday : ℤ
  arg : String
  tz : String

def orElse (s default : String) : String := if s = "" then default else s

/-- `create_job`, under the id it has drawn. -/
def createJob (r : NewJob) (id : String) (now : ℚ) (jobs : Jobs) :
    Except String (Jobs × StoredJob) := do
  validate r.action r.cadence r.arg
  let job : StoredJob :=
    { id := id
      name := strip (orElse r.name ((actions.lookup r.action).getD ""))
      action := r.action
      arg := strip r.arg
      targets := r.targets
      cadence := r.cadence
      atText := orElse r.atText "02:00"
      weekday := r.weekday
      tz := strip r.tz
      enabled := true
      lastRun := none
      lastStatus := none
      lastDetail := ""
      history := []
      nextRun := none }
  let job := { job with nextRun := some (nextAfter zones job now) }
  return (jobs.put job, job)

/-- The fields of an update; `none` leaves a field as it is. -/
structure Fields where
  name : Option String
  action : Option String
  arg : Option String
  targets : Option (List String)
  cadence : Option String
  atText : Option String
  weekday : Option ℤ
  enabled : Option Bool
  tz : Option String

def StoredJob.edit (f : Fields) (j : StoredJob) : StoredJob :=
  { j with
    name := f.name.getD j.name
    action := f.action.getD j.action
    arg := f.arg.getD j.arg
    targets := f.targets.getD j.targets
    cadence := f.cadence.getD j.cadence
    atText := f.atText.getD j.atText
    weekday := f.weekday.getD j.weekday
    enabled := f.enabled.getD j.enabled
    tz := f.tz.getD j.tz }

def StoredJob.reschedule (now : ℚ) (j : StoredJob) : StoredJob :=
  { j with nextRun := some (nextAfter zones j now) }

theorem reschedule_id (now : ℚ) (j : StoredJob) : (j.reschedule zones now).id = j.id := rfl

theorem edit_id (now : ℚ) (f : Fields) (j : StoredJob) :
    ((j.edit f).reschedule zones now).id = j.id := rfl

/-- `update_job`; the text is that of the `ValueError`. -/
def updateJob (id : String) (f : Fields) (now : ℚ) (jobs : Jobs) : Except String Jobs :=
  match jobs.find id with
  | none => .ok jobs
  | some j => do
    let j' := j.edit f
    validate j'.action j'.cadence j'.arg
    return jobs.update id (fun j => (j.edit f).reschedule zones now) (edit_id zones now f)

def deleteJob (id : String) (jobs : Jobs) : Jobs := jobs.deleteWhere fun j => j.id = id

def StoredJob.recorded (status detail : String) (now : ℚ) (j : StoredJob) : StoredJob :=
  let detail := String.ofList (detail.toList.take 500)
  let history := j.history ++ [⟨now, status, detail⟩]
  { j with
    lastRun := some now
    lastStatus := some status
    lastDetail := detail
    history := history.drop (history.length - 15) }

theorem recorded_id (status detail : String) (now : ℚ) (j : StoredJob) :
    ((j.recorded status detail now).reschedule zones now).id = j.id := rfl

def recordRun (id status detail : String) (now : ℚ) (jobs : Jobs) : Jobs :=
  jobs.update id (fun j => (j.recorded status detail now).reschedule zones now)
    (recorded_id zones status detail now)

def advanceNextRun (id : String) (now : ℚ) (jobs : Jobs) : Jobs :=
  jobs.update id (StoredJob.reschedule zones now) (reschedule_id zones now)

def StoredJob.DueAt (now : ℚ) (j : StoredJob) : Prop :=
  j.enabled = true ∧ ∃ n, j.nextRun = some n ∧ (n : ℚ) ≤ now

instance (now : ℚ) (j : StoredJob) : Decidable (j.DueAt now) :=
  match h : j.nextRun with
  | none => .isFalse (by simp [StoredJob.DueAt, h])
  | some n => decidable_of_iff (j.enabled = true ∧ (n : ℚ) ≤ now) (by simp [StoredJob.DueAt, h])

/-- What `due_jobs` does with one job it has loaded: a legacy job without a next run is
scheduled forward. -/
def scanJob (saved : Bool) (clock : ℚ) (jobs : Jobs) (j : StoredJob) : Except Unit Jobs :=
  if j.enabled = true ∧ j.nextRun = none then
    match updateJob zones j.id ⟨some j.name, none, none, none, none, none, none, none, none⟩
        clock jobs with
    | .error _ => .error ()
    | .ok jobs' => if saved ∨ jobs.find j.id = none then .ok jobs' else .error ()
  else .ok jobs

end ScheduledJobs
