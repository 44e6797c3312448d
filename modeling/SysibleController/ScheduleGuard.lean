import SysibleController.ScheduledJobs
import SysibleController.SchedulerLoop
import SysibleController.Interleaving

/-! Who may put a free-form command on the schedule: the requests of `server.py` with their guard
as a step of its own, beside the scheduler, which writes the same store. -/
namespace ScheduleGuard

open KeyedTable PythonText ScheduledJobs TransitionSystem Interleaving

structure ScheduleRequest where
  name : String
  action : String
  arg : String
  targets : List String
  cadence : String
  atText : String
  weekday : ℤ
  enabled : Bool
  tz : String
  deriving DecidableEq

def freeformActions : List String := ["run_command", "restart_service"]

/-- `_guard_freeform_schedule`: whether the request may go on. -/
def guardFreeformSchedule (role : Option String) (actions : List String) : Bool :=
  !(actions.any fun a => a ∈ freeformActions) || role = some "superuser"

inductive RunPhase where
  | looking
  | running (job : StoredJob)
  | recording
  deriving DecidableEq

inductive LoopPhase where
  | loading
  | scanning (now : ℚ) (rest due : List StoredJob)
  | working (rest : List StoredJob)
  | running (job : StoredJob) (rest : List StoredJob)
  | recording (job : StoredJob) (rest : List StoredJob)
  deriving DecidableEq

/-- The calls under way: requests, of sessions with some role, and rounds of the scheduler. -/
inductive Thread where
  | create (role : Option String) (body : ScheduleRequest) (guarded : Bool)
  | update (role : Option String) (id : String) (body : ScheduleRequest) (guarded : Bool)
  | delete (id : String)
  | runNow (role : Option String) (id : String) (phase : RunPhase)
  | round (phase : LoopPhase)
  deriving DecidableEq

/-- What the store's outside sees of a step. -/
inductive Outcome where
  | silent
  | refused
  | accepted (role : Option String) (body : ScheduleRequest)
  | runs (job : StoredJob)
  deriving DecidableEq

/-- The clock, whether the file can be written, an id from `uuid4`, and how a run ends. -/
structure Env where
  now : ℚ
  saved : Bool
  id : String
  status : String
  detail : String

abbrev Next (φ : Type) := Jobs × Outcome × Option φ

variable (zones : String → ZonedTime.Zone)

def ScheduleRequest.newJob (body : ScheduleRequest) : NewJob :=
  ⟨body.name, body.action, body.targets, body.cadence, body.atText, body.weekday, body.arg,
    body.tz⟩

/-- Every field of a request has a value, if only its default. -/
def ScheduleRequest.fields (body : ScheduleRequest) : Fields :=
  ⟨some body.name, some body.action, some body.arg, some body.targets, some body.cadence,
    some body.atText, some body.weekday, some body.enabled, some body.tz⟩

def schedulesCreate (env : Env) (jobs : Jobs) (role : Option String) (body : ScheduleRequest) :
    Bool → Next Bool
  | false =>
    if guardFreeformSchedule role [body.action] then (jobs, .silent, some true)
    else (jobs, .refused, none)
  | true =>
    match createJob zones body.newJob env.id env.now jobs with
    | .error _ => (jobs, .refused, none)
    | .ok (jobs', _) =>
      if env.saved then (jobs', .accepted role body, none) else (jobs, .refused, none)

def schedulesUpdate (env : Env) (jobs : Jobs) (role : Option String) (id : String)
    (body : ScheduleRequest) : Bool → Next Bool
  | false =>
    if guardFreeformSchedule role (body.action :: ((jobs.find id).map StoredJob.action).toList) then
      (jobs, .silent, some true)
    else (jobs, .refused, none)
  | true =>
    match updateJob zones id body.fields env.now jobs with
    | .error _ => (jobs, .refused, none)
    | .ok jobs' =>
      if (jobs.find id).isNone || !env.saved then (jobs, .refused, none)
      else (jobs', .accepted role body, none)

def schedulesRunNow (env : Env) (jobs : Jobs) (role : Option String) (id : String) :
    RunPhase → Next RunPhase
  | .looking =>
    match jobs.find id with
    | none => (jobs, .refused, none)
    | some job =>
      if guardFreeformSchedule role [job.action] then (jobs, .silent, some (.running job))
      else (jobs, .refused, none)
  | .running job => (jobs, .runs job, some .recording)
  | .recording =>
    (if env.saved then recordRun zones id env.status env.detail env.now jobs else jobs, .silent,
      none)

/-- One round of `_scheduler_loop`; an error of `due_jobs` ends it. -/
def schedulerRound (env : Env) (jobs : Jobs) : LoopPhase → Next LoopPhase
  | .loading => (jobs, .silent, some (.scanning env.now jobs.rows []))
  | .scanning _ [] due => (jobs, .silent, some (.working due))
  | .scanning now (job :: rest) due =>
    match scanJob zones env.saved env.now jobs job with
    | .error _ => (jobs, .silent, none)
    | .ok jobs' =>
      (jobs', .silent, some (.scanning now rest (if job.DueAt now then due ++ [job] else due)))
  | .working [] => (jobs, .silent, none)
  | .working (job :: rest) =>
    if (jobs.find job.id).isSome && env.saved then
      (advanceNextRun zones job.id env.now jobs, .silent, some (.running job rest))
    else (jobs, .silent, some (.working rest))
  | .running job rest => (jobs, .runs job, some (.recording job rest))
  | .recording job rest =>
    (if env.saved then recordRun zones job.id env.status env.detail env.now jobs else jobs,
      .silent, some (.working rest))

def Next.thread {φ : Type} (f : φ → Thread) (r : Next φ) : Next Thread :=
  (r.1, r.2.1, r.2.2.map f)

def scheduleStep (env : Env) (jobs : Jobs) : Thread → Next Thread
  | .create role body g => (schedulesCreate zones env jobs role body g).thread (.create role body)
  | .update role id body g =>
    (schedulesUpdate zones env jobs role id body g).thread (.update role id body)
  | .delete id => (if env.saved then deleteJob id jobs else jobs, .silent, none)
  | .runNow role id phase => (schedulesRunNow zones env jobs role id phase).thread (.runNow role id)
  | .round phase => (schedulerRound zones env jobs phase).thread .round

def Entry : Thread → Prop
  | .create _ _ g | .update _ _ _ g => g = false
  | .delete _ => True
  | .runNow _ _ phase => phase = .looking
  | .round phase => phase = .loading

def schedules : Program Jobs Thread Outcome :=
  ⟨Entry, fun jobs th e jobs' th' => ∃ env, jobs.find env.id = none ∧
    scheduleStep zones env jobs th = (jobs', e, th')⟩

abbrev Log := List (Event Thread Outcome)

/-! ## Provenance -/

/-- An accepted request of a superuser session asked for this action with this argument, which a
creation stores without the white space around it. -/
def Asked (log : Log) (action arg : String) : Prop :=
  ∃ th body, Event.act th (.accepted (some "superuser") body) ∈ log ∧ body.action = action ∧
    (body.arg = arg ∨ strip body.arg = arg)

def Licensed (log : Log) (job : StoredJob) : Prop :=
  job.action ∈ freeformActions → Asked log job.action job.arg

/-- The jobs that a thread has in its hands. -/
def Thread.held : Thread → List StoredJob
  | .runNow _ _ (.running job) => [job]
  | .round (.scanning _ rest due) => rest ++ due
  | .round (.working rest) => rest
  | .round (.running job rest) | .round (.recording job rest) => job :: rest
  | _ => []

/-- Past its guard, a request for a free-form action is of a superuser session. -/
def Thread.Guarded : Thread → Prop
  | .create role body true | .update role _ body true =>
    body.action ∈ freeformActions → role = some "superuser"
  | _ => True

variable {zones} {env : Env} {jobs jobs' : Jobs} {th : Thread} {th' : Option Thread} {e : Outcome}
variable {log : Log} {j j' : StoredJob} {k : String}

theorem Asked.mono {action arg : String} (h : Asked log action arg) (ev : Event Thread Outcome) :
    Asked (log ++ [ev]) action arg := by
  obtain ⟨th, body, hmem, hrest⟩ := h
  exact ⟨th, body, List.mem_append_left _ hmem, hrest⟩

theorem Licensed.mono (h : Licensed log j) (ev : Event Thread Outcome) :
    Licensed (log ++ [ev]) j := fun hfree => (h hfree).mono ev

/-! ## What one step does to a stored row -/

/-- The row says to do the same thing. -/
def SameTask (j j' : StoredJob) : Prop := j'.action = j.action ∧ j'.arg = j.arg

/-- The row is one of before, with the same task, or has the task of a request that is accepted
in this step. -/
def RowFrom (jobs : Jobs) (th : Thread) (e : Outcome) (k : String) (j' : StoredJob) : Prop :=
  (∃ j, jobs.find k = some j ∧ SameTask j j') ∨
    ∃ role body, e = .accepted role body ∧
      (th = .create role body true ∨ ∃ id, th = .update role id body true) ∧
      body.action = j'.action ∧ (body.arg = j'.arg ∨ strip body.arg = j'.arg)

theorem RowFrom.same (h : jobs.find k = some j) : RowFrom jobs th e k j := .inl ⟨j, h, rfl, rfl⟩

theorem createJob_task {r : NewJob} {id : String} {now : ℚ}
    (h : createJob zones r id now jobs = .ok (jobs', j)) :
    j.action = r.action ∧ j.arg = strip r.arg := by
  unfold createJob at h
  cases hv : validate r.action r.cadence r.arg with
  | error text => simp [hv, bind, Except.bind] at h
  | ok =>
    simp only [hv, bind, Except.bind, pure, Except.pure, Except.ok.injEq, Prod.mk.injEq] at h
    rw [← h.2]
    exact ⟨rfl, rfl⟩

theorem recordRun_row {id status detail : String} {now : ℚ}
    (h : (recordRun zones id status detail now jobs).find k = some j') :
    ∃ j, jobs.find k = some j ∧ SameTask j j' := by
  rcases SchedulerLoop.find_recordRun status detail now jobs k h with h | ⟨-, j, hj, hr⟩
  · exact ⟨j', h, rfl, rfl⟩
  · exact ⟨j, hj, hr.action, hr.arg⟩

theorem saved_record_row {id : String}
    (h : (if env.saved then recordRun zones id env.status env.detail env.now jobs else jobs).find k
      = some j') : RowFrom jobs th e k j' := by
  split at h
  · exact .inl (recordRun_row h)
  · exact .same h

theorem create_row {role : Option String} {body : ScheduleRequest} {g : Bool}
    (h : (schedulesCreate zones env jobs role body g).1.find k = some j') :
    RowFrom jobs (.create role body g) (schedulesCreate zones env jobs role body g).2.1 k j' := by
  cases g with
  | false =>
    simp only [schedulesCreate] at h ⊢
    split at h <;> exact .same h
  | true =>
    simp only [schedulesCreate] at h ⊢
    cases hc : createJob zones body.newJob env.id env.now jobs with
    | error text =>
      rw [hc] at h
      exact .same h
    | ok r =>
      obtain ⟨jobs', job⟩ := r
      rw [hc] at h
      dsimp only at h ⊢
      split at h
      case isFalse hsave => exact .same h
      case isTrue hsave =>
        rw [if_pos hsave]
        rw [(SchedulerLoop.find_createJob hc).2 k] at h
        split at h
        · obtain rfl := Option.some.inj h
          obtain ⟨haction, harg⟩ := createJob_task hc
          exact .inr ⟨role, body, rfl, .inl rfl, haction.symm, .inr harg.symm⟩
        · exact .same h

theorem update_row {role : Option String} {id : String} {body : ScheduleRequest} {g : Bool}
    (h : (schedulesUpdate zones env jobs role id body g).1.find k = some j') :
    RowFrom jobs (.update role id body g) (schedulesUpdate zones env jobs role id body g).2.1 k
      j' := by
  cases g with
  | false =>
    simp only [schedulesUpdate] at h ⊢
    split at h <;> exact .same h
  | true =>
    simp only [schedulesUpdate] at h ⊢
    cases hu : updateJob zones id body.fields env.now jobs with
    | error text =>
      rw [hu] at h
      exact .same h
    | ok jobs' =>
      rw [hu] at h
      dsimp only at h ⊢
      split at h
      case isTrue hsave => exact .same h
      case isFalse hsave =>
        rw [if_neg hsave]
        rw [SchedulerLoop.find_updateJob hu k] at h
        split at h
        · obtain ⟨j, -, rfl⟩ := Option.map_eq_some_iff.mp h
          exact .inr ⟨role, body, rfl, .inr ⟨id, rfl⟩, rfl, .inl rfl⟩
        · exact .same h

theorem runNow_row {role : Option String} {id : String} {phase : RunPhase}
    (h : (schedulesRunNow zones env jobs role id phase).1.find k = some j') :
    RowFrom jobs th e k j' := by
  cases phase with
  | looking =>
    simp only [schedulesRunNow] at h
    split at h
    · exact .same h
    · split at h <;> exact .same h
  | running job => exact .same h
  | recording => exact saved_record_row h

theorem round_row {phase : LoopPhase} (h : (schedulerRound zones env jobs phase).1.find k = some j') :
    RowFrom jobs th e k j' := by
  cases phase with
  | loading => exact .same h
  | scanning now rest due =>
    cases rest with
    | nil => exact .same h
    | cons job rest =>
      simp only [schedulerRound] at h
      cases hs : scanJob zones env.saved env.now jobs job with
      | error text =>
        rw [hs] at h
        exact .same h
      | ok jobs' =>
        rw [hs] at h
        rcases SchedulerLoop.find_scanJob hs k with hfind | ⟨-, -, -, f, rfl, hfind⟩
        · exact .same (hfind ▸ h)
        · dsimp only at h
          rw [hfind] at h
          obtain ⟨j, hj, rfl⟩ := Option.map_eq_some_iff.mp h
          exact .inl ⟨j, hj, rfl, rfl⟩
  | working rest =>
    cases rest with
    | nil => exact .same h
    | cons job rest =>
      simp only [schedulerRound] at h
      split at h
      · rw [advanceNextRun, Table.find_update] at h
        split at h
        · obtain ⟨j, hj, rfl⟩ := Option.map_eq_some_iff.mp h
          exact .inl ⟨j, hj, rfl, rfl⟩
        · exact .same h
      · exact .same h
  | running job rest => exact .same h
  | recording job rest => exact saved_record_row h

/-- `update_job` overwrites both fields of the task, so it is never mixed from two requests. -/
theorem scheduleStep_row (h : (scheduleStep zones env jobs th).1.find k = some j') :
    RowFrom jobs th (scheduleStep zones env jobs th).2.1 k j' := by
  cases th with
  | create role body g => exact create_row h
  | update role id body g => exact update_row h
  | delete id =>
    simp only [scheduleStep] at h
    split at h
    · rw [deleteJob, Table.find_deleteWhere] at h
      exact .same (Option.filter_eq_some_iff.mp h).1
    · exact .same h
  | runNow role id phase => exact runNow_row h
  | round phase => exact round_row h

/-! ## What a step leaves its thread with -/

/-- A row of the store as it is, or a job the thread has already. -/
def Comes (jobs : Jobs) (th : Thread) (j : StoredJob) : Prop :=
  j ∈ th.held ∨ ∃ k, jobs.find k = some j

theorem comes_of_row (h : j ∈ jobs.rows) : Comes jobs th j :=
  .inr ⟨j.id, Table.find_eq_some.mpr ⟨h, rfl⟩⟩

theorem round_held {phase : LoopPhase} {next : LoopPhase}
    (hnext : next ∈ (schedulerRound zones env jobs phase).2.2) (hj : j ∈ (Thread.round next).held) :
    Comes jobs (.round phase) j := by
  cases phase with
  | loading =>
    obtain rfl := Option.some.inj hnext
    exact comes_of_row (by simpa [Thread.held] using hj)
  | scanning now rest due =>
    cases rest with
    | nil =>
      obtain rfl := Option.some.inj hnext
      exact .inl (by simpa [Thread.held] using hj)
    | cons job rest =>
      simp only [schedulerRound] at hnext
      split at hnext
      · cases hnext
      · obtain rfl := Option.some.inj hnext
        refine .inl ?_
        simp only [Thread.held, List.mem_append, List.mem_cons] at hj ⊢
        split at hj
        · simp only [List.mem_append, List.mem_singleton] at hj
          tauto
        · tauto
  | working rest =>
    cases rest with
    | nil => cases hnext
    | cons job rest =>
      simp only [schedulerRound] at hnext
      split at hnext
      · obtain rfl := Option.some.inj hnext
        exact .inl hj
      · obtain rfl := Option.some.inj hnext
        exact .inl (List.mem_cons_of_mem _ hj)
  | running job rest =>
    obtain rfl := Option.some.inj hnext
    exact .inl hj
  | recording job rest =>
    obtain rfl := Option.some.inj hnext
    exact .inl (List.mem_cons_of_mem _ hj)

theorem scheduleStep_held {x : Thread} (hx : x ∈ (scheduleStep zones env jobs th).2.2)
    (hj : j ∈ x.held) : Comes jobs th j := by
  cases th with
  | create role body g =>
    obtain ⟨g', -, rfl⟩ := Option.map_eq_some_iff.mp hx
    cases hj
  | update role id body g =>
    obtain ⟨g', -, rfl⟩ := Option.map_eq_some_iff.mp hx
    cases hj
  | delete id => cases hx
  | runNow role id phase =>
    obtain ⟨next, hnext, rfl⟩ := Option.map_eq_some_iff.mp hx
    cases phase with
    | looking =>
      simp only [schedulesRunNow] at hnext
      split at hnext
      · cases hnext
      · next job hjob =>
        split at hnext
        · obtain rfl := Option.some.inj hnext
          obtain rfl := List.mem_singleton.mp hj
          exact .inr ⟨id, hjob⟩
        · cases hnext
    | running job =>
      obtain rfl := Option.some.inj hnext
      cases hj
    | recording => cases hnext
  | round phase =>
    obtain ⟨next, hnext, rfl⟩ := Option.map_eq_some_iff.mp hx
    exact round_held hnext hj

theorem guard_superuser {role : Option String} {action : String} {more : List String}
    (h : guardFreeformSchedule role (action :: more) = true) (hfree : action ∈ freeformActions) :
    role = some "superuser" := by
  simpa [guardFreeformSchedule, hfree] using h

theorem scheduleStep_guarded {x : Thread} (hx : x ∈ (scheduleStep zones env jobs th).2.2) :
    x.Guarded := by
  cases th with
  | create role body g =>
    obtain ⟨g', hg, rfl⟩ := Option.map_eq_some_iff.mp hx
    cases g with
    | false =>
      simp only [schedulesCreate] at hg
      split at hg
      · next hguard =>
        obtain rfl := Option.some.inj hg
        exact guard_superuser hguard
      · cases hg
    | true =>
      simp only [schedulesCreate] at hg
      split at hg
      · cases hg
      · split at hg <;> cases hg
  | update role id body g =>
    obtain ⟨g', hg, rfl⟩ := Option.map_eq_some_iff.mp hx
    cases g with
    | false =>
      simp only [schedulesUpdate] at hg
      split at hg
      · next hguard =>
        obtain rfl := Option.some.inj hg
        exact guard_superuser hguard
      · cases hg
    | true =>
      simp only [schedulesUpdate] at hg
      split at hg
      · cases hg
      · split at hg <;> cases hg
  | delete id => cases hx
  | runNow role id phase =>
    obtain ⟨next, -, rfl⟩ := Option.map_eq_some_iff.mp hx
    trivial
  | round phase =>
    obtain ⟨next, -, rfl⟩ := Option.map_eq_some_iff.mp hx
    trivial

/-- A job is only run by a thread that holds it. -/
theorem scheduleStep_runs (h : (scheduleStep zones env jobs th).2.1 = .runs j) : j ∈ th.held := by
  cases th with
  | create role body g =>
    cases g <;> simp only [scheduleStep, Next.thread, schedulesCreate] at h <;> grind
  | update role id body g =>
    cases g <;> simp only [scheduleStep, Next.thread, schedulesUpdate] at h <;> grind
  | delete id => cases h
  | runNow role id phase =>
    cases phase <;> simp only [scheduleStep, Next.thread, schedulesRunNow, Thread.held] at h ⊢ <;>
      grind
  | round phase =>
    cases phase with
    | scanning now rest due =>
      cases rest <;> simp only [scheduleStep, Next.thread, schedulerRound] at h <;> grind
    | working rest =>
      cases rest <;> simp only [scheduleStep, Next.thread, schedulerRound] at h <;> grind
    | running job rest =>
      obtain rfl : job = j := by simpa [scheduleStep, Next.thread, schedulerRound] using h
      exact List.mem_cons_self
    | _ => simp [scheduleStep, Next.thread, schedulerRound] at h

/-! ## Every run -/

/-- What the store, the threads and the log have in common in every run. -/
structure Provenance (log : Log) (p : Pool Jobs Thread) : Prop where
  stored : ∀ k j, p.shared.find k = some j → Licensed log j
  held : ∀ th ∈ p.threads, ∀ j ∈ th.held, Licensed log j
  guarded : ∀ th ∈ p.threads, th.Guarded
  ran : ∀ th j, Event.act th (.runs j) ∈ log → Licensed log j

theorem Provenance.comes {p : Pool Jobs Thread} (h : Provenance log p) (hth : th ∈ p.threads)
    (hj : Comes p.shared th j) : Licensed log j := by
  rcases hj with hj | ⟨k, hj⟩
  · exact h.held th hth j hj
  · exact h.stored k j hj

theorem Provenance.row {p : Pool Jobs Thread} (h : Provenance log p) (hth : th ∈ p.threads)
    (hrow : RowFrom p.shared th e k j') : Licensed (log ++ [.act th e]) j' := by
  intro hfree
  rcases hrow with ⟨j, hj, haction, harg⟩ | ⟨role, body, rfl, hth', haction, harg⟩
  · rw [haction] at hfree ⊢
    rw [harg]
    exact (h.stored k j hj).mono _ hfree
  · have hrole : role = some "superuser" := by
      have hguard := h.guarded th hth
      rcases hth' with rfl | ⟨id, rfl⟩ <;> exact hguard (haction ▸ hfree)
    subst hrole
    exact ⟨th, body, by simp, haction, harg⟩

theorem entry_quiet (h : Entry th) : th.held = [] ∧ th.Guarded := by
  cases th with
  | create role body g =>
    obtain rfl : g = false := h
    exact ⟨rfl, trivial⟩
  | update role id body g =>
    obtain rfl : g = false := h
    exact ⟨rfl, trivial⟩
  | delete id => exact ⟨rfl, trivial⟩
  | runNow role id phase =>
    obtain rfl : phase = .looking := h
    exact ⟨rfl, trivial⟩
  | round phase =>
    obtain rfl : phase = .loading := h
    exact ⟨rfl, trivial⟩

theorem provenance_step {p q : Pool Jobs Thread} {ev : Event Thread Outcome}
    (h : Provenance log p) (st : Steps (schedules zones) p ev q) :
    Provenance (log ++ [ev]) q := by
  cases st with
  | @call s ts th hentry =>
    obtain ⟨hheld, hguard⟩ := entry_quiet hentry
    refine ⟨fun k j hj => (h.stored k j hj).mono _, ?_, ?_, ?_⟩
    · intro x hx j hj
      rcases List.mem_cons.mp hx with rfl | hx
      · rw [hheld] at hj
        cases hj
      · exact (h.held x hx j hj).mono _
    · intro x hx
      rcases List.mem_cons.mp hx with rfl | hx
      · exact hguard
      · exact h.guarded x hx
    · intro x j hmem
      refine (h.ran x j ?_).mono _
      simpa using hmem
  | @act s s' pre post th th' e hact =>
    obtain ⟨env, -, hstep⟩ := hact
    have hth : th ∈ (⟨s, pre ++ th :: post⟩ : Pool Jobs Thread).threads := by simp
    have hs' : (scheduleStep zones env s th).1 = s' := by rw [hstep]
    have he : (scheduleStep zones env s th).2.1 = e := by rw [hstep]
    have hnext : (scheduleStep zones env s th).2.2 = th' := by rw [hstep]
    refine ⟨?_, ?_, ?_, ?_⟩
    · intro k j hj
      rw [← hs'] at hj
      exact h.row hth (he ▸ scheduleStep_row hj)
    · intro x hx j hj
      rcases mem_moved th hx with hown | hold
      · exact (h.comes hth (scheduleStep_held (hnext ▸ hown) hj)).mono _
      · exact (h.held x hold j hj).mono _
    · intro x hx
      rcases mem_moved th hx with hown | hold
      · exact scheduleStep_guarded (hnext ▸ hown)
      · exact h.guarded x hold
    · intro x j hmem
      rcases List.mem_append.mp hmem with hmem | hmem
      · exact (h.ran x j hmem).mono _
      · obtain ⟨rfl, rfl⟩ : x = th ∧ Outcome.runs j = e := by simpa using hmem
        exact (h.held x hth j (scheduleStep_runs he)).mono _

theorem run_provenance {p : Pool Jobs Thread}
    (h : ((schedules zones).machine .empty).Run ((schedules zones).machine .empty).start log p) :
    Provenance log p := by
  refine h.history (P := Provenance) ⟨fun k j hj => by simp [Program.machine] at hj, by
    simp [Program.machine], by simp [Program.machine], by simp⟩ ?_
  intro es p e q _ st hp
  exact provenance_step hp st

/-- However the requests, edits and rounds interleave: a stored free-form job, and one that is
run, is what one accepted request of a superuser session asked for. -/
theorem freeform_job_is_superusers (zones : String → ZonedTime.Zone) (log : Log)
    (p : Pool Jobs Thread)
    (h : ((schedules zones).machine .empty).Run ((schedules zones).machine .empty).start log p) :
    (∀ j ∈ p.shared.rows, Licensed log j) ∧
      ∀ th j, Event.act th (.runs j) ∈ log → Licensed log j := by
  have hp := run_provenance h
  exact ⟨fun j hj => hp.stored j.id j (Table.find_eq_some.mpr ⟨hj, rfl⟩), hp.ran⟩

/-! ## A command with white space around it -/

def uptimeRequest : ScheduleRequest :=
  ⟨"uptime", "run_command", " uptime ", [], "daily", "02:00", 0, true, "UTC"⟩

def uptimeEnv : Env := ⟨0, true, "0a1b2c3d4e5f", "ok", ""⟩

def creating (guarded : Bool) : Thread := .create (some "superuser") uptimeRequest guarded

def uptimeStore : Jobs := (scheduleStep SchedulerLoop.utc uptimeEnv .empty (creating true)).1

def uptimeLog : Log :=
  [.call (creating false), .act (creating false) .silent,
    .act (creating true) (.accepted (some "superuser") uptimeRequest)]

theorem uptime_run : ((schedules SchedulerLoop.utc).machine .empty).Run
    ((schedules SchedulerLoop.utc).machine .empty).start uptimeLog ⟨uptimeStore, []⟩ := by
  have hguard : scheduleStep SchedulerLoop.utc uptimeEnv .empty (creating false) =
      (.empty, .silent, some (creating true)) := rfl
  have haccepted : (scheduleStep SchedulerLoop.utc uptimeEnv .empty (creating true)).2 =
      (.accepted (some "superuser") uptimeRequest, none) := by decide
  have hstore : scheduleStep SchedulerLoop.utc uptimeEnv .empty (creating true) =
      (uptimeStore, .accepted (some "superuser") uptimeRequest, none) := by
    rw [← haccepted, uptimeStore]
  exact .cons (.call rfl) (.cons (.first ⟨uptimeEnv, rfl, hguard⟩)
    (.single (.first_ends ⟨uptimeEnv, rfl, hstore⟩)))

theorem freeform_job_is_superusers_uptime :
    (∀ j ∈ uptimeStore.rows, Licensed uptimeLog j) ∧
      ∀ th j, Event.act th (.runs j) ∈ uptimeLog → Licensed uptimeLog j :=
  freeform_job_is_superusers SchedulerLoop.utc uptimeLog ⟨uptimeStore, []⟩ uptime_run

/-- The stored argument is not the one that any request carried. -/
theorem stored_argument_is_stripped : ∃ log p,
    ((schedules SchedulerLoop.utc).machine .empty).Run
      ((schedules SchedulerLoop.utc).machine .empty).start log p ∧
      ∃ j ∈ p.shared.rows, j.action ∈ freeformActions ∧
        ∀ th role body, Event.act th (.accepted role body) ∈ log → body.arg ≠ j.arg := by
  have hrow : ∃ j ∈ uptimeStore.rows, j.action = "run_command" ∧ j.arg = "uptime" := by
    decide
  obtain ⟨j, hj, haction, harg⟩ := hrow
  refine ⟨uptimeLog, _, uptime_run, j, hj, by simp [haction, freeformActions], ?_⟩
  intro th role body hmem
  obtain ⟨-, -, rfl⟩ : th = creating true ∧ role = some "superuser" ∧ body = uptimeRequest := by
    simpa [uptimeLog] using hmem
  rw [harg]
  decide

end ScheduleGuard
