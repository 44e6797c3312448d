import SysibleController.ScheduledJobs
import SysibleController.TransitionSystem

/-! The scheduler loop (`_scheduler_loop`) beside the requests that create, edit, delete and
run jobs. The loop works through the due jobs of a snapshot, and a run takes as long as it
takes, so any number of requests fall between two of its steps. A run ends when it is
recorded; a manual run that raises stays under way for ever. -/
namespace SchedulerLoop

open KeyedTable ScheduledJobs TransitionSystem

/-- Where the scheduler's thread stands. -/
inductive LoopPoint where
  | asleep
  | clocked (now : ℚ)
  | scanning (now : ℚ) (rest due : List StoredJob)
  | working (rest : List StoredJob)
  | running (job : StoredJob) (start : ℚ) (rest : List StoredJob)

/-- Where one `schedules_run_now` request stands. -/
inductive ManualPoint where
  | found (job : StoredJob)
  | running (job : StoredJob) (start : ℚ)

structure State where
  clock : ℚ
  jobs : Jobs
  loop : LoopPoint
  manual : List ManualPoint

inductive Event where
  | passes (now : ℚ)
  | wakes
  | loads
  | scans (job : StoredJob) (saved : Bool)
  | breaks
  | gathered
  | starts (job stored : StoredJob) (time : ℚ)
  | skips (saved : Bool)
  | records (job : StoredJob) (status detail : String) (saved : Bool)
  | sleeps
  | creates (r : NewJob) (id : String)
  | updates (id : String) (f : Fields)
  | deletes (id : String)
  | looksUp (job : StoredJob)
  | startsNow (job : StoredJob) (time : ℚ)
  | recordsNow (job : StoredJob) (start : ℚ) (status detail : String) (saved : Bool)

/-- The jobs the loop still holds, the one it runs included. -/
def LoopPoint.held : LoopPoint → List StoredJob
  | .scanning _ rest due => due ++ rest
  | .working rest => rest
  | .running job _ rest => job :: rest
  | _ => []

/-- The due jobs the loop has still to come to. -/
def LoopPoint.ahead : LoopPoint → List StoredJob
  | .scanning now rest due => due ++ rest.filter fun j => j.DueAt now
  | .working rest => rest
  | .running _ _ rest => rest
  | _ => []

def ManualPoint.job : ManualPoint → StoredJob
  | .found job => job
  | .running job _ => job

/-- An id that `uuid4` may draw. -/
def State.Fresh (s : State) (id : String) : Prop :=
  s.jobs.find id = none ∧ (∀ j ∈ s.loop.held, j.id ≠ id) ∧ ∀ p ∈ s.manual, p.job.id ≠ id

variable (zones : String → ZonedTime.Zone)

inductive Step : State → Event → State → Prop where
  | passes {s} (now : ℚ) : s.clock ≤ now → Step s (.passes now) { s with clock := now }
  | wakes {s} : s.loop = .asleep → Step s .wakes { s with loop := .clocked s.clock }
  | loads {s now} : s.loop = .clocked now →
      Step s .loads { s with loop := .scanning now s.jobs.rows [] }
  | scans {s now job rest due saved jobs} : s.loop = .scanning now (job :: rest) due →
      scanJob zones saved s.clock s.jobs job = .ok jobs →
      Step s (.scans job saved)
        { s with
          jobs := jobs
          loop := .scanning now rest (if job.DueAt now then due ++ [job] else due) }
  | breaks {s now job rest due saved} : s.loop = .scanning now (job :: rest) due →
      scanJob zones saved s.clock s.jobs job = .error () →
      Step s .breaks { s with loop := .asleep }
  | gathered {s now due} : s.loop = .scanning now [] due →
      Step s .gathered { s with loop := .working due }
  | starts {s job rest stored} : s.loop = .working (job :: rest) →
      s.jobs.find job.id = some stored →
      Step s (.starts job stored s.clock)
        { s with
          jobs := advanceNextRun zones job.id s.clock s.jobs
          loop := .running job s.clock rest }
  | skips {s job rest} (saved : Bool) : s.loop = .working (job :: rest) →
      (saved = true → s.jobs.find job.id = none) →
      Step s (.skips saved) { s with loop := .working rest }
  | records {s job start rest} (status detail : String) (saved : Bool) :
      s.loop = .running job start rest →
      Step s (.records job status detail saved)
        { s with
          jobs := if saved then recordRun zones job.id status detail s.clock s.jobs else s.jobs
          loop := .working rest }
  | sleeps {s} : s.loop = .working [] → Step s .sleeps { s with loop := .asleep }
  | creates {s r id jobs job} : s.Fresh id →
      createJob zones r id s.clock s.jobs = .ok (jobs, job) →
      Step s (.creates r id) { s with jobs := jobs }
  | updates {s id f jobs} : updateJob zones id f s.clock s.jobs = .ok jobs →
      Step s (.updates id f) { s with jobs := jobs }
  | deletes {s} (id : String) : Step s (.deletes id) { s with jobs := deleteJob id s.jobs }
  | looksUp {s id job} : s.jobs.find id = some job →
      Step s (.looksUp job) { s with manual := s.manual ++ [.found job] }
  | startsNow {s before job after} : s.manual = before ++ .found job :: after →
      Step s (.startsNow job s.clock) { s with manual := before ++ .running job s.clock :: after }
  | recordsNow {s before job start after} (status detail : String) (saved : Bool) :
      s.manual = before ++ .running job start :: after →
      Step s (.recordsNow job start status detail saved)
        { s with
          jobs := if saved then recordRun zones job.id status detail s.clock s.jobs else s.jobs
          manual := before ++ after }

/-- The process starts with the jobs on disk and an idle thread. -/
def scheduler (clock : ℚ) (jobs : Jobs) : Machine State Event :=
  ⟨⟨clock, jobs, .asleep, []⟩, Step zones⟩

/-! ### What one step does to the stored jobs -/

/-- The event is an edit of the job under this id. -/
def Event.Edits (id : String) : Event → Prop
  | .creates _ i => i = id
  | .updates i _ => i = id
  | .deletes i => i = id
  | _ => False

/-- The event computes the job's next run anew, of itself. -/
def Event.Recomputes (id : String) : Event → Prop
  | .scans job _ => job.id = id ∧ job.enabled = true ∧ job.nextRun = none
  | .starts job _ _ => job.id = id
  | .records job _ _ saved => job.id = id ∧ saved = true
  | .recordsNow job _ _ _ saved => job.id = id ∧ saved = true
  | _ => False

variable {zones} {s t u : State} {e : Event} {es : List Event} {id : String} {j j' p : StoredJob}

theorem find_updateJob {f : Fields} {now : ℚ} {jobs jobs' : Jobs}
    (h : updateJob zones id f now jobs = .ok jobs') (k : String) :
    jobs'.find k = if k = id then
      (jobs.find k).map fun j => (j.edit f).reschedule zones now else jobs.find k := by
  unfold updateJob at h
  cases hj : jobs.find id with
  | none =>
    rw [hj] at h
    obtain rfl : jobs = jobs' := Except.ok.inj h
    by_cases hk : k = id
    · simp [hk, hj]
    · simp [hk]
  | some j =>
    rw [hj] at h
    cases hv : validate (j.edit f).action (j.edit f).cadence (j.edit f).arg with
    | error text => simp [hv, bind, Except.bind] at h
    | ok =>
      simp only [hv, bind, Except.bind, pure, Except.pure, Except.ok.injEq] at h
      subst h
      simp

theorem find_createJob {r : NewJob} {now : ℚ} {jobs jobs' : Jobs}
    (h : createJob zones r id now jobs = .ok (jobs', j)) :
    j.id = id ∧ ∀ k, jobs'.find k = if k = id then some j else jobs.find k := by
  unfold createJob at h
  cases hv : validate r.action r.cadence r.arg with
  | error text => simp [hv, bind, Except.bind] at h
  | ok =>
    simp only [hv, bind, Except.bind, pure, Except.pure, Except.ok.injEq, Prod.mk.injEq] at h
    obtain ⟨rfl, rfl⟩ := h
    exact ⟨rfl, fun k => by simp⟩

theorem find_scanJob {saved : Bool} {now : ℚ} {jobs jobs' : Jobs}
    (h : scanJob zones saved now jobs j = .ok jobs') (k : String) :
    jobs'.find k = jobs.find k ∨ (k = j.id ∧ j.enabled = true ∧ j.nextRun = none ∧
      ∃ f : Fields, f = ⟨some j.name, none, none, none, none, none, none, none, none⟩ ∧
        jobs'.find k = (jobs.find k).map fun j => (j.edit f).reschedule zones now) := by
  unfold scanJob at h
  by_cases hj : j.enabled = true ∧ j.nextRun = none
  · rw [if_pos hj] at h
    cases hu : updateJob zones j.id
        ⟨some j.name, none, none, none, none, none, none, none, none⟩ now jobs with
    | error text => simp [hu] at h
    | ok jobs'' =>
      simp only [hu] at h
      by_cases hs : saved = true ∨ jobs.find j.id = none
      case neg => simp [hs] at h
      rw [if_pos hs] at h
      obtain rfl : jobs'' = jobs' := Except.ok.inj h
      have hfind := find_updateJob hu k
      by_cases hk : k = j.id
      · rw [if_pos hk] at hfind
        exact .inr ⟨hk, hj.1, hj.2, _, rfl, hfind⟩
      · rw [if_neg hk] at hfind
        exact .inl hfind
  · rw [if_neg hj] at h
    obtain rfl : jobs = jobs' := Except.ok.inj h
    exact .inl rfl

/-- What a step that edits nothing does to the row under an id: it leaves it alone, or computes
its next run from the clock and changes nothing a run is made of. -/
structure Recomputed (zones : String → ZonedTime.Zone) (now : ℚ) (j j' : StoredJob) : Prop where
  enabled : j'.enabled = j.enabled
  action : j'.action = j.action
  arg : j'.arg = j.arg
  targets : j'.targets = j.targets
  nextRun : j'.nextRun = some (nextAfter zones j now)

theorem find_recordRun (status detail : String) (now : ℚ) (jobs : Jobs) (k : String)
    (hj : (recordRun zones id status detail now jobs).find k = some j') :
    jobs.find k = some j' ∨ k = id ∧ ∃ j, jobs.find k = some j ∧ Recomputed zones now j j' := by
  unfold recordRun at hj
  rw [Table.find_update] at hj
  by_cases hk : k = id
  · rw [if_pos hk] at hj
    obtain ⟨j, hrow, rfl⟩ := Option.map_eq_some_iff.mp hj
    exact .inr ⟨hk, j, hrow, rfl, rfl, rfl, rfl, rfl⟩
  · rw [if_neg hk] at hj
    exact .inl hj

theorem step_row (h : Step zones s e u) (hj : u.jobs.find id = some j') (he : ¬ e.Edits id) :
    s.jobs.find id = some j' ∨
      e.Recomputes id ∧ ∃ j, s.jobs.find id = some j ∧ Recomputed zones s.clock j j' := by
  cases h with
  | scans hl hs =>
    rcases find_scanJob hs id with hrow | ⟨hid, hen, hnone, f, rfl, hrow⟩
    · exact .inl (hrow ▸ hj)
    · have hj : _ = some j' := hj
      rw [hrow] at hj
      obtain ⟨j, hfind, rfl⟩ := Option.map_eq_some_iff.mp hj
      exact .inr ⟨⟨hid.symm, hen, hnone⟩, j, hfind, rfl, rfl, rfl, rfl, rfl⟩
  | @starts job rest stored hl hs =>
    have hj : (advanceNextRun zones job.id s.clock s.jobs).find id = some j' := hj
    rw [advanceNextRun, Table.find_update] at hj
    by_cases hid : id = job.id
    · rw [if_pos hid] at hj
      obtain ⟨j, hfind, rfl⟩ := Option.map_eq_some_iff.mp hj
      exact .inr ⟨hid.symm, j, hfind, rfl, rfl, rfl, rfl, rfl⟩
    · rw [if_neg hid] at hj
      exact .inl hj
  | records status detail saved hl =>
    cases saved with
    | false => exact .inl hj
    | true =>
      rcases find_recordRun status detail s.clock s.jobs id hj with hrow | ⟨hid, hrow⟩
      · exact .inl hrow
      · exact .inr ⟨⟨hid.symm, rfl⟩, hrow⟩
  | recordsNow status detail saved hl =>
    cases saved with
    | false => exact .inl hj
    | true =>
      rcases find_recordRun status detail s.clock s.jobs id hj with hrow | ⟨hid, hrow⟩
      · exact .inl hrow
      · exact .inr ⟨⟨hid.symm, rfl⟩, hrow⟩
  | creates hfresh hc =>
    have hfind := (find_createJob hc).2 id
    rw [if_neg fun hid => he hid.symm] at hfind
    exact .inl (hfind ▸ hj)
  | updates hu =>
    have hfind := find_updateJob hu id
    rw [if_neg fun hid => he hid.symm] at hfind
    exact .inl (hfind ▸ hj)
  | deletes i =>
    have hj : (s.jobs.deleteWhere _).find id = some j' := hj
    rw [Table.find_deleteWhere] at hj
    exact .inl (Option.filter_eq_some_iff.mp hj).1
  | _ => exact .inl hj

/-! ### A job runs in the form it was found due in -/

/-- The stored row is due and still says what the job `p` of the snapshot says. -/
structure InForm (now : ℚ) (p j : StoredJob) : Prop where
  enabled : j.enabled = true
  due : j.DueAt now
  action : j.action = p.action
  arg : j.arg = p.arg
  targets : j.targets = p.targets

/-- No edit and no record of a manual run takes a job that the loop has still to come to out of
the form it was found in. -/
def KeepsForm (zones : String → ZonedTime.Zone) (s : State) : Event → Prop
  | .updates id f => ∀ p ∈ s.loop.ahead, p.id = id → ∀ j, s.jobs.find id = some j →
      InForm s.clock p ((j.edit f).reschedule zones s.clock)
  | .recordsNow job _ _ _ saved => saved = true → ∀ p ∈ s.loop.ahead, p.id = job.id →
      ∀ j, s.jobs.find p.id = some j → (nextAfter zones j s.clock : ℚ) ≤ s.clock
  | _ => True

/-- The loop holds each job once, and what it has still to come to is in form. -/
structure Snapshot (s : State) : Prop where
  clocked : ∀ now, s.loop = .clocked now → now ≤ s.clock
  nodup : (s.loop.held.map StoredJob.id).Nodup
  inForm : ∀ p ∈ s.loop.ahead, ∀ j, s.jobs.find p.id = some j → InForm s.clock p j

theorem InForm.later {now now' : ℚ} (h : InForm now p j) (hle : now ≤ now') : InForm now' p j := by
  obtain ⟨hen, n, hn, hdue⟩ := h.due
  exact ⟨h.enabled, ⟨hen, n, hn, hdue.trans hle⟩, h.action, h.arg, h.targets⟩

theorem InForm.of_recomputed {now : ℚ} (h : InForm now p j) (hr : Recomputed zones now j j')
    (hdue : (nextAfter zones j now : ℚ) ≤ now) : InForm now p j' := by
  have hen : j'.enabled = true := hr.enabled.trans h.enabled
  exact ⟨hen, ⟨hen, _, hr.nextRun, hdue⟩, hr.action.trans h.action, hr.arg.trans h.arg,
    hr.targets.trans h.targets⟩

theorem ahead_subset_held {loop : LoopPoint} {p : StoredJob} (h : p ∈ loop.ahead) :
    p ∈ loop.held := by
  cases loop with
  | scanning now rest due =>
    rcases List.mem_append.mp h with h | h
    · exact List.mem_append_left _ h
    · exact List.mem_append_right _ (List.mem_of_mem_filter h)
  | working rest => exact h
  | running job start rest => exact List.mem_cons_of_mem _ h
  | _ => exact nomatch h

theorem DueAt.inForm {now : ℚ} (h : j.DueAt now) : InForm now j j :=
  ⟨h.1, h, rfl, rfl, rfl⟩

/-- The thread moves on without taking a job back. -/
theorem Step.held_sublist (h : Step zones s e u) (hl : e ≠ .loads) :
    (u.loop.held.Sublist s.loop.held) ∧ ∀ p ∈ u.loop.ahead, p ∈ s.loop.ahead := by
  cases h with
  | loads => exact absurd rfl hl
  | wakes h => exact ⟨List.nil_sublist _, fun p hp => nomatch hp⟩
  | breaks h => exact ⟨List.nil_sublist _, fun p hp => nomatch hp⟩
  | sleeps h => exact ⟨List.nil_sublist _, fun p hp => nomatch hp⟩
  | @scans now job rest due saved jobs h hs =>
    rw [h]
    by_cases hdue : job.DueAt now
    · simp [LoopPoint.held, LoopPoint.ahead, hdue]
    · simp [LoopPoint.held, LoopPoint.ahead, hdue]
  | gathered h =>
    rw [h]
    simp [LoopPoint.held, LoopPoint.ahead]
  | starts h hj =>
    rw [h]
    exact ⟨List.Sublist.refl _, fun p hp => List.mem_cons_of_mem _ hp⟩
  | skips saved h =>
    rw [h]
    exact ⟨List.sublist_cons_self _ _, fun p hp => List.mem_cons_of_mem _ hp⟩
  | records status detail saved h =>
    rw [h]
    exact ⟨List.sublist_cons_self _ _, fun p hp => hp⟩
  | _ => exact ⟨List.Sublist.refl _, fun p hp => hp⟩

/-- What a scan, an advance or a record of the loop's own recomputes is no longer ahead. -/
theorem Step.recomputes_ahead (h : Step zones s e u) (hs : Snapshot s) {p : StoredJob}
    (hp : p ∈ u.loop.ahead) (hre : e.Recomputes p.id) :
    ∃ job start status detail, e = .recordsNow job start status detail true ∧ job.id = p.id := by
  have hnot : ∀ job rest, s.loop.held = job :: rest → p ∈ rest → job.id ≠ p.id := by
    intro job rest hheld hmem hid
    have hnodup := hs.nodup
    rw [hheld, List.map_cons, List.nodup_cons] at hnodup
    exact hnodup.1 (hid ▸ List.mem_map_of_mem hmem)
  cases h with
  | @scans now job rest due saved jobs h hsc =>
    obtain ⟨hid, hen, hnone⟩ := hre
    have hdue : ¬ job.DueAt now := by
      rintro ⟨-, n, hn, -⟩
      simp [hnone] at hn
    simp only [if_neg hdue] at hp
    have hmem : p ∈ due ++ rest := @ahead_subset_held (.scanning now rest due) p hp
    have hnodup := hs.nodup
    rw [h] at hnodup
    simp only [LoopPoint.held, List.map_append, List.map_cons] at hnodup
    rw [List.nodup_middle, List.nodup_cons] at hnodup
    refine absurd ?_ hnodup.1
    rw [hid, ← List.map_append]
    exact List.mem_map_of_mem hmem
  | starts h hj => exact absurd hre (hnot _ _ (by rw [h]; rfl) hp)
  | records status detail saved h => exact absurd hre.1 (hnot _ _ (by rw [h]; rfl) hp)
  | recordsNow status detail saved hm =>
    obtain ⟨hid, rfl⟩ := hre
    exact ⟨_, _, _, _, rfl, hid⟩
  | _ => exact hre.elim

theorem Step.clock_le (h : Step zones s e u) : s.clock ≤ u.clock := by
  cases h with
  | passes now hle => exact hle
  | _ => exact le_refl _

theorem Step.clocked (h : Step zones s e u) (hs : Snapshot s) {now : ℚ}
    (hl : u.loop = .clocked now) : now ≤ u.clock := by
  cases h with
  | passes now hle => exact (hs.clocked _ hl).trans hle
  | wakes h => exact (LoopPoint.clocked.inj hl).ge
  | loads | scans | breaks | gathered | starts | skips | records | sleeps => exact nomatch hl
  | _ => exact hs.clocked _ hl

theorem step_snapshot (h : Step zones s e u) (hc : KeepsForm zones s e) (hs : Snapshot s) :
    Snapshot u := by
  by_cases hl : e = .loads
  · subst hl
    cases h with
    | @loads now h =>
      refine ⟨fun _ h' => (nomatch h'), s.jobs.unique, ?_⟩
      intro p hp j hj
      obtain ⟨hmem, hdue⟩ := List.mem_filter.mp hp
      obtain rfl : p = j := Option.some.inj ((Table.find_eq_some.mpr ⟨hmem, rfl⟩).symm.trans hj)
      exact (DueAt.inForm (of_decide_eq_true hdue)).later (hs.clocked now h)
  obtain ⟨hheld, hahead⟩ := h.held_sublist hl
  refine ⟨fun _ => h.clocked hs, hs.nodup.sublist (hheld.map _), ?_⟩
  intro p hp j' hj'
  have hp' := hahead p hp
  refine InForm.later ?_ h.clock_le
  by_cases he : e.Edits p.id
  · cases h with
    | creates hfresh hcr =>
      obtain rfl : _ = p.id := he
      exact absurd rfl (hfresh.2.1 p (ahead_subset_held hp'))
    | updates hu =>
      obtain rfl : _ = p.id := he
      have hrow := find_updateJob hu p.id
      rw [if_pos rfl] at hrow
      obtain ⟨j, hj, rfl⟩ := Option.map_eq_some_iff.mp (hrow.symm.trans hj')
      exact hc p hp' rfl j hj
    | deletes i =>
      obtain rfl : i = p.id := he
      have hj' : (s.jobs.deleteWhere _).find p.id = some j' := hj'
      rw [Table.find_deleteWhere, Option.filter_eq_some_iff] at hj'
      have := Table.key_of_find hj'.1
      simp [this] at hj'
    | _ => exact he.elim
  · rcases step_row h hj' he with hsame | ⟨hre, j, hj, hmoved⟩
    · exact hs.inForm p hp' j' hsame
    · obtain ⟨job, start, status, detail, rfl, hid⟩ := h.recomputes_ahead hs hp hre
      exact (hs.inForm p hp' j hj).of_recomputed hmoved (hc rfl p hp' hid.symm j hj)

/-- Every job the loop starts is stored enabled, due, and as the loop runs it. -/
theorem started_in_form {clock : ℚ} {jobs : Jobs}
    (hrun : ((scheduler zones clock jobs).restrict (KeepsForm zones)).Run
      (scheduler zones clock jobs).start es s) (job stored : StoredJob) (time : ℚ)
    (he : .starts job stored time ∈ es) : InForm time job stored := by
  have hboth : Snapshot s ∧ ∀ job stored time, .starts job stored time ∈ es →
      InForm time job stored := by
    refine Machine.Run.history (M := (scheduler zones clock jobs).restrict (KeepsForm zones))
      (P := fun es s => Snapshot s ∧ ∀ job stored time, Event.starts job stored time ∈ es →
        InForm time job stored) ?_ ?_ hrun
    · exact ⟨⟨fun _ h => (nomatch h), List.nodup_nil, fun p hp => nomatch hp⟩,
        fun _ _ _ h => nomatch h⟩
    · rintro es t e u - ⟨hc, hstep⟩ ⟨hsnap, hpast⟩
      refine ⟨step_snapshot hstep hc hsnap, ?_⟩
      intro job stored time hmem
      rcases List.mem_append.mp hmem with hmem | hmem
      · exact hpast job stored time hmem
      · obtain rfl := List.mem_singleton.mp hmem
        cases hstep with
        | starts hl hj => exact hsnap.inForm job (by rw [hl]; simp [LoopPoint.ahead]) stored hj
  exact hboth.2 job stored time he

def utc (_ : String) : ZonedTime.Zone := ⟨0, [], trivial⟩

def oneOClock : ℚ := ((3600000000 : ℤ) : ℚ)

/-- Due at one o'clock in the night of the epoch. -/
def nightlyReboot : StoredJob :=
  { id := "9f3c", name := "nightly", action := "reboot", arg := "", targets := [],
    cadence := "daily", atText := "01:00", weekday := 0, tz := "UTC", enabled := true,
    lastRun := none, lastStatus := none, lastDetail := "", history := [],
    nextRun := some 3600000000 }

def nightly : Jobs := ⟨[nightlyReboot], by simp⟩

theorem nightlyReboot_due : nightlyReboot.DueAt oneOClock :=
  ⟨rfl, 3600000000, rfl, le_refl _⟩

theorem find_nightly : nightly.find "9f3c" = some nightlyReboot := by
  simp [nightly, Table.find, nightlyReboot]

/-- The loop has found the job due. -/
def atWork : State := ⟨oneOClock, nightly, .working [nightlyReboot], []⟩

def overnight (loop : LoopPoint) : State := ⟨oneOClock, nightly, loop, []⟩

theorem wakes_overnight : Step utc (overnight .asleep) .wakes (overnight (.clocked oneOClock)) :=
  .wakes rfl

theorem loads_overnight : Step utc (overnight (.clocked oneOClock)) .loads
    (overnight (.scanning oneOClock [nightlyReboot] [])) := .loads rfl

theorem scans_overnight : Step utc (overnight (.scanning oneOClock [nightlyReboot] []))
    (.scans nightlyReboot true) (overnight (.scanning oneOClock [] [nightlyReboot])) := by
  have hscan : scanJob utc true oneOClock nightly nightlyReboot = .ok nightly := rfl
  have := Step.scans (s := overnight (.scanning oneOClock [nightlyReboot] [])) rfl hscan
  rwa [if_pos nightlyReboot_due] at this

theorem gathered_overnight : Step utc (overnight (.scanning oneOClock [] [nightlyReboot])) .gathered
    (overnight (.working [nightlyReboot])) := .gathered rfl

/-- The loop finds the job due. -/
theorem reaches_work {C : State → Event → Prop}
    (hC : ∀ s, ∀ e ∈ [.wakes, .loads, .scans nightlyReboot true, .gathered], C s e) :
    ((scheduler utc oneOClock nightly).restrict C).Run (overnight .asleep)
      [.wakes, .loads, .scans nightlyReboot true, .gathered]
      (overnight (.working [nightlyReboot])) :=
  .cons ⟨hC _ _ (by simp), wakes_overnight⟩ <| .cons ⟨hC _ _ (by simp), loads_overnight⟩ <|
    .cons ⟨hC _ _ (by simp), scans_overnight⟩ <| .single ⟨hC _ _ (by simp), gathered_overnight⟩

theorem starts_overnight : Step utc (overnight (.working [nightlyReboot]))
    (.starts nightlyReboot nightlyReboot oneOClock)
    ⟨oneOClock, advanceNextRun utc "9f3c" oneOClock nightly,
      .running nightlyReboot oneOClock [], []⟩ := .starts rfl find_nightly

/-- The nightly reboot is run as it was found. -/
theorem started_in_form_sample : InForm oneOClock nightlyReboot nightlyReboot := by
  have hrun : ((scheduler utc oneOClock nightly).restrict (KeepsForm utc)).Run _ _ _ :=
    reaches_work (C := KeepsForm utc) fun s e he => by
      simp only [List.mem_cons, List.not_mem_nil, or_false] at he
      rcases he with rfl | rfl | rfl | rfl <;> exact trivial
  have hstart : ((scheduler utc oneOClock nightly).restrict (KeepsForm utc)).step _ _ _ :=
    And.intro (a := KeepsForm utc _ (.starts _ _ _)) trivial starts_overnight
  exact started_in_form (hrun.snoc hstart) nightlyReboot nightlyReboot oneOClock (by simp)

def disable : Fields := ⟨none, none, none, none, none, none, none, some false, none⟩

/-- The job is disabled after the loop has taken its snapshot; the loop advances and runs it
all the same. -/
theorem disabled_job_fires : ∃ es s stored,
    (scheduler utc oneOClock nightly).Run (scheduler utc oneOClock nightly).start es s ∧
      .starts nightlyReboot stored oneOClock ∈ es ∧ stored.enabled = false := by
  let disabled := nightly.update "9f3c" (fun j => (j.edit disable).reschedule utc oneOClock)
    (edit_id utc oneOClock disable)
  have hrun := (reaches_work (C := fun _ _ => True) fun _ _ _ => trivial).unrestrict
  have hedit : Step utc (overnight (.working [nightlyReboot])) (.updates "9f3c" disable)
      ⟨oneOClock, disabled, .working [nightlyReboot], []⟩ := .updates rfl
  have hfind : disabled.find nightlyReboot.id =
      some ((nightlyReboot.edit disable).reschedule utc oneOClock) := by
    have hid : nightlyReboot.id = "9f3c" := rfl
    rw [hid, Table.find_update, if_pos rfl, find_nightly]
    rfl
  have hstart : Step utc ⟨oneOClock, disabled, .working [nightlyReboot], []⟩
      (.starts nightlyReboot _ oneOClock) _ := .starts rfl hfind
  exact ⟨_, _, _, (hrun.snoc hedit).snoc hstart, List.mem_append_right _ (List.mem_singleton_self _),
    rfl⟩

/-! ### A due run is never skipped, but by the record of an earlier one -/

/-- A run of the job that started at this time has not been recorded yet. -/
def State.UnderWay (s : State) (id : String) (start : ℚ) : Prop :=
  (∃ job rest, s.loop = .running job start rest ∧ job.id = id) ∨
    ∃ job, .running job start ∈ s.manual ∧ job.id = id

/-- The event starts a run of the job. -/
def Event.StartsRun (id : String) (time : ℚ) : Event → Prop
  | .starts job _ start => job.id = id ∧ start = time
  | .startsNow job start => job.id = id ∧ start = time
  | _ => False

/-- A next run that is computed anew has not come due, or a run that started since is under way
or starts; and one still to come does not move back. -/
def Harmless (zones : String → ZonedTime.Zone) (s : State) (e : Event) : Prop :=
  ∀ id j D, e.Recomputes id → s.jobs.find id = some j → j.enabled = true → j.nextRun = some D →
    if D ≤ s.clock then
      ∃ start : ℚ, (D : ℚ) ≤ start ∧ (s.UnderWay id start ∨ e.StartsRun id start)
    else nextAfter zones j s.clock ≤ D

def StartsSeen (es : List Event) (s : State) : Prop :=
  ∀ id start, s.UnderWay id start → ∃ x ∈ es, x.StartsRun id start

theorem step_startsSeen (h : Step zones s e u) (hs : StartsSeen es s) :
    StartsSeen (es ++ [e]) u := by
  have hold : ∀ id start, s.UnderWay id start → ∃ x ∈ es ++ [e], x.StartsRun id start := by
    intro id start hr
    obtain ⟨x, hx, hx'⟩ := hs id start hr
    exact ⟨x, by simp [hx], hx'⟩
  intro id start hr
  cases h with
  | passes | creates | updates | deletes => exact hold id start hr
  | wakes | loads | scans | breaks | gathered | skips | records | sleeps =>
    rcases hr with ⟨job, rest, hl, hid⟩ | hr
    · exact nomatch hl
    · exact hold id start (.inr hr)
  | @starts job rest stored hl hj =>
    rcases hr with ⟨job', rest', hl', hid⟩ | hr
    · obtain ⟨rfl, rfl, rfl⟩ := LoopPoint.running.inj hl'
      exact ⟨_, List.mem_append_right _ (List.mem_singleton_self _), hid, rfl⟩
    · exact hold id start (.inr hr)
  | looksUp hj =>
    rcases hr with hr | ⟨job, hm, hid⟩
    · exact hold id start (.inl hr)
    · have hm : _ ∈ s.manual ++ [_] := hm
      simp only [List.mem_append, List.mem_singleton, reduceCtorEq, or_false] at hm
      exact hold id start (.inr ⟨job, hm, hid⟩)
  | startsNow hm =>
    rcases hr with hr | ⟨job, hr, hid⟩
    · exact hold id start (.inl hr)
    · simp only [List.mem_append, List.mem_cons] at hr
      rcases hr with hr | hr | hr
      · exact hold id start (.inr ⟨job, by simp [hm, hr], hid⟩)
      · obtain ⟨rfl, rfl⟩ := ManualPoint.running.inj hr
        exact ⟨_, List.mem_append_right _ (List.mem_singleton_self _), hid, rfl⟩
      · exact hold id start (.inr ⟨job, by simp [hm, hr], hid⟩)
  | recordsNow status detail saved hm =>
    rcases hr with hr | ⟨job, hr, hid⟩
    · exact hold id start (.inl hr)
    · have hr' : ManualPoint.running job start ∈ s.manual := by
        rw [hm]
        rcases List.mem_append.mp hr with hr | hr
        · simp [hr]
        · simp [hr]
      exact hold id start (.inr ⟨job, hr', hid⟩)

/-- Between two recordings, the stored due time is passed over only if a run of the job has
started at or after it. -/
theorem due_time_run_before_it_moves {clock : ℚ} {jobs : Jobs} {D D' : ℤ}
    (hrun : ((scheduler zones clock jobs).restrict (Harmless zones)).Run
      (scheduler zones clock jobs).start es s)
    (hstep : ((scheduler zones clock jobs).restrict (Harmless zones)).step s e u)
    (hj : s.jobs.find id = some j) (hen : j.enabled = true) (hD : j.nextRun = some D)
    (he : ¬ e.Edits id) (hj' : u.jobs.find id = some j') (hD' : j'.nextRun = some D')
    (hlt : D < D') : ∃ x ∈ es ++ [e], ∃ start : ℚ, (D : ℚ) ≤ start ∧ x.StartsRun id start := by
  have hseen : StartsSeen es s := by
    refine Machine.Run.history (M := (scheduler zones clock jobs).restrict (Harmless zones))
      (P := StartsSeen) ?_ (fun _ _ _ _ _ h hs => step_startsSeen h.2 hs) hrun
    rintro id start (⟨job, rest, hl, -⟩ | ⟨job, hm, -⟩)
    · exact nomatch hl
    · exact nomatch hm
  obtain ⟨hcond, hstep⟩ := hstep
  rcases step_row hstep hj' he with hsame | ⟨hre, k, hk, hmoved⟩
  · obtain rfl := Option.some.inj (hj.symm.trans hsame)
    have := Option.some.inj (hD.symm.trans hD')
    omega
  · obtain rfl := Option.some.inj (hj.symm.trans hk)
    have hnext : D' = nextAfter zones j s.clock := by
      have := hD'.symm.trans hmoved.nextRun
      exact Option.some.inj this
    have hh := hcond id j D hre hj hen hD
    split_ifs at hh with hdue
    · obtain ⟨start, hle, hway | hst⟩ := hh
      · obtain ⟨x, hx, hst⟩ := hseen id start hway
        exact ⟨x, by simp [hx], start, hle, hst⟩
      · exact ⟨e, by simp, start, hle, hst⟩
    · omega

theorem nextAfter_overnight : nextAfter utc nightlyReboot oneOClock = 90000000000 := by
  unfold nextAfter oneOClock
  rw [Schedules.computeNextRun, DecimalRounding.roundHalfEven_intCast]
  decide

/-- The loop advances the nightly job as it starts it. -/
theorem due_time_run_before_it_moves_sample :
    ∃ x ∈ [.wakes, .loads, .scans nightlyReboot true, .gathered] ++
        [.starts nightlyReboot nightlyReboot oneOClock],
      ∃ start, ((3600000000 : ℤ) : ℚ) ≤ start ∧ Event.StartsRun "9f3c" start x := by
  have hrun : ((scheduler utc oneOClock nightly).restrict (Harmless utc)).Run _ _ _ :=
    reaches_work (C := Harmless utc) fun s e he => by
      simp only [List.mem_cons, List.not_mem_nil, or_false] at he
      intro id j D hre
      rcases he with rfl | rfl | rfl | rfl
      · exact hre.elim
      · exact hre.elim
      · cases hre.2.2
      · exact hre.elim
  have hcond : Harmless utc (overnight (.working [nightlyReboot]))
      (.starts nightlyReboot nightlyReboot oneOClock) := by
    intro id j D hre hj hen hD
    split_ifs with hdue
    · exact ⟨oneOClock, hdue, .inr ⟨hre, rfl⟩⟩
    · obtain rfl : _ = id := hre
      obtain rfl := Option.some.inj (find_nightly.symm.trans hj)
      obtain rfl := Option.some.inj hD
      exact absurd (le_refl _) hdue
  have hmoved : (advanceNextRun utc "9f3c" oneOClock nightly).find "9f3c" =
      some (nightlyReboot.reschedule utc oneOClock) := by
    rw [advanceNextRun, Table.find_update, if_pos rfl, find_nightly]
    rfl
  exact due_time_run_before_it_moves hrun ⟨hcond, starts_overnight⟩ find_nightly rfl rfl id hmoved
    (congrArg some nextAfter_overnight) (by norm_num)

def beforeOne : ℚ := ((3599000000 : ℤ) : ℚ)

def afterOne : ℚ := ((3601000000 : ℤ) : ℚ)

/-- A manual run that starts a second before the due time and is recorded a second after it
puts the next run off by a day, with no run at or after the due time. -/
theorem recorded_run_skips_due_time : ∃ es s j,
    (scheduler utc beforeOne nightly).Run (scheduler utc beforeOne nightly).start es s ∧
      (∀ x ∈ es, ¬ x.Edits "9f3c") ∧ s.jobs.find "9f3c" = some j ∧ j.enabled = true ∧
      (3600000000 : ℤ) < 90000000000 ∧ j.nextRun = some 90000000000 ∧
      ∀ x ∈ es, ∀ start, ((3600000000 : ℤ) : ℚ) ≤ start → ¬ x.StartsRun "9f3c" start := by
  have hnext : nextAfter utc nightlyReboot afterOne = 90000000000 := by
    unfold nextAfter afterOne
    rw [Schedules.computeNextRun, DecimalRounding.roundHalfEven_intCast]
    decide
  have hlook : Step utc ⟨beforeOne, nightly, .asleep, []⟩ (.looksUp nightlyReboot)
      ⟨beforeOne, nightly, .asleep, [.found nightlyReboot]⟩ := .looksUp find_nightly
  have hstart : Step utc ⟨beforeOne, nightly, .asleep, [.found nightlyReboot]⟩
      (.startsNow nightlyReboot beforeOne)
      ⟨beforeOne, nightly, .asleep, [.running nightlyReboot beforeOne]⟩ :=
    @Step.startsNow utc _ [] nightlyReboot [] rfl
  have hpass : Step utc ⟨beforeOne, nightly, .asleep, [.running nightlyReboot beforeOne]⟩
      (.passes afterOne) ⟨afterOne, nightly, .asleep, [.running nightlyReboot beforeOne]⟩ :=
    .passes afterOne (by norm_num [beforeOne, afterOne])
  have hrecord : Step utc ⟨afterOne, nightly, .asleep, [.running nightlyReboot beforeOne]⟩
      (.recordsNow nightlyReboot beforeOne "ok" "" true)
      ⟨afterOne, recordRun utc "9f3c" "ok" "" afterOne nightly, .asleep, []⟩ :=
    @Step.recordsNow utc _ [] nightlyReboot beforeOne [] "ok" "" true rfl
  have hfind : (recordRun utc "9f3c" "ok" "" afterOne nightly).find "9f3c" =
      some ((nightlyReboot.recorded "ok" "" afterOne).reschedule utc afterOne) := by
    rw [recordRun, Table.find_update, if_pos rfl, find_nightly]
    rfl
  refine ⟨_, _, _, .cons hlook (.cons hstart (.cons hpass (.single hrecord))), ?_, hfind, rfl,
    by norm_num, congrArg some hnext, ?_⟩
  · intro x hx
    simp only [List.mem_cons, List.not_mem_nil, or_false] at hx
    rcases hx with rfl | rfl | rfl | rfl <;> exact id
  · intro x hx start hle
    simp only [List.mem_cons, List.not_mem_nil, or_false] at hx
    rcases hx with rfl | rfl | rfl | rfl
    · exact id
    · rintro ⟨-, rfl⟩
      norm_num [beforeOne] at hle
    · exact id
    · exact id

end SchedulerLoop
