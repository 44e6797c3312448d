import SysibleController.KeyedTable
import SysibleController.TransitionSystem
import SysibleController.TaskQueue
import Mathlib.Data.Rat.Defs

/-! Agent integrity: the sealed baselines, and the requests of a host that reach them. The
state file is one JSON object that every operation loads and saves under a lock, so each
operation is one step; its fields that are only shown are left out. `J` are the values of JSON
and their `==` is Python's. A request of a host enters once its agent is verified; the requests
of a host follow one another. -/
namespace AgentIntegrity

open KeyedTable TransitionSystem
open TaskQueue (Database Delivery queueTask fetchPendingTasks)

variable {J : Type}

/-- The `files` of a measurement: a dict (a falsy value counts as an empty one), a string or
list of hashable items, or anything that a comparison raises on. -/
inductive Files (J : Type) where
  | dict (entries : Table (Prod.fst : String × Option J → String))
  | sequence (item : String) (items : List String)
  | unusable

/-- `none` is a version that is missing or null. -/
structure Measurement (J : Type) where
  version : Option J
  files : Files J

inductive Mismatch (J : Type) where
  | versionChanged (sealed reported : Option J)
  | noLongerReported (path : String)
  | hashChanged (path : String) (expected : Option J) (got : J)
  | newFile (path : String)
  | stoppedReporting

def checkFile [BEq J] (reported : Table (Prod.fst : String × Option J → String))
    (entry : String × Option J) : Option (Mismatch J) :=
  match (reported.find entry.1).bind Prod.snd with
  | none => some (.noLongerReported entry.1)
  | some got => if some got == entry.2 then none else some (.hashChanged entry.1 entry.2 got)

/-- `none` where the comparison raises. -/
def compare [BEq J] (reported baseline : Measurement J) : Option (List (Mismatch J)) :=
  let version : List (Mismatch J) :=
    if reported.version == baseline.version then []
    else [.versionChanged baseline.version reported.version]
  match baseline.files, reported.files with
  | .dict sealed, .dict files =>
    some (version ++ sealed.rows.filterMap (checkFile files) ++
      (files.rows.filter fun entry => (sealed.find entry.1).isNone).map fun entry =>
        .newFile entry.1)
  | .dict sealed, .sequence item items =>
    if sealed.rows.isEmpty then some (version ++ (item :: items).map .newFile) else none
  | _, _ => none

inductive Standing where
  | ok
  | quarantined
  deriving DecidableEq

structure Record (J : Type) where
  baseline : Option (Measurement J)
  status : Option Standing
  mismatches : List (Mismatch J)
  resealUntil : Option ℚ
  missingSince : Option ℚ

structure Settings where
  missingGrace : ℚ
  resealWindow : ℚ
  autoUpdate : Bool
  autoUpdateRetry : ℚ

structure State (J : Type) where
  records : String → Option (Record J)
  autoUpdateSent : String → Option (String × ℚ)
  queue : Database

def State.save (s : State J) (hostId : String) (r : Record J) : State J :=
  { s with records := Function.update s.records hostId (some r) }

def Record.resealing (r : Record J) (now : ℚ) : Bool := now < r.resealUntil.getD 0

def standing (mismatches : List (Mismatch J)) : Standing :=
  if mismatches.isEmpty then .ok else .quarantined

/-- An unchanged record is not saved, which comes to the same. -/
def evaluate [BEq J] (s : State J) (now : ℚ) (hostId : String) (m : Measurement J) : State J :=
  match s.records hostId with
  | none => s.save hostId ⟨some m, some .ok, [], none, none⟩
  | some r =>
    if r.resealing now then
      s.save hostId
        { r with baseline := some m, status := some .ok, mismatches := [], missingSince := none }
    else match r.baseline with
      | none => s.save hostId ⟨some m, some .ok, [], none, none⟩
      | some baseline =>
        match compare m baseline with
        | none => s
        | some mismatches =>
          s.save hostId
            { r with
              status := some (standing mismatches), mismatches := mismatches,
              missingSince := none }

def noteMissing (cfg : Settings) (s : State J) (now : ℚ) (hostId : String) : State J :=
  match s.records hostId with
  | none => s
  | some r =>
    if r.baseline.isNone || r.resealing now || r.status = some .quarantined then s
    else if r.missingSince.getD 0 = 0 then s.save hostId { r with missingSince := some now }
    else if cfg.missingGrace ≤ now - r.missingSince.getD 0 then
      s.save hostId
        { r with status := some .quarantined, mismatches := [.stoppedReporting] }
    else s

def isQuarantined (s : State J) (hostId : String) : Bool :=
  (s.records hostId).bind Record.status = some .quarantined

def Record.reopened (cfg : Settings) (now : ℚ) (r : Record J) : Record J :=
  if r.status = some .quarantined then
    { r with resealUntil := some (now + cfg.resealWindow), status := some .ok, mismatches := [] }
  else { r with resealUntil := some (now + cfg.resealWindow) }

def markUpdating (cfg : Settings) (s : State J) (now : ℚ) (hostId : String) : State J :=
  s.save hostId (((s.records hostId).getD ⟨none, none, [], none, none⟩).reopened cfg now)

/-- What a heartbeat finds on the controller: the readings of the clock, the build that the
controller ships (empty if unreadable), whether the host is managed, and the update command,
unless building it raises. -/
structure Surroundings where
  sentAt : ℚ
  createdAt : ℚ
  updateAt : ℚ
  checkAt : ℚ
  target : String
  managed : Bool
  command : Option String

/-- Sent for the same build within the cooldown. -/
def sentRecently (cfg : Settings) (env : Surroundings) (s : State J) (hostId : String) : Bool :=
  match s.autoUpdateSent hostId with
  | none => false
  | some (target, at') => target = env.target && env.sentAt - at' < cfg.autoUpdateRetry

/-- Everything that stands between a heartbeat and an update command. -/
def updateDue (cfg : Settings) (env : Surroundings) (s : State J) (hostId : String)
    (reported : Option String) : Bool :=
  cfg.autoUpdate && reported.getD "" ≠ "" && env.target ≠ "" && reported.getD "" ≠ env.target &&
    env.managed && !sentRecently cfg env s hostId

def maybeAutoUpdateAgent (cfg : Settings) (env : Surroundings) (s : State J) (hostId : String)
    (reported : Option String) : State J :=
  if !updateDue cfg env s hostId reported then s
  else
    let sent := { s with
      autoUpdateSent := Function.update s.autoUpdateSent hostId (some (env.target, env.sentAt)) }
    match env.command with
    | none => sent
    | some command =>
      markUpdating cfg
        { sent with
          queue := (queueTask sent.queue env.createdAt hostId command "agent-update" none).1 }
        env.updateAt hostId

def heartbeat [BEq J] (cfg : Settings) (env : Surroundings) (s : State J) (hostId : String)
    (agentVersion : Option String) (measurements : Option (Measurement J)) : State J :=
  let updated := maybeAutoUpdateAgent cfg env s hostId agentVersion
  match measurements with
  | some m => evaluate updated env.checkAt hostId m
  | none => noteMissing cfg updated env.checkAt hostId

def pollAgentTasks (s : State J) (now : ℚ) (hostId : String) : State J × List Delivery :=
  if isQuarantined s hostId then (s, [])
  else ({ s with queue := (fetchPendingTasks s.queue hostId now).1 },
    (fetchPendingTasks s.queue hostId now).2)

/-- The requests of the hosts, and tasks queued for them. -/
inductive Request (J : Type) where
  | heartbeat (hostId : String) (agentVersion : Option String)
      (measurements : Option (Measurement J)) (env : Surroundings)
  | poll (hostId : String) (now : ℚ)
  | queue (hostId command kind : String) (runAs : Option String) (now : ℚ)

/-- The next state, and the tasks the request hands to its host. -/
def handle [BEq J] (cfg : Settings) (s : State J) : Request J → State J × List Delivery
  | .heartbeat hostId agentVersion measurements env =>
    (heartbeat cfg env s hostId agentVersion measurements, [])
  | .poll hostId now => pollAgentTasks s now hostId
  | .queue hostId command kind runAs now =>
    ({ s with queue := (queueTask s.queue now hostId command kind runAs).1 }, [])

def requests [BEq J] (cfg : Settings) (s : State J) : Machine (State J) (Request J × List Delivery) :=
  ⟨s, fun s e t => handle cfg s e.1 = (t, e.2)⟩

/-- Quarantined, with a baseline to be measured against. -/
def Locked (s : State J) (hostId : String) : Prop :=
  ∃ r baseline, s.records hostId = some r ∧ r.baseline = some baseline ∧
    r.status = some .quarantined

/-- A quarantined host stays quarantined and is handed no task. -/
def QuarantineLaw (cfg : Settings) (J : Type) [BEq J]
    (C : State J → Request J × List Delivery → Prop) : Prop :=
  ∀ (s : State J) hostId log t, Locked s hostId →
    ((requests cfg s).restrict C).Run s log t →
    isQuarantined t hostId = true ∧
      ∀ now tasks, (.poll hostId now, tasks) ∈ log → tasks = []

/-- Does not match: it differs, or the comparison raises. -/
def Differs [BEq J] (m : Measurement J) (r : Record J) : Prop :=
  ∀ baseline, r.baseline = some baseline → compare m baseline ≠ some []

/-- A heartbeat of a quarantined host triggers no automatic update, and reports nothing, or
outside a reseal window something that does not match the baseline. -/
def QuarantineCondition [BEq J] (cfg : Settings) (s : State J) : Request J × List Delivery → Prop
  | (.heartbeat hostId agentVersion measurements env, _) =>
    ∀ r, s.records hostId = some r → r.status = some .quarantined →
      (updateDue cfg env s hostId agentVersion = true → env.command = none) ∧
      ∀ m, measurements = some m → ¬ r.resealing env.checkAt ∧ Differs m r
  | _ => True

/-! ## One request -/

variable {cfg : Settings} {env : Surroundings} {s : State J} {hostId k : String}

@[simp] theorem save_records (r : Record J) :
    (s.save hostId r).records k = if k = hostId then some r else s.records k := by
  simp [State.save, Function.update_apply]

theorem isQuarantined_iff :
    isQuarantined s hostId = true ↔ ∃ r, s.records hostId = some r ∧ r.status = some .quarantined := by
  simp [isQuarantined, Option.bind_eq_some_iff]

theorem Locked.isQuarantined (h : Locked s hostId) : isQuarantined s hostId = true := by
  obtain ⟨r, -, hr, -, hstatus⟩ := h
  exact isQuarantined_iff.mpr ⟨r, hr, hstatus⟩

theorem Locked.of_records {t : State J} (h : Locked s hostId)
    (hrecords : t.records hostId = s.records hostId) : Locked t hostId := by
  obtain ⟨r, baseline, hr, hrest⟩ := h
  exact ⟨r, baseline, hrecords.trans hr, hrest⟩

/-- An operation on one host leaves the records of the others alone. -/
theorem evaluate_other [BEq J] (now : ℚ) (m : Measurement J) (hk : k ≠ hostId) :
    (evaluate s now hostId m).records k = s.records k := by
  unfold evaluate
  split
  · simp [hk]
  · split
    · simp [hk]
    · split
      · simp [hk]
      · split
        · rfl
        · simp [hk]

theorem noteMissing_other (now : ℚ) (hk : k ≠ hostId) :
    (noteMissing cfg s now hostId).records k = s.records k := by
  unfold noteMissing
  split
  · rfl
  · split
    · rfl
    · split
      · simp [hk]
      · split
        · simp [hk]
        · rfl

theorem maybeAutoUpdateAgent_other (reported : Option String) (hk : k ≠ hostId) :
    (maybeAutoUpdateAgent cfg env s hostId reported).records k = s.records k := by
  unfold maybeAutoUpdateAgent
  split
  · rfl
  · cases env.command with
    | none => rfl
    | some command => simp [markUpdating, hk]

/-- Without an update command the records stay as they are. -/
theorem maybeAutoUpdateAgent_records {reported : Option String}
    (h : updateDue cfg env s hostId reported = true → env.command = none) :
    (maybeAutoUpdateAgent cfg env s hostId reported).records = s.records := by
  unfold maybeAutoUpdateAgent
  by_cases hdue : updateDue cfg env s hostId reported = true
  · rw [hdue, h hdue]
    rfl
  · simp [hdue]

theorem standing_of_differs {mismatches : List (Mismatch J)} (h : mismatches ≠ []) :
    standing mismatches = .quarantined := by
  unfold standing
  rw [if_neg]
  simpa using h

/-- A measurement that does not match leaves the host locked. -/
theorem evaluate_locked [BEq J] {now : ℚ} {m : Measurement J} (h : Locked s hostId)
    (hm : ∀ r, s.records hostId = some r → ¬ r.resealing now ∧ Differs m r) :
    Locked (evaluate s now hostId m) hostId := by
  obtain ⟨r, baseline, hr, hbaseline, hstatus⟩ := h
  obtain ⟨hclosed, hdiffers⟩ := hm r hr
  unfold evaluate
  rw [hr]
  dsimp only
  rw [if_neg hclosed, hbaseline]
  dsimp only
  cases hcompare : compare m baseline with
  | none => exact ⟨r, baseline, hr, hbaseline, hstatus⟩
  | some mismatches =>
    have hne : mismatches ≠ [] := by
      rintro rfl
      exact hdiffers baseline hbaseline hcompare
    refine ⟨_, baseline, (save_records _).trans (if_pos rfl), rfl, ?_⟩
    rw [standing_of_differs hne]

/-- Silence leaves it locked too. -/
theorem noteMissing_locked {now : ℚ} (h : Locked s hostId) :
    Locked (noteMissing cfg s now hostId) hostId := by
  obtain ⟨r, baseline, hr, hbaseline, hstatus⟩ := h
  refine ⟨r, baseline, ?_, hbaseline, hstatus⟩
  unfold noteMissing
  rw [hr]
  simp [hstatus, hr]

theorem handle_locked [BEq J] {e : Request J × List Delivery} {t : State J} (h : Locked s hostId)
    (hc : QuarantineCondition cfg s e) (hstep : handle cfg s e.1 = (t, e.2)) :
    Locked t hostId := by
  obtain ⟨request, tasks⟩ := e
  have ht : t = (handle cfg s request).1 := by rw [hstep]
  rw [ht]
  cases request with
  | heartbeat hostId' agentVersion measurements env =>
    by_cases hk : hostId = hostId'
    · subst hk
      obtain ⟨r, baseline, hr, hbaseline, hstatus⟩ := h
      obtain ⟨hupdate, hmeasure⟩ := hc r hr hstatus
      have hrecords := maybeAutoUpdateAgent_records hupdate
      have hupdated : Locked (maybeAutoUpdateAgent cfg env s hostId agentVersion) hostId :=
        ⟨r, baseline, by rw [hrecords, hr], hbaseline, hstatus⟩
      cases measurements with
      | none => exact noteMissing_locked hupdated
      | some m =>
        refine evaluate_locked hupdated ?_
        intro r' hr'
        rw [hrecords, hr] at hr'
        obtain rfl := Option.some.inj hr'
        exact hmeasure m rfl
    · have hkept := @maybeAutoUpdateAgent_other J cfg env s hostId' hostId agentVersion hk
      apply h.of_records
      cases measurements with
      | none => exact (noteMissing_other _ hk).trans hkept
      | some m => exact (evaluate_other _ m hk).trans hkept
  | poll hostId' now =>
    apply h.of_records
    simp only [handle, pollAgentTasks]
    split <;> rfl
  | queue hostId' command kind runAs now => exact h.of_records rfl

/-- A quarantine is lifted by the controller's side only, in runs whose steps meet the
condition. -/
theorem quarantine_stays [BEq J] (cfg : Settings) : QuarantineLaw cfg J (QuarantineCondition cfg) := by
  intro s hostId log t hs run
  have hlocked : Locked t hostId ∧ ∀ now tasks, (.poll hostId now, tasks) ∈ log → tasks = [] := by
    induction run with
    | nil => exact ⟨hs, by simp⟩
    | @snoc t u log e run st ih =>
      obtain ⟨hc, hstep⟩ := st
      obtain ⟨ht, hpolls⟩ := ih
      refine ⟨handle_locked ht hc hstep, ?_⟩
      intro now tasks hmem
      rcases List.mem_append.mp hmem with hmem | hmem
      · exact hpolls now tasks hmem
      · obtain rfl := List.mem_singleton.mp hmem
        have htasks : tasks = (handle cfg t (.poll hostId now)).2 := by rw [hstep]
        rw [htasks, handle, pollAgentTasks, if_pos ht.isQuarantined]
  exact ⟨hlocked.1.isQuarantined, hlocked.2⟩

/-! A host that reports its sealed measurement again is handed tasks again. -/

def sampleMeasurement (version : String) : Measurement String := ⟨some version, .dict .empty⟩

/-- Sealed at version 1, then quarantined at version 2. -/
def sampleState : State String :=
  evaluate (evaluate ⟨fun _ => none, fun _ => none, .empty⟩ 0 "web1" (sampleMeasurement "1")) 1
    "web1" (sampleMeasurement "2")

def sampleSettings : Settings := ⟨300, 86400, true, 1800⟩

def sampleSurroundings : Surroundings := ⟨2, 2, 2, 2, "build", true, some "update"⟩

theorem matching_report_lifts_quarantine :
    ¬ QuarantineLaw sampleSettings String fun _ _ => True := by
  intro hlaw
  have hlocked : Locked sampleState "web1" := ⟨_, sampleMeasurement "1", rfl, rfl, rfl⟩
  have run := Machine.Run.single (M := (requests sampleSettings sampleState).restrict
    fun _ _ => True) (s := sampleState) (t := _) (e := (.heartbeat "web1" none
      (some (sampleMeasurement "1")) sampleSurroundings, [])) ⟨trivial, rfl⟩
  obtain ⟨hquarantined, -⟩ := hlaw sampleState "web1" _ _ hlocked run
  exact absurd hquarantined (by decide)

end AgentIntegrity
