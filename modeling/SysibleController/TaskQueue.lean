import SysibleController.TransitionSystem
import Mathlib.Algebra.Order.Ring.Rat
import Mathlib.Data.List.Nodup

/-! The agent command queue: the tables `agent_tasks` and `agent_results` and the five
calls that write them. One call is one committed transaction. The clock of each call is an
argument, so nothing is assumed about the order of the times. The `agents` row that
`delete_agent` also removes is not represented. -/
namespace TaskQueue

open TransitionSystem

inductive Status where
  | pending
  | dispatched
  | done
  | timedOut
  deriving DecidableEq, Repr

def Status.terminal : Status → Bool
  | .done | .timedOut => true
  | .pending | .dispatched => false

/-- The moves of the life cycle. -/
inductive Status.Next : Status → Status → Prop where
  | dispatch : Next .pending .dispatched
  | finish : Next .dispatched .done
  | timeOut : Next .dispatched .timedOut

def StatusPath : Status → Status → Prop := Relation.ReflTransGen Status.Next

structure AgentTask where
  id : ℕ
  hostId : String
  command : String
  kind : String
  status : Status
  created : Option ℚ
  dispatched : Option ℚ
  runAs : Option String
  deriving DecidableEq

structure AgentResult where
  id : ℕ
  taskId : ℕ
  hostId : String
  result : String
  completed : ℚ
  deriving DecidableEq

/-- Both tables in id order. The counters are the AUTOINCREMENT sequences, which deleting
rows never lowers. -/
structure Database where
  tasks : List AgentTask
  results : List AgentResult
  taskSeq : ℕ
  resultSeq : ℕ
  deriving DecidableEq

def Database.empty : Database := ⟨[], [], 0, 0⟩

def queueTask (db : Database) (now : ℚ) (hostId command kind : String)
    (runAs : Option String) : Database × ℕ :=
  let taskId := db.taskSeq + 1
  ({ db with
      tasks := db.tasks ++ [⟨taskId, hostId, command, kind, .pending, some now, none, runAs⟩]
      taskSeq := taskId }, taskId)

/-- What `RETURNING` hands to the host. -/
structure Delivery where
  id : ℕ
  command : String
  kind : String
  runAs : Option String
  deriving DecidableEq

def AgentTask.delivery (t : AgentTask) : Delivery := ⟨t.id, t.command, t.kind, t.runAs⟩

def claimable (hostId : String) (t : AgentTask) : Bool :=
  t.hostId == hostId && t.status == .pending

def claim (hostId : String) (now : ℚ) (t : AgentTask) : AgentTask :=
  if claimable hostId t then { t with status := .dispatched, dispatched := some now } else t

def fetchPendingTasks (db : Database) (hostId : String) (now : ℚ) :
    Database × List Delivery :=
  ({ db with tasks := db.tasks.map (claim hostId now) },
    ((db.tasks.filter (claimable hostId)).map AgentTask.delivery).mergeSort
      (fun a b => a.id ≤ b.id))

def Database.insertResult (db : Database) (taskId : ℕ) (hostId result : String)
    (completed : ℚ) : Database :=
  { db with
    results := db.results ++ [⟨db.resultSeq + 1, taskId, hostId, result, completed⟩]
    resultSeq := db.resultSeq + 1 }

def handedOut (taskId : ℕ) (t : AgentTask) : Bool := t.id == taskId && t.status == .dispatched

def settle (taskId : ℕ) (status : Status) (t : AgentTask) : AgentTask :=
  if handedOut taskId t then { t with status := status } else t

/-- The guarded completion that a reported and a timed-out task share: the UPDATE names the
status it expects, and the result row is written only if exactly one row moved. -/
def complete (db : Database) (taskId : ℕ) (status : Status) (hostId result : String)
    (now : ℚ) : Database × Bool :=
  let updated := { db with tasks := db.tasks.map (settle taskId status) }
  if db.tasks.countP (handedOut taskId) = 1 then
    (updated.insertResult taskId hostId result now, true)
  else (updated, false)

def submitTaskResult (db : Database) (taskId : ℕ) (hostId result : String) (now : ℚ) :
    Database × Bool :=
  complete db taskId .done hostId result now

def timedOutMessage : String :=
  "\x7b\"stdout\": \"\", \"stderr\": \"[sysible] Task timed out: the host was handed this " ++
  "command but never reported a result. It may or may not have run \\u2014 re-queue it if " ++
  "needed.\", \"returncode\": -1\x7d"

def stale (cutoff : ℚ) (t : AgentTask) : Bool :=
  t.status == .dispatched && t.dispatched.any (· < cutoff)

def expired (cutoff : ℚ) (t : AgentTask) : Bool :=
  t.status.terminal && t.created.any (· < cutoff)

/-- Results go first, through the nested select over the tasks that go second. -/
def pruneTerminalTasks (retentionDays : ℤ) (db : Database) (now : ℚ) : Database :=
  if retentionDays ≤ 0 then db
  else
    let cutoff := now - retentionDays * 24 * 60 * 60
    let ids := (db.tasks.filter (expired cutoff)).map AgentTask.id
    { db with
      results := db.results.filter fun r => !ids.contains r.taskId
      tasks := db.tasks.filter fun t => !expired cutoff t }

def reclaimOne (now : ℚ) (acc : Database × ℕ) (row : ℕ × String) : Database × ℕ :=
  let (db, applied) := complete acc.1 row.1 .timedOut row.2 timedOutMessage now
  (db, if applied then acc.2 + 1 else acc.2)

/-- The clock is read once for the cutoff and once more for the result rows and the prune. -/
def reclaimStaleTasks (retentionDays : ℤ) (db : Database) (timeoutSeconds readAt now : ℚ) :
    Database × ℕ :=
  let rows := (db.tasks.filter (stale (readAt - timeoutSeconds))).map
    fun t => (t.id, t.hostId)
  let (db', reclaimed) := rows.foldl (reclaimOne now) (db, 0)
  (pruneTerminalTasks retentionDays db' now, reclaimed)

def deleteAgent (db : Database) (hostId : String) : Database :=
  { db with
    tasks := db.tasks.filter fun t => !(t.hostId == hostId)
    results := db.results.filter fun r => !(r.hostId == hostId) }

inductive Call where
  | queueTask (now : ℚ) (hostId command kind : String) (runAs : Option String)
  | fetchPendingTasks (hostId : String) (now : ℚ)
  | submitTaskResult (taskId : ℕ) (hostId result : String) (now : ℚ)
  | reclaimStaleTasks (timeoutSeconds readAt now : ℚ)
  | deleteAgent (hostId : String)

inductive Reply where
  | queued (taskId : ℕ)
  | delivered (rows : List Delivery)
  | applied (ok : Bool)
  | reclaimed (count : ℕ)
  | deleted
  deriving DecidableEq

def exec (retentionDays : ℤ) (db : Database) : Call → Database × Reply
  | .queueTask now hostId command kind runAs =>
    let (db', taskId) := queueTask db now hostId command kind runAs
    (db', .queued taskId)
  | .fetchPendingTasks hostId now =>
    let (db', rows) := fetchPendingTasks db hostId now
    (db', .delivered rows)
  | .submitTaskResult taskId hostId result now =>
    let (db', ok) := submitTaskResult db taskId hostId result now
    (db', .applied ok)
  | .reclaimStaleTasks timeoutSeconds readAt now =>
    let (db', count) := reclaimStaleTasks retentionDays db timeoutSeconds readAt now
    (db', .reclaimed count)
  | .deleteAgent hostId => (deleteAgent db hostId, .deleted)

/-- The route compares `get_task_host` with the reporting agent before it submits. -/
def OwnHost (db : Database) : Call → Prop
  | .submitTaskResult taskId hostId _ _ => ∀ t ∈ db.tasks, t.id = taskId → t.hostId = hostId
  | _ => True

def queue (retentionDays : ℤ) : Machine Database (Call × Reply) where
  start := .empty
  step db e db' := OwnHost db e.1 ∧ exec retentionDays db e.1 = (db', e.2)

/-- The task ids handed out over a whole run, call by call. -/
def deliveredIds (es : List (Call × Reply)) : List ℕ :=
  es.flatMap fun e => match e.2 with
    | .delivered rows => rows.map Delivery.id
    | _ => []

structure Invariant (db : Database) : Prop where
  task_ids : (db.tasks.map AgentTask.id).Nodup
  task_seq : ∀ t ∈ db.tasks, t.id ≤ db.taskSeq
  owner : ∀ r ∈ db.results, ∃ t ∈ db.tasks,
    t.id = r.taskId ∧ t.hostId = r.hostId ∧ t.status.terminal
  reported : ∀ t ∈ db.tasks, t.status.terminal → ∃ r ∈ db.results, r.taskId = t.id
  one_result : (db.results.map AgentResult.taskId).Nodup

theorem empty_invariant : Invariant .empty := by
  constructor <;> simp [Database.empty]

/-- Ids name rows: two rows of one table with the same id are the same row. -/
theorem Invariant.task_unique {db : Database} (h : Invariant db) {t u : AgentTask}
    (ht : t ∈ db.tasks) (hu : u ∈ db.tasks) (hid : t.id = u.id) : t = u :=
  List.inj_on_of_nodup_map h.task_ids ht hu hid

/-- What one call may do to the rows it finds: the sequence only grows, and a row that was
already numbered before comes from a row of the same task, moved along the life cycle. -/
structure Follows (db db' : Database) : Prop where
  seq : db.taskSeq ≤ db'.taskSeq
  rows : ∀ t' ∈ db'.tasks, t'.id ≤ db.taskSeq →
    ∃ t ∈ db.tasks, t.id = t'.id ∧ StatusPath t.status t'.status

theorem Follows.refl (db : Database) : Follows db db :=
  ⟨le_rfl, fun t ht _ => ⟨t, ht, rfl, .refl⟩⟩

theorem Follows.trans {a b c : Database} (h : Follows a b) (k : Follows b c) :
    Follows a c := by
  refine ⟨h.seq.trans k.seq, ?_⟩
  intro t'' ht'' hle
  obtain ⟨t', ht', hid', hp'⟩ := k.rows t'' ht'' (hle.trans h.seq)
  obtain ⟨t, ht, hid, hp⟩ := h.rows t' ht' (hid' ▸ hle)
  exact ⟨t, ht, hid.trans hid', hp.trans hp'⟩

/-- Deleting rows or moving them along the life cycle in place. -/
theorem follows_of_rows {db db' : Database} (hseq : db'.taskSeq = db.taskSeq)
    (hrows : ∀ t' ∈ db'.tasks, ∃ t ∈ db.tasks, t.id = t'.id ∧ StatusPath t.status t'.status) :
    Follows db db' :=
  ⟨hseq.ge, fun t' ht' _ => hrows t' ht'⟩

section Claim

@[simp] theorem claim_id (hostId : String) (now : ℚ) (t : AgentTask) :
    (claim hostId now t).id = t.id := by
  unfold claim; split <;> rfl

@[simp] theorem claim_hostId (hostId : String) (now : ℚ) (t : AgentTask) :
    (claim hostId now t).hostId = t.hostId := by
  unfold claim; split <;> rfl

theorem claimable_iff {hostId : String} {t : AgentTask} :
    claimable hostId t = true ↔ t.hostId = hostId ∧ t.status = .pending := by
  simp [claimable]

@[simp] theorem claim_terminal (hostId : String) (now : ℚ) (t : AgentTask) :
    (claim hostId now t).status.terminal = t.status.terminal := by
  unfold claim
  split
  · rename_i h
    simp [(claimable_iff.mp h).2, Status.terminal]
  · rfl

theorem claim_path (hostId : String) (now : ℚ) (t : AgentTask) :
    StatusPath t.status (claim hostId now t).status := by
  unfold claim
  split
  · rename_i h
    rw [(claimable_iff.mp h).2]
    exact .single .dispatch
  · exact .refl

theorem fetch_follows (db : Database) (hostId : String) (now : ℚ) :
    Follows db (fetchPendingTasks db hostId now).1 := by
  refine follows_of_rows rfl ?_
  intro t' ht'
  obtain ⟨t, ht, rfl⟩ := List.mem_map.mp ht'
  exact ⟨t, ht, (claim_id ..).symm, claim_path ..⟩

theorem fetch_invariant {db : Database} (h : Invariant db) (hostId : String) (now : ℚ) :
    Invariant (fetchPendingTasks db hostId now).1 := by
  constructor
  · simpa [fetchPendingTasks, List.map_map, Function.comp_def] using h.task_ids
  · intro t' ht'
    obtain ⟨t, ht, rfl⟩ := List.mem_map.mp ht'
    simpa [fetchPendingTasks] using h.task_seq t ht
  · intro r hr
    obtain ⟨t, ht, hid, hhost, hterm⟩ := h.owner r hr
    exact ⟨claim hostId now t, List.mem_map_of_mem ht, by simpa using hid,
      by simpa using hhost, by simpa using hterm⟩
  · intro t' ht' hterm
    obtain ⟨t, ht, rfl⟩ := List.mem_map.mp ht'
    simpa [fetchPendingTasks] using h.reported t ht (by simpa using hterm)
  · exact h.one_result

/-- The rows a fetch returns are the ids of the tasks it moved, each once. -/
theorem fetch_ids_perm (db : Database) (hostId : String) (now : ℚ) :
    ((fetchPendingTasks db hostId now).2.map Delivery.id).Perm
      ((db.tasks.filter (claimable hostId)).map AgentTask.id) := by
  have hp : ((fetchPendingTasks db hostId now).2.map Delivery.id).Perm
      (((db.tasks.filter (claimable hostId)).map AgentTask.delivery).map Delivery.id) :=
    (List.mergeSort_perm _ _).map Delivery.id
  simpa [List.map_map, Function.comp_def, AgentTask.delivery] using hp

theorem fetch_ids_nodup {db : Database} (h : Invariant db) (hostId : String) (now : ℚ) :
    ((fetchPendingTasks db hostId now).2.map Delivery.id).Nodup :=
  (fetch_ids_perm db hostId now).nodup_iff.mpr
    ((List.filter_sublist.map AgentTask.id).nodup h.task_ids)

theorem mem_fetch_ids {db : Database} {hostId : String} {now : ℚ} {i : ℕ} :
    i ∈ (fetchPendingTasks db hostId now).2.map Delivery.id ↔
      ∃ t ∈ db.tasks, t.hostId = hostId ∧ t.status = .pending ∧ t.id = i := by
  rw [(fetch_ids_perm db hostId now).mem_iff]
  simp only [List.mem_map, List.mem_filter, claimable_iff, and_assoc]

end Claim

section Complete

theorem handedOut_iff {taskId : ℕ} {t : AgentTask} :
    handedOut taskId t = true ↔ t.id = taskId ∧ t.status = .dispatched := by
  simp [handedOut]

@[simp] theorem settle_id (taskId : ℕ) (status : Status) (t : AgentTask) :
    (settle taskId status t).id = t.id := by
  unfold settle; split <;> rfl

@[simp] theorem settle_hostId (taskId : ℕ) (status : Status) (t : AgentTask) :
    (settle taskId status t).hostId = t.hostId := by
  unfold settle; split <;> rfl

theorem settle_of_ne {taskId : ℕ} {t : AgentTask} (h : t.id ≠ taskId) (status : Status) :
    settle taskId status t = t :=
  if_neg fun hh => h (handedOut_iff.mp hh).1

theorem settle_path {taskId : ℕ} {status : Status} (hs : Status.Next .dispatched status)
    (t : AgentTask) : StatusPath t.status (settle taskId status t).status := by
  unfold settle
  split
  · rename_i h
    rw [(handedOut_iff.mp h).2]
    exact .single hs
  · exact .refl

/-- The two outcomes of a guarded completion. Ids being unique, the UPDATE hits one row or
none; if it hits none, the database is as it was. -/
theorem complete_cases {db : Database} (h : Invariant db) (taskId : ℕ) (status : Status)
    (hostId result : String) (now : ℚ) :
    (∃ t ∈ db.tasks, t.id = taskId ∧ t.status = .dispatched ∧
      complete db taskId status hostId result now =
        (({ db with tasks := db.tasks.map (settle taskId status) } : Database).insertResult
          taskId hostId result now, true)) ∨
    complete db taskId status hostId result now = (db, false) := by
  by_cases hex : ∃ t ∈ db.tasks, handedOut taskId t
  · obtain ⟨t, ht, hw⟩ := hex
    have hone : db.tasks.countP (handedOut taskId) = 1 := by
      refine le_antisymm ?_ (List.countP_pos_iff.mpr ⟨t, ht, hw⟩)
      have hids := List.nodup_iff_count_le_one.mp h.task_ids taskId
      rw [List.count, List.countP_map] at hids
      refine (List.countP_mono_left fun u _ hu => ?_).trans hids
      simpa using (handedOut_iff.mp hu).1
    left
    refine ⟨t, ht, (handedOut_iff.mp hw).1, (handedOut_iff.mp hw).2, ?_⟩
    simp [complete, hone]
  · right
    push Not at hex
    have hzero : db.tasks.countP (handedOut taskId) = 0 :=
      List.countP_eq_zero.mpr hex
    have hsame : db.tasks.map (settle taskId status) = db.tasks := by
      refine (List.map_congr_left fun t ht => ?_).trans (List.map_id _)
      exact if_neg (hex t ht)
    simp [complete, hzero, hsame]

theorem complete_follows {db : Database} (h : Invariant db) {status : Status}
    (hs : Status.Next .dispatched status) (taskId : ℕ) (hostId result : String) (now : ℚ) :
    Follows db (complete db taskId status hostId result now).1 := by
  rcases complete_cases h taskId status hostId result now with ⟨_, _, _, _, he⟩ | he
  · rw [he]
    refine follows_of_rows rfl ?_
    intro t' ht'
    obtain ⟨t, ht, rfl⟩ := List.mem_map.mp ht'
    exact ⟨t, ht, (settle_id ..).symm, settle_path hs t⟩
  · rw [he]
    exact .refl db

/-- No result exists for a task that is still dispatched, since results belong to terminal
rows. This is what keeps the second result row out. -/
theorem Invariant.no_result {db : Database} (h : Invariant db) {t : AgentTask}
    (ht : t ∈ db.tasks) (hd : t.status = .dispatched) :
    t.id ∉ db.results.map AgentResult.taskId := by
  intro hm
  obtain ⟨r, hr, hid⟩ := List.mem_map.mp hm
  obtain ⟨u, hu, hur, _, hterm⟩ := h.owner r hr
  have := h.task_unique hu ht (hur.trans hid)
  subst this
  rw [hd] at hterm
  cases hterm

theorem complete_invariant {db : Database} (h : Invariant db) {status : Status}
    (hs : status.terminal) {taskId : ℕ} {hostId : String}
    (hown : ∀ t ∈ db.tasks, t.id = taskId → t.hostId = hostId) (result : String) (now : ℚ) :
    Invariant (complete db taskId status hostId result now).1 := by
  rcases complete_cases h taskId status hostId result now with ⟨u, hu, huid, hud, he⟩ | he
  swap
  · rw [he]; exact h
  rw [he]
  have husettled : settle taskId status u = { u with status := status } :=
    if_pos (handedOut_iff.mpr ⟨huid, hud⟩)
  have hufinal : settle taskId status u ∈ db.tasks.map (settle taskId status) :=
    List.mem_map_of_mem hu
  constructor
  · simpa [Database.insertResult, List.map_map, Function.comp_def] using h.task_ids
  · intro t' ht'
    obtain ⟨t, ht, rfl⟩ := List.mem_map.mp ht'
    simpa [Database.insertResult] using h.task_seq t ht
  · intro r hr
    rcases List.mem_append.mp hr with hr | hr
    · obtain ⟨t, ht, hid, hhost, hterm⟩ := h.owner r hr
      have hne : ¬ handedOut taskId t := fun hw => by
        rw [(handedOut_iff.mp hw).2] at hterm; cases hterm
      refine ⟨t, List.mem_map.mpr ⟨t, ht, if_neg hne⟩, hid, hhost, hterm⟩
    · rw [List.mem_singleton.mp hr]
      exact ⟨_, hufinal, by simpa using huid, by simpa using hown u hu huid,
        by rw [husettled]; exact hs⟩
  · intro t' ht' hterm
    obtain ⟨t, ht, rfl⟩ := List.mem_map.mp ht'
    by_cases hid : t.id = taskId
    · exact ⟨_, List.mem_append_right _ (List.mem_singleton_self _), by simpa using hid.symm⟩
    · rw [settle_of_ne hid] at hterm ⊢
      obtain ⟨r, hr, hrid⟩ := h.reported t ht hterm
      exact ⟨r, List.mem_append_left _ hr, hrid⟩
  · have hnew := h.no_result hu hud
    rw [huid] at hnew
    simp only [Database.insertResult, List.map_append, List.map_cons, List.map_nil]
    exact List.nodup_append.mpr ⟨h.one_result, List.nodup_singleton _, by
      intro a ha b hb
      rw [List.mem_singleton.mp hb]
      rintro rfl
      exact hnew ha⟩

end Complete

section Delete

/-- Both deletions of rows: a set of tasks goes, and with it exactly the results that belong
to those tasks. -/
theorem delete_invariant {db : Database} (h : Invariant db) (gone : AgentTask → Bool)
    (goneResult : AgentResult → Bool)
    (hagree : ∀ t ∈ db.tasks, ∀ r ∈ db.results, r.taskId = t.id → goneResult r = gone t) :
    Invariant { db with
      tasks := db.tasks.filter fun t => !gone t
      results := db.results.filter fun r => !goneResult r } := by
  constructor
  · exact (List.filter_sublist.map _).nodup h.task_ids
  · intro t ht
    exact h.task_seq t (List.mem_of_mem_filter ht)
  · intro r hr
    obtain ⟨hr, hkeep⟩ := List.mem_filter.mp hr
    obtain ⟨t, ht, hid, hrest⟩ := h.owner r hr
    refine ⟨t, List.mem_filter.mpr ⟨ht, ?_⟩, hid, hrest⟩
    rw [← hagree t ht r hr hid.symm]
    exact hkeep
  · intro t ht hterm
    obtain ⟨ht, hkeep⟩ := List.mem_filter.mp ht
    obtain ⟨r, hr, hid⟩ := h.reported t ht hterm
    refine ⟨r, List.mem_filter.mpr ⟨hr, ?_⟩, hid⟩
    rw [hagree t ht r hr hid]
    exact hkeep
  · exact (List.filter_sublist.map _).nodup h.one_result

theorem prune_follows (retentionDays : ℤ) (db : Database) (now : ℚ) :
    Follows db (pruneTerminalTasks retentionDays db now) := by
  unfold pruneTerminalTasks
  split
  · exact .refl db
  · exact follows_of_rows rfl fun t ht => ⟨t, List.mem_of_mem_filter ht, rfl, .refl⟩

theorem prune_invariant {db : Database} (h : Invariant db) (retentionDays : ℤ) (now : ℚ) :
    Invariant (pruneTerminalTasks retentionDays db now) := by
  unfold pruneTerminalTasks
  split
  · exact h
  · refine delete_invariant h _ _ ?_
    intro t ht r hr hid
    rw [Bool.eq_iff_iff, List.contains_iff_mem, hid]
    constructor
    · intro hm
      obtain ⟨u, hu, huid⟩ := List.mem_map.mp hm
      obtain ⟨hu, hexp⟩ := List.mem_filter.mp hu
      rwa [h.task_unique hu ht huid] at hexp
    · intro hexp
      exact List.mem_map_of_mem (List.mem_filter.mpr ⟨ht, hexp⟩)

theorem delete_agent_follows (db : Database) (hostId : String) :
    Follows db (deleteAgent db hostId) :=
  follows_of_rows rfl fun t ht => ⟨t, List.mem_of_mem_filter ht, rfl, .refl⟩

/-- A result carries the host of its task, so the delete by host takes both or neither. -/
theorem delete_agent_invariant {db : Database} (h : Invariant db) (hostId : String) :
    Invariant (deleteAgent db hostId) := by
  refine delete_invariant h _ _ ?_
  intro t ht r hr hid
  obtain ⟨u, hu, hur, huh, _⟩ := h.owner r hr
  rw [h.task_unique hu ht (hur.trans hid)] at huh
  rw [huh]

end Delete

section Reclaim

/-- The loop body of the reclaim, for a row read by the SELECT of the same transaction. -/
theorem reclaim_one_step {db : Database} (h : Invariant db) (now : ℚ) (n : ℕ)
    {row : ℕ × String} (hown : ∀ t ∈ db.tasks, t.id = row.1 → t.hostId = row.2) :
    Invariant (reclaimOne now (db, n) row).1 ∧ Follows db (reclaimOne now (db, n) row).1 :=
  ⟨complete_invariant h rfl hown _ _, complete_follows h .timeOut _ _ _ _⟩

/-- Hosts of tasks never change, so a row read at the start still names the right host
when the loop reaches it. -/
theorem complete_hosts {db : Database} {rows : List (ℕ × String)}
    (hown : ∀ row ∈ rows, ∀ t ∈ db.tasks, t.id = row.1 → t.hostId = row.2)
    (taskId : ℕ) (status : Status) (hostId result : String) (now : ℚ) :
    ∀ row ∈ rows, ∀ t ∈ (complete db taskId status hostId result now).1.tasks,
      t.id = row.1 → t.hostId = row.2 := by
  intro row hrow t' ht'
  have hm : t' ∈ db.tasks.map (settle taskId status) := by
    unfold complete at ht'
    split at ht' <;> exact ht'
  obtain ⟨t, ht, rfl⟩ := List.mem_map.mp hm
  simpa using hown row hrow t ht

theorem reclaim_loop {db : Database} (h : Invariant db) (now : ℚ) (rows : List (ℕ × String))
    (hown : ∀ row ∈ rows, ∀ t ∈ db.tasks, t.id = row.1 → t.hostId = row.2) (n : ℕ) :
    Invariant (rows.foldl (reclaimOne now) (db, n)).1 ∧
      Follows db (rows.foldl (reclaimOne now) (db, n)).1 := by
  induction rows generalizing db n with
  | nil => exact ⟨h, .refl db⟩
  | cons row rows ih =>
    obtain ⟨hi, hf⟩ := reclaim_one_step h now n (hown row (List.mem_cons_self ..))
    have hrest := complete_hosts (fun r hr => hown r (List.mem_cons_of_mem _ hr))
      row.1 .timedOut row.2 timedOutMessage now
    obtain ⟨hi', hf'⟩ := ih hi hrest (reclaimOne now (db, n) row).2
    exact ⟨hi', hf.trans hf'⟩

theorem reclaim_step {db : Database} (h : Invariant db) (retentionDays : ℤ)
    (timeoutSeconds readAt now : ℚ) :
    Invariant (reclaimStaleTasks retentionDays db timeoutSeconds readAt now).1 ∧
      Follows db (reclaimStaleTasks retentionDays db timeoutSeconds readAt now).1 := by
  have hown : ∀ row ∈ (db.tasks.filter (stale (readAt - timeoutSeconds))).map
      (fun t => (t.id, t.hostId)), ∀ t ∈ db.tasks, t.id = row.1 → t.hostId = row.2 := by
    intro row hrow t ht hid
    obtain ⟨u, hu, rfl⟩ := List.mem_map.mp hrow
    rw [h.task_unique ht (List.mem_of_mem_filter hu) hid]
  obtain ⟨hi, hf⟩ := reclaim_loop h now _ hown 0
  exact ⟨prune_invariant hi _ _, hf.trans (prune_follows _ _ _)⟩

end Reclaim

section Queue

theorem queue_follows (db : Database) (now : ℚ) (hostId command kind : String)
    (runAs : Option String) : Follows db (queueTask db now hostId command kind runAs).1 := by
  refine ⟨Nat.le_succ _, ?_⟩
  intro t ht hle
  rcases List.mem_append.mp ht with ht | ht
  · exact ⟨t, ht, rfl, .refl⟩
  · rw [List.mem_singleton.mp ht] at hle
    exact absurd hle (Nat.not_succ_le_self _)

theorem queue_invariant {db : Database} (h : Invariant db) (now : ℚ)
    (hostId command kind : String) (runAs : Option String) :
    Invariant (queueTask db now hostId command kind runAs).1 := by
  constructor
  · simp only [queueTask, List.map_append, List.map_cons, List.map_nil]
    refine List.nodup_append.mpr ⟨h.task_ids, List.nodup_singleton _, ?_⟩
    intro a ha b hb
    obtain ⟨t, ht, rfl⟩ := List.mem_map.mp ha
    have := h.task_seq t ht
    rw [List.mem_singleton.mp hb]
    omega
  · intro t ht
    rcases List.mem_append.mp ht with ht | ht
    · exact (h.task_seq t ht).trans (Nat.le_succ _)
    · rw [List.mem_singleton.mp ht]
      exact le_rfl
  · intro r hr
    obtain ⟨t, ht, hrest⟩ := h.owner r hr
    exact ⟨t, List.mem_append_left _ ht, hrest⟩
  · intro t ht hterm
    rcases List.mem_append.mp ht with ht | ht
    · exact h.reported t ht hterm
    · rw [List.mem_singleton.mp ht] at hterm
      cases hterm
  · exact h.one_result

end Queue

theorem exec_step (retentionDays : ℤ) {db : Database} (h : Invariant db) {call : Call}
    (hown : OwnHost db call) :
    Invariant (exec retentionDays db call).1 ∧ Follows db (exec retentionDays db call).1 := by
  cases call with
  | queueTask => exact ⟨queue_invariant h .., queue_follows ..⟩
  | fetchPendingTasks => exact ⟨fetch_invariant h .., fetch_follows ..⟩
  | submitTaskResult =>
    exact ⟨complete_invariant h rfl hown _ _, complete_follows h .finish _ _ _ _⟩
  | reclaimStaleTasks => exact reclaim_step h ..
  | deleteAgent => exact ⟨delete_agent_invariant h _, delete_agent_follows _ _⟩

theorem step_preserves_invariant {retentionDays : ℤ} (db : Database) (e : Call × Reply)
    (db' : Database) (st : (queue retentionDays).step db e db') (h : Invariant db) :
    Invariant db' := by
  have := (exec_step retentionDays h st.1).1
  rwa [st.2] at this

theorem step_follows {retentionDays : ℤ} (db : Database) (e : Call × Reply)
    (db' : Database) (st : (queue retentionDays).step db e db') (h : Invariant db) :
    Follows db db' := by
  have := (exec_step retentionDays h st.1).2
  rwa [st.2] at this

theorem run_invariant {retentionDays : ℤ} {es : List (Call × Reply)} {db : Database}
    (h : (queue retentionDays).Run .empty es db) : Invariant db :=
  h.invariant step_preserves_invariant empty_invariant

theorem run_follows {retentionDays : ℤ} {es : List (Call × Reply)} {db db' : Database}
    (h : (queue retentionDays).Run db es db') (hdb : Invariant db) : Follows db db' :=
  h.related step_preserves_invariant Follows.refl (fun _ _ _ _ => Follows.trans)
    step_follows hdb

theorem path_from_pending {s : Status} (h : StatusPath s .pending) : s = .pending := by
  rcases Relation.ReflTransGen.cases_tail h with rfl | ⟨_, _, hn⟩
  · rfl
  · cases hn

/-- Ids handed out so far are old and never pending again, hence not claimable again. -/
structure HandedOutOnce (es : List (Call × Reply)) (db : Database) : Prop where
  once : (deliveredIds es).Nodup
  known : ∀ i ∈ deliveredIds es, i ≤ db.taskSeq
  claimed : ∀ i ∈ deliveredIds es, ∀ t ∈ db.tasks, t.id = i → t.status ≠ .pending

theorem HandedOutOnce.follows {es : List (Call × Reply)} {db db' : Database}
    (h : HandedOutOnce es db) (hf : Follows db db') : HandedOutOnce es db' := by
  refine ⟨h.once, fun i hi => (h.known i hi).trans hf.seq, ?_⟩
  intro i hi t' ht' hid hp
  obtain ⟨t, ht, htid, hpath⟩ := hf.rows t' ht' (hid ▸ h.known i hi)
  rw [hp] at hpath
  exact h.claimed i hi t ht (htid.trans hid) (path_from_pending hpath)

@[simp] theorem deliveredIds_snoc (es : List (Call × Reply)) (e : Call × Reply) :
    deliveredIds (es ++ [e]) = deliveredIds es ++ deliveredIds [e] := by
  simp [deliveredIds]

theorem fetch_moves_off_pending {db : Database} {hostId : String} {now : ℚ} {i : ℕ}
    (h : Invariant db) (hi : i ∈ (fetchPendingTasks db hostId now).2.map Delivery.id) :
    ∀ t ∈ (fetchPendingTasks db hostId now).1.tasks, t.id = i → t.status ≠ .pending := by
  obtain ⟨u, hu, hhost, hpend, huid⟩ := mem_fetch_ids.mp hi
  intro t' ht' hid
  obtain ⟨t, ht, rfl⟩ := List.mem_map.mp ht'
  have heq : t = u := h.task_unique ht hu (by simpa [huid] using hid)
  subst heq
  simp [claim, claimable_iff.mpr ⟨hhost, hpend⟩]

/-- Only a fetch adds to the history; what it adds was pending before and is not after. -/
theorem handed_out_step {retentionDays : ℤ} (es : List (Call × Reply)) (db : Database)
    (e : Call × Reply) (db' : Database) (run : (queue retentionDays).Run .empty es db)
    (st : (queue retentionDays).step db e db') (h : HandedOutOnce es db) :
    HandedOutOnce (es ++ [e]) db' := by
  have hinv := run_invariant run
  have hkeep := h.follows (step_follows db e db' st hinv)
  obtain ⟨call, reply⟩ := e
  obtain ⟨hown, hexec⟩ := st
  cases call with
  | fetchPendingTasks hostId now =>
    simp only [exec, Prod.mk.injEq] at hexec
    obtain ⟨rfl, rfl⟩ := hexec
    have hnew : deliveredIds [(Call.fetchPendingTasks hostId now,
        Reply.delivered (fetchPendingTasks db hostId now).2)] =
        (fetchPendingTasks db hostId now).2.map Delivery.id := by
      simp [deliveredIds]
    constructor
    · rw [deliveredIds_snoc, hnew]
      refine List.nodup_append.mpr ⟨h.once, fetch_ids_nodup hinv hostId now, ?_⟩
      rintro i hi j hj rfl
      obtain ⟨t, ht, _, hpend, hid⟩ := mem_fetch_ids.mp hj
      exact h.claimed i hi t ht hid hpend
    · intro i hi
      rw [deliveredIds_snoc, hnew] at hi
      rcases List.mem_append.mp hi with hi | hi
      · exact hkeep.known i hi
      · obtain ⟨t, ht, _, _, hid⟩ := mem_fetch_ids.mp hi
        exact hid ▸ hinv.task_seq t ht
    · intro i hi
      rw [deliveredIds_snoc, hnew] at hi
      rcases List.mem_append.mp hi with hi | hi
      · exact hkeep.claimed i hi
      · exact fetch_moves_off_pending hinv hi
  | _ =>
    simp only [exec, Prod.mk.injEq] at hexec
    obtain ⟨-, rfl⟩ := hexec
    have hsame : ∀ c r, (∀ rows, r ≠ Reply.delivered rows) →
        deliveredIds (es ++ [(c, r)]) = deliveredIds es := by
      intro c r hr
      cases r <;> simp [deliveredIds] at hr ⊢
    obtain ⟨h1, h2, h3⟩ := hkeep
    constructor <;> rw [hsame _ _ (by simp)] <;> assumption

theorem run_handed_out {retentionDays : ℤ} {es : List (Call × Reply)} {db : Database}
    (h : (queue retentionDays).Run .empty es db) : HandedOutOnce es db :=
  h.history (P := HandedOutOnce) ⟨List.nodup_nil, by simp [deliveredIds], by simp [deliveredIds]⟩
    handed_out_step

/-- The life cycle of a task over every interleaving of the five calls: no id is ever handed
out twice, the status of a row moves only forward between any two points of the run, and
the result rows are exactly one for each terminal task row. -/
theorem task_life_cycle {retentionDays : ℤ} {es : List (Call × Reply)} {db : Database}
    (h : (queue retentionDays).Run .empty es db) :
    (deliveredIds es).Nodup ∧
    (∀ fs db', (queue retentionDays).Run db fs db' → ∀ t ∈ db.tasks, ∀ t' ∈ db'.tasks,
      t.id = t'.id → StatusPath t.status t'.status) ∧
    (∀ i, (∃ r ∈ db.results, r.taskId = i) ↔ ∃ t ∈ db.tasks, t.id = i ∧ t.status.terminal) ∧
    (db.results.map AgentResult.taskId).Nodup := by
  have hinv := run_invariant h
  refine ⟨(run_handed_out h).once, ?_, ?_, hinv.one_result⟩
  · intro fs db' run t ht t' ht' hid
    obtain ⟨u, hu, huid, hpath⟩ := (run_follows run hinv).rows t' ht'
      (hid ▸ hinv.task_seq t ht)
    rwa [hinv.task_unique hu ht (huid.trans hid.symm)] at hpath
  · intro i
    constructor
    · rintro ⟨r, hr, rfl⟩
      obtain ⟨t, ht, hid, _, hterm⟩ := hinv.owner r hr
      exact ⟨t, ht, hid, hterm⟩
    · rintro ⟨t, ht, rfl, hterm⟩
      exact hinv.reported t ht hterm

/-- One task, delivered and reported. -/
def sampleCalls : List (Call × Reply) :=
  [(.queueTask 10 "web-1" "uptime" "command" none, .queued 1),
    (.fetchPendingTasks "web-1" 11, .delivered [⟨1, "uptime", "command", none⟩]),
    (.submitTaskResult 1 "web-1" "up" 12, .applied true)]

def sampleDatabase : Database :=
  ⟨[⟨1, "web-1", "uptime", "command", .done, some 10, some 11, none⟩],
    [⟨1, 1, "web-1", "up", 12⟩], 1, 1⟩

theorem sample_run : (queue 30).Run .empty sampleCalls sampleDatabase := by
  refine .cons ⟨trivial, rfl⟩ (.cons
    (t := ⟨[⟨1, "web-1", "uptime", "command", .dispatched, some 10, some 11, none⟩], [], 1, 0⟩)
    ⟨trivial, ?_⟩ (.single ⟨?_, by decide⟩))
  · simp [exec, fetchPendingTasks, claim, claimable, Database.empty, AgentTask.delivery]
  · intro t ht _
    rw [List.mem_singleton.mp ht]

theorem task_life_cycle_sample :
    (deliveredIds sampleCalls).Nodup ∧
    (∀ fs db', (queue 30).Run sampleDatabase fs db' → ∀ t ∈ sampleDatabase.tasks,
      ∀ t' ∈ db'.tasks, t.id = t'.id → StatusPath t.status t'.status) ∧
    (∀ i, (∃ r ∈ sampleDatabase.results, r.taskId = i) ↔
      ∃ t ∈ sampleDatabase.tasks, t.id = i ∧ t.status.terminal) ∧
    (sampleDatabase.results.map AgentResult.taskId).Nodup :=
  task_life_cycle sample_run

end TaskQueue
