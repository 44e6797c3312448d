import SysibleController.TaskQueue
import Mathlib.Tactic.Linarith
import Mathlib.Tactic.Positivity

/-! How long the result of a task is kept. The prune of `reclaim_stale_tasks` selects tasks by
the time they were created, and a task may wait for any length of time before it completes.
The calls here come in any order, at any times, and from any host. -/
namespace TaskQueue

/-- A property of every call of a sequence and the database it finds. -/
def Throughout (retentionDays : ℤ) (P : Database → Call → Prop) : Database → List Call → Prop
  | _, [] => True
  | db, call :: calls => P db call ∧ Throughout retentionDays P (exec retentionDays db call).1 calls

/-- The database between the time-outs of `reclaim_stale_tasks` and its prune. -/
def timeOutStale (db : Database) (timeoutSeconds readAt now : ℚ) : Database :=
  (((db.tasks.filter (stale (readAt - timeoutSeconds))).map fun t => (t.id, t.hostId)).foldl
    (reclaimOne now) (db, 0)).1

theorem reclaim_eq_prune (retentionDays : ℤ) (db : Database) (timeoutSeconds readAt now : ℚ) :
    (reclaimStaleTasks retentionDays db timeoutSeconds readAt now).1 =
      pruneTerminalTasks retentionDays (timeOutStale db timeoutSeconds readAt now) now := rfl

/-- The prune deletes no result earlier than the retention period after its completion. -/
def KeepsResults (retentionDays : ℤ) (db : Database) : Call → Prop
  | .reclaimStaleTasks timeoutSeconds readAt now =>
    ∀ r ∈ (timeOutStale db timeoutSeconds readAt now).results,
      r ∉ (reclaimStaleTasks retentionDays db timeoutSeconds readAt now).1.results →
      r.completed + retentionDays * 24 * 60 * 60 ≤ now
  | _ => True

/-- A task that was created before the window is not timed out by this very call, and if it is
terminal it completed before the window too. -/
def CompletedEarly (retentionDays : ℤ) (db : Database) : Call → Prop
  | .reclaimStaleTasks timeoutSeconds readAt now => 0 < retentionDays →
    ∀ t ∈ db.tasks, t.created.any (· < now - retentionDays * 24 * 60 * 60) →
      ¬stale (readAt - timeoutSeconds) t ∧ (t.status.terminal →
        ∀ r ∈ db.results, r.taskId = t.id → r.completed ≤ now - retentionDays * 24 * 60 * 60)
  | _ => True

/-! ### Ids -/

/-- Ids name tasks, whoever reports them. -/
structure TaskIds (db : Database) : Prop where
  nodup : (db.tasks.map AgentTask.id).Nodup
  seq : ∀ t ∈ db.tasks, t.id ≤ db.taskSeq

theorem TaskIds.unique {db : Database} (h : TaskIds db) {t u : AgentTask} (ht : t ∈ db.tasks)
    (hu : u ∈ db.tasks) (hid : t.id = u.id) : t = u :=
  List.inj_on_of_nodup_map h.nodup ht hu hid

theorem TaskIds.filter {db db' : Database} (h : TaskIds db) (hseq : db'.taskSeq = db.taskSeq)
    {keep : AgentTask → Bool} (htasks : db'.tasks = db.tasks.filter keep) : TaskIds db' := by
  refine ⟨?_, fun t ht => ?_⟩
  · rw [htasks]
    exact (List.filter_sublist.map _).nodup h.nodup
  · rw [hseq]
    rw [htasks] at ht
    exact h.seq t (List.mem_of_mem_filter ht)

theorem TaskIds.map {db db' : Database} (h : TaskIds db) (hseq : db'.taskSeq = db.taskSeq)
    {f : AgentTask → AgentTask} (hf : ∀ t, (f t).id = t.id) (htasks : db'.tasks = db.tasks.map f) :
    TaskIds db' := by
  refine ⟨?_, fun t ht => ?_⟩
  · rw [htasks, List.map_map]
    simpa [Function.comp_def, hf] using h.nodup
  · rw [htasks] at ht
    obtain ⟨u, hu, rfl⟩ := List.mem_map.mp ht
    rw [hseq, hf]
    exact h.seq u hu

theorem complete_tasks (db : Database) (taskId : ℕ) (status : Status) (hostId result : String)
    (now : ℚ) : (complete db taskId status hostId result now).1.tasks =
      db.tasks.map (settle taskId status) ∧
    (complete db taskId status hostId result now).1.taskSeq = db.taskSeq := by
  unfold complete
  split <;> exact ⟨rfl, rfl⟩

theorem TaskIds.complete {db : Database} (h : TaskIds db) (taskId : ℕ) (status : Status)
    (hostId result : String) (now : ℚ) :
    TaskIds (complete db taskId status hostId result now).1 :=
  h.map (complete_tasks ..).2 (settle_id _ _) (complete_tasks ..).1

theorem TaskIds.timeOuts {db : Database} (h : TaskIds db) (now : ℚ) (rows : List (ℕ × String))
    (n : ℕ) : TaskIds (rows.foldl (reclaimOne now) (db, n)).1 := by
  induction rows generalizing db n with
  | nil => exact h
  | cons row rows ih => exact ih (h.complete ..) _

theorem TaskIds.exec {db : Database} (h : TaskIds db) (retentionDays : ℤ) (call : Call) :
    TaskIds (exec retentionDays db call).1 := by
  cases call with
  | queueTask now hostId command kind runAs =>
    refine ⟨?_, fun t ht => ?_⟩
    · simp only [TaskQueue.exec, queueTask, List.map_append, List.map_cons, List.map_nil]
      refine List.nodup_append.mpr ⟨h.nodup, List.nodup_singleton _, ?_⟩
      intro a ha b hb
      obtain ⟨t, ht, rfl⟩ := List.mem_map.mp ha
      have := h.seq t ht
      rw [List.mem_singleton.mp hb]
      omega
    · rcases List.mem_append.mp ht with ht | ht
      · exact (h.seq t ht).trans (Nat.le_succ _)
      · rw [List.mem_singleton.mp ht]
        exact le_rfl
  | fetchPendingTasks => exact h.map rfl (claim_id _ _) rfl
  | submitTaskResult => exact h.complete ..
  | reclaimStaleTasks timeoutSeconds readAt now =>
    have htimed : TaskIds (timeOutStale db timeoutSeconds readAt now) := h.timeOuts ..
    change TaskIds (pruneTerminalTasks retentionDays _ now)
    unfold pruneTerminalTasks
    split
    · exact htimed
    · exact htimed.filter rfl rfl
  | deleteAgent => exact h.filter rfl rfl

/-! ### The time-outs -/

/-- What the loop of `reclaim_stale_tasks` does with the tasks it has read. -/
structure TimesOut (ids : List ℕ) (now : ℚ) (db db' : Database) : Prop where
  tasks : db'.tasks = db.tasks.map fun t =>
    if t.id ∈ ids then { t with status := .timedOut } else t
  results : ∃ more, db'.results = db.results ++ more ∧
    (∀ r ∈ more, r.taskId ∈ ids ∧ r.completed = now) ∧ ∀ i ∈ ids, ∃ r ∈ more, r.taskId = i

theorem timesOut_one {db : Database} (h : TaskIds db) {t : AgentTask} (ht : t ∈ db.tasks)
    (hd : t.status = .dispatched) (now : ℚ) (hostId : String) (n : ℕ) :
    TimesOut [t.id] now db (reclaimOne now (db, n) (t.id, hostId)).1 := by
  have hone : db.tasks.countP (handedOut t.id) = 1 := by
    refine le_antisymm ?_ (List.countP_pos_iff.mpr ⟨t, ht, handedOut_iff.mpr ⟨rfl, hd⟩⟩)
    have hids := List.nodup_iff_count_le_one.mp h.nodup t.id
    rw [List.count, List.countP_map] at hids
    refine (List.countP_mono_left fun u _ hu => ?_).trans hids
    simpa using (handedOut_iff.mp hu).1
  have hsettle : ∀ u ∈ db.tasks, settle t.id .timedOut u =
      if u.id ∈ [t.id] then { u with status := .timedOut } else u := by
    intro u hu
    by_cases hid : u.id = t.id
    · rw [h.unique hu ht hid, settle, if_pos (handedOut_iff.mpr ⟨rfl, hd⟩), if_pos (by simp)]
    · rw [settle_of_ne hid, if_neg (by simpa using hid)]
  unfold reclaimOne complete
  rw [if_pos hone]
  exact ⟨List.map_congr_left hsettle, _, rfl, by simp, by simp⟩

theorem TimesOut.refl (now : ℚ) (db : Database) : TimesOut [] now db db :=
  ⟨by simp, [], by simp, by simp, by simp⟩

theorem TimesOut.trans {ids ids' : List ℕ} {now : ℚ} {a b c : Database}
    (h : TimesOut ids now a b) (k : TimesOut ids' now b c) : TimesOut (ids ++ ids') now a c := by
  obtain ⟨more, hmore, hof, hall⟩ := h.results
  obtain ⟨more', hmore', hof', hall'⟩ := k.results
  refine ⟨?_, more ++ more', by rw [hmore', hmore, List.append_assoc], fun r hr => ?_, fun i hi => ?_⟩
  · rw [k.tasks, h.tasks, List.map_map]
    refine List.map_congr_left fun t _ => ?_
    by_cases hid : t.id ∈ ids <;> by_cases hid' : t.id ∈ ids' <;> simp [hid, hid']
  · rcases List.mem_append.mp hr with hr | hr
    · exact (hof r hr).imp_left (List.mem_append_left _)
    · exact (hof' r hr).imp_left (List.mem_append_right _)
  · rcases List.mem_append.mp hi with hi | hi
    · obtain ⟨r, hr, hid⟩ := hall i hi
      exact ⟨r, List.mem_append_left _ hr, hid⟩
    · obtain ⟨r, hr, hid⟩ := hall' i hi
      exact ⟨r, List.mem_append_right _ hr, hid⟩

theorem timesOut_loop {db : Database} (h : TaskIds db) (now : ℚ) (rows : List (ℕ × String))
    (hnodup : (rows.map Prod.fst).Nodup)
    (hrows : ∀ row ∈ rows, ∃ t ∈ db.tasks, t.id = row.1 ∧ t.status = .dispatched) (n : ℕ) :
    TimesOut (rows.map Prod.fst) now db (rows.foldl (reclaimOne now) (db, n)).1 := by
  induction rows generalizing db n with
  | nil => exact .refl now db
  | cons row rows ih =>
    obtain ⟨hfresh, hnodup⟩ := List.nodup_cons.mp (List.map_cons .. ▸ hnodup)
    obtain ⟨t, ht, hid, hd⟩ := hrows row (List.mem_cons_self ..)
    have hfirst := timesOut_one h ht hd now row.2 n
    rw [hid] at hfirst
    refine hfirst.trans (ih (h.complete ..) hnodup (fun row' hrow' => ?_) _)
    -- the tasks still to come have other ids, so they are as they were
    obtain ⟨u, hu, huid, hud⟩ := hrows row' (List.mem_cons_of_mem _ hrow')
    refine ⟨u, ?_, huid, hud⟩
    change u ∈ (reclaimOne now (db, n) (row.1, row.2)).1.tasks
    rw [hfirst.tasks]
    refine List.mem_map.mpr ⟨u, hu, if_neg fun hmem => hfresh ?_⟩
    rw [← List.mem_singleton.mp hmem, huid]
    exact List.mem_map_of_mem hrow'

theorem stale_iff {cutoff : ℚ} {t : AgentTask} :
    stale cutoff t = true ↔ t.status = .dispatched ∧ t.dispatched.any (· < cutoff) = true := by
  simp [stale]

/-- The time-outs of one call, task by task. -/
theorem timeOutStale_timesOut {db : Database} (h : TaskIds db) (timeoutSeconds readAt now : ℚ) :
    TimesOut ((db.tasks.filter (stale (readAt - timeoutSeconds))).map AgentTask.id) now db
      (timeOutStale db timeoutSeconds readAt now) := by
  have hloop := timesOut_loop h now ((db.tasks.filter (stale (readAt - timeoutSeconds))).map
    fun t => (t.id, t.hostId)) ?_ ?_ 0
  · rw [List.map_map] at hloop
    exact hloop
  · simpa [List.map_map, Function.comp_def] using (List.filter_sublist.map AgentTask.id).nodup h.nodup
  · intro row hrow
    obtain ⟨t, ht, rfl⟩ := List.mem_map.mp hrow
    obtain ⟨ht, hstale⟩ := List.mem_filter.mp ht
    exact ⟨t, ht, rfl, (stale_iff.mp hstale).1⟩

/-! ### The prune -/

section Prune

variable {retentionDays : ℤ} {db : Database} {timeoutSeconds readAt now : ℚ}

theorem not_mem_prune {r : AgentResult} (hr : r ∈ db.results) :
    r ∉ (pruneTerminalTasks retentionDays db now).results ↔ 0 < retentionDays ∧
      ∃ t ∈ db.tasks, expired (now - retentionDays * 24 * 60 * 60) t ∧ t.id = r.taskId := by
  unfold pruneTerminalTasks
  split_ifs with hdays
  · simp [hr, hdays]
  · simp [hr, not_le.mp hdays, and_assoc]

theorem expired_iff {cutoff : ℚ} {t : AgentTask} :
    expired cutoff t = true ↔ t.status.terminal = true ∧ t.created.any (· < cutoff) = true := by
  simp [expired]

theorem mem_staleIds (h : TaskIds db) {t : AgentTask} (ht : t ∈ db.tasks) :
    t.id ∈ (db.tasks.filter (stale (readAt - timeoutSeconds))).map AgentTask.id ↔
      stale (readAt - timeoutSeconds) t := by
  constructor
  · intro hmem
    obtain ⟨u, hu, hid⟩ := List.mem_map.mp hmem
    obtain ⟨hu, hstale⟩ := List.mem_filter.mp hu
    rwa [← h.unique hu ht hid]
  · exact fun hstale => List.mem_map_of_mem (List.mem_filter.mpr ⟨ht, hstale⟩)

/-- If every result is kept long enough, so is what the pruning of a task would take with it. -/
theorem completedEarly_of_keeps (h : TaskIds db)
    (hkeeps : KeepsResults retentionDays db (.reclaimStaleTasks timeoutSeconds readAt now)) :
    CompletedEarly retentionDays db (.reclaimStaleTasks timeoutSeconds readAt now) := by
  have htimed := timeOutStale_timesOut h timeoutSeconds readAt now
  obtain ⟨more, hmore, hof, hall⟩ := htimed.results
  simp only [KeepsResults, reclaim_eq_prune] at hkeeps
  intro hdays t ht hcreated
  have hperiod : (0 : ℚ) < retentionDays * 24 * 60 * 60 := by
    have : (0 : ℚ) < retentionDays := by exact_mod_cast hdays
    positivity
  have hgone : ∀ u, u ∈ (timeOutStale db timeoutSeconds readAt now).tasks →
      u.status.terminal → u.id = t.id → u.created = t.created →
      ∀ r ∈ (timeOutStale db timeoutSeconds readAt now).results, r.taskId = t.id →
      r.completed ≤ now - retentionDays * 24 * 60 * 60 := by
    intro u hu hterm hid hcre r hr hrid
    have := hkeeps r hr ((not_mem_prune hr).mpr ⟨hdays, u, hu,
      expired_iff.mpr ⟨hterm, hcre ▸ hcreated⟩, hid.trans hrid.symm⟩)
    linarith
  constructor
  · -- a result that this call writes would be gone at once
    intro hstale
    have hmem := (mem_staleIds h ht).mpr hstale
    obtain ⟨r, hr, hrid⟩ := hall t.id hmem
    have := hgone { t with status := .timedOut } ?_ rfl rfl rfl r
      (hmore ▸ List.mem_append_right _ hr) hrid
    · rw [(hof r hr).2] at this
      linarith
    · rw [htimed.tasks]
      exact List.mem_map.mpr ⟨t, ht, if_pos hmem⟩
  · intro hterm r hr hrid
    refine hgone t ?_ hterm rfl rfl r (hmore ▸ List.mem_append_left _ hr) hrid
    rw [htimed.tasks]
    refine List.mem_map.mpr ⟨t, ht, if_neg fun hmem => ?_⟩
    have hd := (stale_iff.mp ((mem_staleIds h ht).mp hmem)).1
    simp [hd, Status.terminal] at hterm

theorem keeps_of_completedEarly (h : TaskIds db)
    (hearly : CompletedEarly retentionDays db (.reclaimStaleTasks timeoutSeconds readAt now)) :
    KeepsResults retentionDays db (.reclaimStaleTasks timeoutSeconds readAt now) := by
  have htimed := timeOutStale_timesOut h timeoutSeconds readAt now
  obtain ⟨more, hmore, hof, -⟩ := htimed.results
  simp only [KeepsResults, reclaim_eq_prune]
  intro r hr hgone
  obtain ⟨hdays, u, hu, hexp, hid⟩ := (not_mem_prune hr).mp hgone
  obtain ⟨hterm, hcreated⟩ := expired_iff.mp hexp
  rw [htimed.tasks] at hu
  obtain ⟨t, ht, rfl⟩ := List.mem_map.mp hu
  have hsame : t.id ∉ (db.tasks.filter (stale (readAt - timeoutSeconds))).map AgentTask.id := by
    intro hmem
    rw [if_pos hmem] at hcreated
    exact (hearly hdays t ht hcreated).1 ((mem_staleIds h ht).mp hmem)
  rw [if_neg hsame] at hterm hcreated hid
  rw [hmore] at hr
  rcases List.mem_append.mp hr with hr | hr
  · have := (hearly hdays t ht hcreated).2 hterm r hr hid.symm
    linarith
  · exact absurd (hid ▸ (hof r hr).1) hsame

/-- Exactly when one call keeps the results for the retention period. -/
theorem keepsResults_iff (h : TaskIds db) (call : Call) :
    KeepsResults retentionDays db call ↔ CompletedEarly retentionDays db call := by
  cases call with
  | reclaimStaleTasks => exact ⟨completedEarly_of_keeps h, keeps_of_completedEarly h⟩
  | queueTask => exact Iff.rfl
  | fetchPendingTasks => exact Iff.rfl
  | submitTaskResult => exact Iff.rfl
  | deleteAgent => exact Iff.rfl

end Prune

/-! ### Every sequence of calls -/

theorem throughout_iff {retentionDays : ℤ} {P Q : Database → Call → Prop}
    (hPQ : ∀ db call, TaskIds db → (P db call ↔ Q db call)) {db : Database} (h : TaskIds db)
    (calls : List Call) :
    Throughout retentionDays P db calls ↔ Throughout retentionDays Q db calls := by
  induction calls generalizing db with
  | nil => exact Iff.rfl
  | cons call calls ih => exact and_congr (hPQ db call h) (ih (h.exec retentionDays call))

/-- Over every sequence of calls from the empty queue. -/
theorem results_kept_iff (retentionDays : ℤ) (calls : List Call) :
    Throughout retentionDays (KeepsResults retentionDays) .empty calls ↔
      Throughout retentionDays (CompletedEarly retentionDays) .empty calls :=
  throughout_iff (fun _ call h => keepsResults_iff h call) ⟨by simp [Database.empty], by simp [Database.empty]⟩ calls

/-- A host that was away for a month reports, and the reclaim one second later takes the
result with it. -/
theorem fresh_result_pruned : ¬Throughout 30 (KeepsResults 30) .empty
    [.queueTask 0 "web-1" "uptime" "command" none, .fetchPendingTasks "web-1" 2678400,
      .submitTaskResult 1 "web-1" "up" 2678401, .reclaimStaleTasks 3600 2678402 2678402] := by
  rintro ⟨-, -, -, hkeeps, -⟩
  have hgone := hkeeps ⟨1, 1, "web-1", "up", 2678401⟩ (by decide) ?_
  · norm_num at hgone
  · rw [reclaim_eq_prune, not_mem_prune (by decide)]
    refine ⟨by decide, ⟨1, "web-1", "uptime", "command", .done, some 0, some 2678400, none⟩,
      by decide, ?_, rfl⟩
    norm_num [expired, Status.terminal]

end TaskQueue
