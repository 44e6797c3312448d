import SysibleController.TaskQueue
import SysibleController.PastTrace
import Mathlib.Logic.Function.Basic

/-! The tasks of the controller together with the agents that run them: the routes for tasks and
results in `backend/app.py` on one side, the task loop of `host_agent/agent.py` on the other, and a
network between them that loses answers, and that delays reports, loses them or delivers them more
than once. -/
namespace TaskProtocol

open TransitionSystem TaskQueue PastTrace

structure Report where
  taskId : ℕ
  hostId : String
  result : String
  deriving DecidableEq

/-- `waiting` are the tasks that an agent has fetched and not begun, `sent` every report that has
been put on the network: none is ever known to be gone. -/
structure System where
  db : Database
  waiting : String → List Delivery
  sent : List Report

/-- `ran` lists the reports that are sent about one run: a failing one is followed by another. -/
inductive Event where
  | operator (call : Call) (reply : Reply)
  | fetched (hostId : String) (now : ℚ) (rows : List Delivery) (arrives : Bool)
  | ran (hostId : String) (task : Delivery) (results : List String)
  | arrived (report : Report) (now : ℚ) (answer : Option Bool)
  | restarted (hostId : String)

/-- Calls that do not come from an agent's loop. -/
def Operators : Call → Prop
  | .queueTask _ _ _ _ _ | .reclaimStaleTasks _ _ _ | .deleteAgent _ => True
  | .fetchPendingTasks _ _ | .submitTaskResult _ _ _ _ => False

def getTaskHost (db : Database) (taskId : ℕ) : Option String :=
  (db.tasks.find? fun t => t.id = taskId).map AgentTask.hostId

/-- `post_task_result`, of an agent with the right secret: none is the 404. -/
def postTaskResult (db : Database) (r : Report) (now : ℚ) : Option (Database × Bool) :=
  if getTaskHost db r.taskId = some r.hostId then
    some (submitTaskResult db r.taskId r.hostId r.result now)
  else none

variable {retentionDays : ℤ}

inductive Step (retentionDays : ℤ) : System → Event → System → Prop where
  | operator (s : System) (call : Call) (hcall : Operators call) :
      Step retentionDays s (.operator call (exec retentionDays s.db call).2)
        { s with db := (exec retentionDays s.db call).1 }
  | fetched (s : System) (hostId : String) (now : ℚ) (arrives : Bool)
      (hidle : s.waiting hostId = []) :
      Step retentionDays s
        (.fetched hostId now (fetchPendingTasks s.db hostId now).2 arrives)
        { s with
          db := (fetchPendingTasks s.db hostId now).1
          waiting := if arrives then
              Function.update s.waiting hostId (fetchPendingTasks s.db hostId now).2
            else s.waiting }
  | ran (s : System) (hostId : String) (task : Delivery) (rest : List Delivery)
      (results : List String) (hnext : s.waiting hostId = task :: rest) :
      Step retentionDays s (.ran hostId task results)
        { s with
          waiting := Function.update s.waiting hostId rest
          sent := s.sent ++ results.map fun result => ⟨task.id, hostId, result⟩ }
  | arrived (s : System) (r : Report) (now : ℚ) (hsent : r ∈ s.sent) :
      Step retentionDays s (.arrived r now ((postTaskResult s.db r now).map Prod.snd))
        { s with db := ((postTaskResult s.db r now).map Prod.fst).getD s.db }
  | restarted (s : System) (hostId : String) :
      Step retentionDays s (.restarted hostId)
        { s with waiting := Function.update s.waiting hostId [] }

def machine (retentionDays : ℤ) : Machine System Event where
  start := ⟨.empty, fun _ => [], []⟩
  step := Step retentionDays

/-- The calls that the controller's database has seen. -/
def calls (es : List Event) : List (Call × Reply) :=
  es.flatMap fun
    | .operator call reply => [(call, reply)]
    | .fetched hostId now rows _ => [(.fetchPendingTasks hostId now, .delivered rows)]
    | .arrived r now (some ok) =>
      [(.submitTaskResult r.taskId r.hostId r.result now, .applied ok)]
    | .arrived _ _ none | .ran _ _ _ | .restarted _ => []

/-- The ids of the tasks that have been run, run by run. -/
def ranIds (es : List Event) : List ℕ :=
  es.filterMap fun
    | .ran _ task _ => some task.id
    | _ => none

/-- An operator asked for the task, for this host. -/
def Asked (es : List Event) (hostId : String) (d : Delivery) : Prop :=
  ∃ now, .operator (.queueTask now hostId d.command d.kind d.runAs) (.queued d.id) ∈ es

variable {es : List Event} {s s' : System} {e : Event}

theorem calls_snoc (es : List Event) (e : Event) : calls (es ++ [e]) = calls es ++ calls [e] := by
  simp [calls]

theorem ranIds_snoc (es : List Event) (e : Event) :
    ranIds (es ++ [e]) = ranIds es ++ ranIds [e] := by
  simp [ranIds]

theorem Asked.snoc {hostId : String} {d : Delivery} (h : Asked es hostId d) (e : Event) :
    Asked (es ++ [e]) hostId d := by
  obtain ⟨now, hmem⟩ := h
  exact ⟨now, List.mem_append_left _ hmem⟩

/-! ### What a call does to the rows -/

/-- A row says for which host it is, and what is to be run. -/
def SameTask (t u : AgentTask) : Prop := t.hostId = u.hostId ∧ t.delivery = u.delivery

theorem sameTask_refl (t : AgentTask) : SameTask t t := ⟨rfl, rfl⟩

theorem sameTask_claim (hostId : String) (now : ℚ) (t : AgentTask) :
    SameTask t (claim hostId now t) := by
  unfold claim
  split_ifs <;> exact ⟨rfl, rfl⟩

theorem sameTask_settle (taskId : ℕ) (status : Status) (t : AgentTask) :
    SameTask t (settle taskId status t) := by
  unfold settle
  split_ifs <;> exact ⟨rfl, rfl⟩

theorem complete_tasks {db : Database} {taskId : ℕ} {status : Status} {hostId result : String}
    {now : ℚ} {t : AgentTask} (h : t ∈ (complete db taskId status hostId result now).1.tasks) :
    ∃ u ∈ db.tasks, SameTask u t := by
  have htasks : (complete db taskId status hostId result now).1.tasks =
      db.tasks.map (settle taskId status) := by
    unfold complete
    split_ifs <;> rfl
  rw [htasks] at h
  obtain ⟨u, hu, rfl⟩ := List.mem_map.mp h
  exact ⟨u, hu, sameTask_settle taskId status u⟩

theorem complete_results {db : Database} {taskId : ℕ} {status : Status} {hostId result : String}
    {now : ℚ} {r : AgentResult}
    (h : r ∈ (complete db taskId status hostId result now).1.results) :
    r ∈ db.results ∨ r.taskId = taskId ∧ r.hostId = hostId ∧ r.result = result := by
  unfold complete at h
  split_ifs at h
  · rcases List.mem_append.mp h with h | h
    · exact Or.inl h
    · rw [List.mem_singleton.mp h]
      exact Or.inr ⟨rfl, rfl, rfl⟩
  · exact Or.inl h

theorem SameTask.trans {t u v : AgentTask} (h : SameTask t u) (k : SameTask u v) :
    SameTask t v := ⟨h.1.trans k.1, h.2.trans k.2⟩

theorem prune_mem (db : Database) (now : ℚ) :
    (∀ t ∈ (pruneTerminalTasks retentionDays db now).tasks, t ∈ db.tasks) ∧
      ∀ r ∈ (pruneTerminalTasks retentionDays db now).results, r ∈ db.results := by
  unfold pruneTerminalTasks
  split_ifs
  · exact ⟨fun _ h => h, fun _ h => h⟩
  · exact ⟨fun t h => (List.mem_filter.mp h).1, fun r h => (List.mem_filter.mp h).1⟩

/-- Reclaiming keeps what the rows are about, and writes only that a task timed out. -/
theorem reclaim_rows (now : ℚ) (rows : List (ℕ × String)) (acc : Database × ℕ) :
    (∀ t ∈ (rows.foldl (reclaimOne now) acc).1.tasks, ∃ u ∈ acc.1.tasks, SameTask u t) ∧
      ∀ r ∈ (rows.foldl (reclaimOne now) acc).1.results,
        r ∈ acc.1.results ∨ r.result = timedOutMessage := by
  induction rows generalizing acc with
  | nil => exact ⟨fun t h => ⟨t, h, sameTask_refl t⟩, fun _ h => Or.inl h⟩
  | cons row rows ih =>
    obtain ⟨htasks, hresults⟩ := ih (reclaimOne now acc row)
    refine ⟨fun t ht => ?_, fun r hr => ?_⟩
    · obtain ⟨u, hu, hut⟩ := htasks t ht
      obtain ⟨v, hv, hvu⟩ := complete_tasks hu
      exact ⟨v, hv, hvu.trans hut⟩
    · rcases hresults r hr with hr | hr
      · rcases complete_results hr with hr | ⟨-, -, hr⟩
        · exact Or.inl hr
        · exact Or.inr hr
      · exact Or.inr hr

theorem exec_tasks {db : Database} {call : Call} {t : AgentTask}
    (h : t ∈ (exec retentionDays db call).1.tasks) :
    (∃ u ∈ db.tasks, SameTask u t) ∨
      ∃ now, call = .queueTask now t.hostId t.command t.kind t.runAs ∧
        (exec retentionDays db call).2 = .queued t.id := by
  cases call with
  | queueTask now hostId command kind runAs =>
    rcases List.mem_append.mp h with h | h
    · exact Or.inl ⟨t, h, sameTask_refl t⟩
    · rw [List.mem_singleton.mp h]
      exact Or.inr ⟨now, rfl, rfl⟩
  | fetchPendingTasks hostId now =>
    obtain ⟨u, hu, rfl⟩ := List.mem_map.mp h
    exact Or.inl ⟨u, hu, sameTask_claim hostId now u⟩
  | submitTaskResult taskId hostId result now => exact Or.inl (complete_tasks h)
  | reclaimStaleTasks timeoutSeconds readAt now =>
    exact Or.inl ((reclaim_rows now _ _).1 t ((prune_mem _ now).1 t h))
  | deleteAgent hostId => exact Or.inl ⟨t, (List.mem_filter.mp h).1, sameTask_refl t⟩

theorem exec_results {db : Database} {call : Call} {r : AgentResult}
    (h : r ∈ (exec retentionDays db call).1.results) :
    r ∈ db.results ∨ r.result = timedOutMessage ∨
      ∃ now, call = .submitTaskResult r.taskId r.hostId r.result now := by
  cases call with
  | queueTask now hostId command kind runAs => exact Or.inl h
  | fetchPendingTasks hostId now => exact Or.inl h
  | submitTaskResult taskId hostId result now =>
    rcases complete_results h with h | ⟨rfl, rfl, rfl⟩
    · exact Or.inl h
    · exact Or.inr (Or.inr ⟨now, rfl⟩)
  | reclaimStaleTasks timeoutSeconds readAt now =>
    rcases (reclaim_rows now _ _).2 r ((prune_mem _ now).2 r h) with h | h
    · exact Or.inl h
    · exact Or.inr (Or.inl h)
  | deleteAgent hostId => exact Or.inl (List.mem_filter.mp h).1

/-! ### Ids are given once -/

/-- Every id in the trace was given by one call, and is not above the sequence. -/
structure QueuedOnce (cs : List (Call × Reply)) (db : Database) : Prop where
  bound : ∀ c i, (c, .queued i) ∈ cs → i ≤ db.taskSeq
  once : ∀ c c' i, (c, .queued i) ∈ cs → (c', .queued i) ∈ cs → c = c'

theorem queued_eq {db : Database} {call : Call} {i : ℕ}
    (h : (exec retentionDays db call).2 = .queued i) : i = db.taskSeq + 1 ∧
      (exec retentionDays db call).1.taskSeq = i := by
  cases call with
  | queueTask now hostId command kind runAs =>
    obtain rfl := Reply.queued.inj h
    exact ⟨rfl, rfl⟩
  | fetchPendingTasks | submitTaskResult | reclaimStaleTasks | deleteAgent => cases h

theorem queued_once {cs : List (Call × Reply)} {db : Database}
    (h : (queue retentionDays).Run .empty cs db) : QueuedOnce cs db := by
  refine h.history (P := QueuedOnce) ⟨by simp, by simp⟩ ?_
  rintro cs db ⟨call, reply⟩ db' run st ih
  have hseq := (step_follows db _ db' st (run_invariant run)).seq
  obtain ⟨-, hexec⟩ := st
  have hnew : ∀ i, reply = .queued i → i = db.taskSeq + 1 ∧ db'.taskSeq = i := by
    rintro i rfl
    have hqueued : (exec retentionDays db call).2 = .queued i := by rw [hexec]
    have heq := queued_eq hqueued
    rwa [hexec] at heq
  refine ⟨fun c i hi => ?_, fun c c' i hi hi' => ?_⟩
  · rcases List.mem_append.mp hi with hi | hi
    · exact (ih.bound c i hi).trans hseq
    · obtain ⟨rfl, rfl⟩ := Prod.mk.inj (List.mem_singleton.mp hi)
      exact (hnew i rfl).2.ge
  · rcases List.mem_append.mp hi with hold | hlast <;>
      rcases List.mem_append.mp hi' with hold' | hlast'
    · exact ih.once c c' i hold hold'
    · have hbound := ih.bound c i hold
      have hlast := (hnew i (Prod.mk.inj (List.mem_singleton.mp hlast')).2.symm).1
      omega
    · have hbound := ih.bound c' i hold'
      have hlast' := (hnew i (Prod.mk.inj (List.mem_singleton.mp hlast)).2.symm).1
      omega
    · have hc := (Prod.mk.inj (List.mem_singleton.mp hlast)).1
      exact hc.trans (Prod.mk.inj (List.mem_singleton.mp hlast')).1.symm

theorem Asked.unique {hostId hostId' : String} {d d' : Delivery} {db : Database}
    (hq : QueuedOnce (calls es) db) (h : Asked es hostId d) (h' : Asked es hostId' d')
    (hid : d.id = d'.id) : hostId = hostId' ∧ d = d' := by
  obtain ⟨now, hmem⟩ := h
  obtain ⟨now', hmem'⟩ := h'
  have hcall : ∀ {c r}, Event.operator c r ∈ es → (c, r) ∈ calls es := fun hm =>
    List.mem_flatMap.mpr ⟨_, hm, List.mem_singleton_self _⟩
  have heq := hq.once _ _ _ (hcall hmem) (hid ▸ hcall hmem')
  cases d
  cases d'
  cases hid
  obtain ⟨-, hh, hc, hk, hr⟩ := Call.queueTask.inj heq
  exact ⟨hh, by rw [Delivery.mk.injEq]; exact ⟨rfl, hc, hk, hr⟩⟩

/-! ### The invariant -/

/-- The host has run the task, and this is one of the reports about it. -/
def Reported (es : List Event) (hostId : String) (taskId : ℕ) (result : String) : Prop :=
  ∃ d results, .ran hostId d results ∈ es ∧ d.id = taskId ∧ result ∈ results

/-- The tasks that an agent has still to run: asked for, handed out, and not run before. -/
structure Waits (es : List Event) (hostId : String) (ds : List Delivery) : Prop where
  asked : ∀ d ∈ ds, Asked es hostId d
  fetched : ∀ d ∈ ds, d.id ∈ deliveredIds (calls es)
  fresh : ∀ d ∈ ds, d.id ∉ ranIds es
  apart : (ds.map Delivery.id).Nodup

structure Sound (retentionDays : ℤ) (es : List Event) (s : System) : Prop where
  sim : (queue retentionDays).Run .empty (calls es) s.db
  rows : ∀ t ∈ s.db.tasks, Asked es t.hostId t.delivery
  waits : ∀ hostId, Waits es hostId (s.waiting hostId)
  once : (ranIds es).Nodup
  delivered : ∀ i ∈ ranIds es, i ∈ deliveredIds (calls es)
  owned : ∀ hostId d results, .ran hostId d results ∈ es → Asked es hostId d
  sent : ∀ r ∈ s.sent, Reported es r.hostId r.taskId r.result
  results : ∀ r ∈ s.db.results, r.result = timedOutMessage ∨
    Reported es r.hostId r.taskId r.result

theorem Reported.snoc {hostId result : String} {taskId : ℕ} (h : Reported es hostId taskId result)
    (e : Event) : Reported (es ++ [e]) hostId taskId result := by
  obtain ⟨d, results, hran, h⟩ := h
  exact ⟨d, results, List.mem_append_left _ hran, h⟩

theorem deliveredIds_calls_snoc (es : List Event) (e : Event) :
    deliveredIds (calls (es ++ [e])) = deliveredIds (calls es) ++ deliveredIds (calls [e]) := by
  simp [calls_snoc, deliveredIds]

theorem Waits.snoc {hostId : String} {ds : List Delivery} (h : Waits es hostId ds)
    (hran : ranIds [e] = []) : Waits (es ++ [e]) hostId ds := by
  refine ⟨fun d hd => (h.asked d hd).snoc e, fun d hd => ?_, fun d hd => ?_, h.apart⟩
  · rw [deliveredIds_calls_snoc]
    exact List.mem_append_left _ (h.fetched d hd)
  · rw [ranIds_snoc, hran, List.append_nil]
    exact h.fresh d hd

theorem waits_nil (es : List Event) (hostId : String) : Waits es hostId [] := by
  constructor <;> simp

/-- An agent's list is another one. -/
theorem Sound.hold (h : Sound retentionDays es s) {hostId : String} {ds : List Delivery}
    (hds : Waits es hostId ds) :
    Sound retentionDays es { s with waiting := Function.update s.waiting hostId ds } := by
  refine ⟨h.sim, h.rows, fun host => ?_, h.once, h.delivered, h.owned, h.sent, h.results⟩
  by_cases hhost : host = hostId
  · subst hhost
    simpa using hds
  · simpa [Function.update_of_ne hhost] using h.waits host

/-- A step of the database, and no run of a task. -/
theorem Sound.snoc (h : Sound retentionDays es s) (hran : ranIds [e] = [])
    (hnot : ∀ hostId d results, e ≠ .ran hostId d results) {db : Database}
    (hsim : (queue retentionDays).Run .empty (calls (es ++ [e])) db)
    (hrows : ∀ t ∈ db.tasks, (∃ u ∈ s.db.tasks, SameTask u t) ∨
      Asked (es ++ [e]) t.hostId t.delivery)
    (hresults : ∀ r ∈ db.results, r ∈ s.db.results ∨ r.result = timedOutMessage ∨
      Reported es r.hostId r.taskId r.result) :
    Sound retentionDays (es ++ [e]) { s with db := db } := by
  have hids : ranIds (es ++ [e]) = ranIds es := by rw [ranIds_snoc, hran, List.append_nil]
  refine ⟨hsim, fun t ht => ?_, fun hostId => (h.waits hostId).snoc hran, hids ▸ h.once,
    fun i hi => ?_, fun hostId d results hmem => ?_, fun r hr => (h.sent r hr).snoc e,
    fun r hr => ?_⟩
  · rcases hrows t ht with ⟨u, hu, hhost, hdelivery⟩ | hasked
    · exact hhost ▸ hdelivery ▸ (h.rows u hu).snoc e
    · exact hasked
  · rw [deliveredIds_calls_snoc]
    exact List.mem_append_left _ (h.delivered i (hids ▸ hi))
  · rcases List.mem_append.mp hmem with hmem | hmem
    · exact (h.owned hostId d results hmem).snoc e
    · exact absurd (List.mem_singleton.mp hmem).symm (hnot hostId d results)
  · rcases hresults r hr with hr | hr | hr
    · exact (h.results r hr).imp_right fun hr => hr.snoc e
    · exact Or.inl hr
    · exact Or.inr (hr.snoc e)

/-- Nothing has happened to the database. -/
theorem Sound.idle (h : Sound retentionDays es s) (hcalls : calls [e] = [])
    (hran : ranIds [e] = []) (hnot : ∀ hostId d results, e ≠ .ran hostId d results) :
    Sound retentionDays (es ++ [e]) s := by
  have hsim : (queue retentionDays).Run .empty (calls (es ++ [e])) s.db := by
    rw [calls_snoc, hcalls, List.append_nil]
    exact h.sim
  exact h.snoc hran hnot hsim (fun t ht => Or.inl ⟨t, ht, sameTask_refl t⟩)
    fun r hr => Or.inl hr

theorem Sound.exec {call : Call} (h : Sound retentionDays es s) (hown : OwnHost s.db call)
    (hcalls : calls [e] = [(call, (exec retentionDays s.db call).2)]) (hran : ranIds [e] = [])
    (hnot : ∀ hostId d results, e ≠ .ran hostId d results)
    (hqueue : ∀ now hostId command kind runAs i,
      call = .queueTask now hostId command kind runAs →
        (TaskQueue.exec retentionDays s.db call).2 = .queued i →
          e = .operator call (.queued i))
    (hsubmit : ∀ i hostId result now, call = .submitTaskResult i hostId result now →
      Reported es hostId i result) :
    Sound retentionDays (es ++ [e])
      { s with db := (TaskQueue.exec retentionDays s.db call).1 } := by
  refine h.snoc hran hnot ?_ (fun t ht => ?_) fun r hr => ?_
  · rw [calls_snoc, hcalls]
    exact h.sim.snoc ⟨hown, rfl⟩
  · rcases exec_tasks ht with hold | ⟨now, hcall, hreply⟩
    · exact Or.inl hold
    · have he := hqueue now _ _ _ _ _ hcall hreply
      rw [hcall] at he
      exact Or.inr ⟨now, List.mem_append_right _ (List.mem_singleton.mpr he.symm)⟩
  · rcases exec_results hr with hr | hr | ⟨now, hcall⟩
    · exact Or.inl hr
    · exact Or.inr (Or.inl hr)
    · exact Or.inr (Or.inr (hsubmit _ _ _ now hcall))

theorem Sound.operator {call : Call} (h : Sound retentionDays es s) (hcall : Operators call) :
    Sound retentionDays (es ++ [.operator call (TaskQueue.exec retentionDays s.db call).2])
      { s with db := (TaskQueue.exec retentionDays s.db call).1 } := by
  have hown : OwnHost s.db call := by cases call <;> first | exact trivial | exact hcall.elim
  refine h.exec hown rfl rfl (fun _ _ _ hran => by cases hran)
    (fun _ _ _ _ _ i _ hreply => by rw [hreply]) fun i hostId result now heq => ?_
  subst heq
  exact hcall.elim

theorem mem_fetched {db : Database} {hostId : String} {now : ℚ} {d : Delivery}
    (h : d ∈ (fetchPendingTasks db hostId now).2) :
    ∃ t ∈ db.tasks, t.hostId = hostId ∧ t.delivery = d := by
  obtain ⟨t, ht, rfl⟩ := List.mem_map.mp (List.mem_mergeSort.mp h)
  obtain ⟨ht, hclaim⟩ := List.mem_filter.mp ht
  exact ⟨t, ht, (claimable_iff.mp hclaim).1, rfl⟩

theorem Sound.fetch (h : Sound retentionDays es s) (hostId : String) (now : ℚ) (arrives : Bool) :
    Sound retentionDays
      (es ++ [.fetched hostId now (fetchPendingTasks s.db hostId now).2 arrives])
      ⟨(fetchPendingTasks s.db hostId now).1, if arrives then
        Function.update s.waiting hostId (fetchPendingTasks s.db hostId now).2 else s.waiting,
        s.sent⟩ := by
  have hown : OwnHost s.db (.fetchPendingTasks hostId now) := trivial
  have hbase : Sound retentionDays
      (es ++ [.fetched hostId now (fetchPendingTasks s.db hostId now).2 arrives])
      { s with db := (fetchPendingTasks s.db hostId now).1 } :=
    h.exec hown rfl rfl (fun _ _ _ hran => by cases hran) (fun _ _ _ _ _ _ heq => by cases heq)
      (fun _ _ _ _ heq => by cases heq)
  cases arrives with
  | false => exact hbase
  | true =>
    refine hbase.hold ⟨fun d hd => ?_, fun d hd => ?_, fun d hd hran => ?_,
      fetch_ids_nodup (run_invariant h.sim) hostId now⟩
    · obtain ⟨t, ht, rfl, rfl⟩ := mem_fetched hd
      exact (h.rows t ht).snoc _
    · rw [deliveredIds_calls_snoc]
      exact List.mem_append_right _ (by simpa [deliveredIds, calls] using ⟨d, hd, rfl⟩)
    · have hnodup := (run_handed_out hbase.sim).once
      rw [deliveredIds_calls_snoc] at hnodup
      rw [ranIds_snoc] at hran
      have hold := h.delivered d.id (by simpa [ranIds] using hran)
      exact List.disjoint_of_nodup_append hnodup hold
        (by simpa [deliveredIds, calls] using ⟨d, hd, rfl⟩)

theorem Sound.ran (h : Sound retentionDays es s) {hostId : String} {task : Delivery}
    {rest : List Delivery} (results : List String) (hnext : s.waiting hostId = task :: rest) :
    Sound retentionDays (es ++ [.ran hostId task results])
      ⟨s.db, Function.update s.waiting hostId rest,
        s.sent ++ results.map fun result => ⟨task.id, hostId, result⟩⟩ := by
  have hwaits := h.waits hostId
  rw [hnext] at hwaits
  have hasked := hwaits.asked task List.mem_cons_self
  have hcalls : calls (es ++ [.ran hostId task results]) = calls es := by
    rw [calls_snoc]
    exact List.append_nil _
  have hids : ranIds (es ++ [.ran hostId task results]) = ranIds es ++ [task.id] :=
    ranIds_snoc es _
  have hkeep : ∀ host ds, Waits es host ds → (∀ d ∈ ds, d.id ≠ task.id) →
      Waits (es ++ [.ran hostId task results]) host ds := by
    intro host ds hds hne
    refine ⟨fun d hd => (hds.asked d hd).snoc _, fun d hd => hcalls ▸ hds.fetched d hd,
      fun d hd hran => ?_, hds.apart⟩
    rw [hids] at hran
    rcases List.mem_append.mp hran with hran | hran
    · exact hds.fresh d hd hran
    · exact hne d hd (List.mem_singleton.mp hran)
  refine ⟨hcalls ▸ h.sim, fun t ht => (h.rows t ht).snoc _, fun host => ?_, ?_, fun i hi => ?_,
    fun host d rs hmem => ?_, fun r hr => ?_, fun r hr => ?_⟩
  · by_cases hhost : host = hostId
    · subst hhost
      obtain ⟨hfirst, hapart⟩ := List.nodup_cons.mp hwaits.apart
      simp only [Function.update_self]
      refine hkeep host rest ⟨fun d hd => hwaits.asked d (List.mem_cons_of_mem task hd),
        fun d hd => hwaits.fetched d (List.mem_cons_of_mem task hd),
        fun d hd => hwaits.fresh d (List.mem_cons_of_mem task hd), hapart⟩ fun d hd heq => ?_
      exact hfirst (heq ▸ List.mem_map_of_mem hd)
    · simp only [Function.update_of_ne hhost]
      refine hkeep host _ (h.waits host) fun d hd heq => hhost ?_
      exact (((h.waits host).asked d hd).unique (queued_once h.sim) hasked heq).1
  · rw [hids]
    refine List.nodup_append.mpr ⟨h.once, List.nodup_singleton _, ?_⟩
    rintro i hi j hj rfl
    rw [List.mem_singleton.mp hj] at hi
    exact hwaits.fresh task List.mem_cons_self hi
  · rw [hids] at hi
    rw [hcalls]
    rcases List.mem_append.mp hi with hi | hi
    · exact h.delivered i hi
    · exact List.mem_singleton.mp hi ▸ hwaits.fetched task List.mem_cons_self
  · rcases List.mem_append.mp hmem with hmem | hmem
    · exact (h.owned host d rs hmem).snoc _
    · obtain ⟨rfl, rfl, -⟩ := Event.ran.inj (List.mem_singleton.mp hmem)
      exact hasked.snoc _
  · rcases List.mem_append.mp hr with hr | hr
    · exact (h.sent r hr).snoc _
    · obtain ⟨result, hresult, rfl⟩ := List.mem_map.mp hr
      exact ⟨task, results, by simp, rfl, hresult⟩
  · exact (h.results r hr).imp_right fun hr => hr.snoc _

/-- A report is about a row of the host that sent it, or the row is gone. -/
theorem Sound.own (h : Sound retentionDays es s) {r : Report} (hr : r ∈ s.sent) {t : AgentTask}
    (ht : t ∈ s.db.tasks) (hid : t.id = r.taskId) : t.hostId = r.hostId := by
  obtain ⟨d, rs, hran, hd, -⟩ := h.sent r hr
  exact ((h.rows t ht).unique (queued_once h.sim) (h.owned r.hostId d rs hran)
    (hid.trans hd.symm)).1

theorem Sound.arrived (h : Sound retentionDays es s) {r : Report} (now : ℚ) (hr : r ∈ s.sent) :
    Sound retentionDays (es ++ [.arrived r now ((postTaskResult s.db r now).map Prod.snd)])
      { s with db := ((postTaskResult s.db r now).map Prod.fst).getD s.db } := by
  unfold postTaskResult
  split_ifs with hhost
  · have hown : OwnHost s.db (.submitTaskResult r.taskId r.hostId r.result now) :=
      fun t ht hid => h.own hr ht hid
    exact h.exec hown rfl rfl (fun _ _ _ hran => by cases hran)
      (fun _ _ _ _ _ _ heq => by cases heq) fun i hostId result at' heq => by
        obtain ⟨rfl, rfl, rfl, -⟩ := Call.submitTaskResult.inj heq
        exact h.sent r hr
  · exact h.idle rfl rfl fun _ _ _ hran => by cases hran

theorem sound_run (h : (machine retentionDays).Run (machine retentionDays).start es s) :
    Sound retentionDays es s := by
  refine h.history (P := Sound retentionDays) ?_ fun es s e s' _ st hs => ?_
  · refine ⟨.nil _, ?_, fun hostId => waits_nil [] hostId, List.nodup_nil, ?_, ?_, ?_, ?_⟩
    all_goals simp [machine, Database.empty, ranIds]
  · cases st with
    | operator call hcall => exact hs.operator hcall
    | fetched hostId now arrives _ => exact hs.fetch hostId now arrives
    | ran hostId task rest results hnext => exact hs.ran results hnext
    | arrived r now hsent => exact hs.arrived now hsent
    | restarted hostId =>
      exact (hs.idle (e := .restarted hostId) rfl rfl fun _ _ _ hran => by cases hran).hold
        (waits_nil _ hostId)

/-- However answers are lost and reports delayed or doubled, no task is run twice, and what a host
runs is what an operator had asked for, for that host. -/
theorem runs_once (h : (machine retentionDays).Run (machine retentionDays).start es s) :
    (ranIds es).Nodup ∧
    AtEach (fun past e => ∀ hostId d results, e = .ran hostId d results →
      Asked past hostId d) es := by
  refine ⟨(sound_run h).once, ?_⟩
  refine h.history (P := fun es _ => AtEach _ es) (fun _ _ _ hx => by simp at hx) ?_
  intro es s e s' run st ih
  refine atEach_snoc.mpr ⟨ih, ?_⟩
  rintro hostId d results rfl
  cases st with
  | ran _ _ rest _ hnext =>
    exact ((sound_run run).waits hostId).asked d (by rw [hnext]; exact List.mem_cons_self)

/-- A stored result is a report that the host sent after running the task, or says that the task
timed out; and a report is turned away only when the task's row is gone. -/
theorem results_reported (h : (machine retentionDays).Run (machine retentionDays).start es s) :
    (∀ r ∈ s.db.results, r.result = timedOutMessage ∨
      Reported es r.hostId r.taskId r.result) ∧
    ∀ r ∈ s.sent, ∀ now, postTaskResult s.db r now = none →
      ∀ t ∈ s.db.tasks, t.id ≠ r.taskId := by
  have hs := sound_run h
  refine ⟨hs.results, fun r hr now hnone t ht hid => ?_⟩
  unfold postTaskResult at hnone
  split_ifs at hnone with hhost
  unfold getTaskHost at hhost
  cases hfind : s.db.tasks.find? fun t => t.id = r.taskId with
  | none => exact absurd hid (by simpa using List.find?_eq_none.mp hfind t ht)
  | some u =>
    have hu := List.mem_of_find?_eq_some hfind
    have huid : u.id = r.taskId := by simpa using List.find?_some hfind
    exact hhost (by rw [hfind, Option.map_some, hs.own hr hu huid])

/-! ### A lost answer and a doubled report -/

theorem step_operator {call : Call} {reply : Reply} (hcall : Operators call)
    (h : (exec retentionDays s.db call).2 = reply) :
    (machine retentionDays).step s (.operator call reply)
      { s with db := (exec retentionDays s.db call).1 } := by
  subst h
  exact .operator s call hcall

theorem step_fetched_one {t : AgentTask} {hostId : String} {now : ℚ} {arrives : Bool}
    (hidle : s.waiting hostId = []) (h : s.db.tasks.filter (claimable hostId) = [t]) :
    (machine retentionDays).step s (.fetched hostId now [t.delivery] arrives)
      ⟨(fetchPendingTasks s.db hostId now).1, if arrives then
        Function.update s.waiting hostId [t.delivery] else s.waiting, s.sent⟩ := by
  have hrows : (fetchPendingTasks s.db hostId now).2 = [t.delivery] := by
    simp [fetchPendingTasks, h]
  have hstep : (machine retentionDays).step s _ _ := .fetched s hostId now arrives hidle
  rwa [hrows] at hstep

theorem step_arrived {r : Report} {now : ℚ} {db : Database} {ok : Bool} (hsent : r ∈ s.sent)
    (h : postTaskResult s.db r now = some (db, ok)) :
    (machine retentionDays).step s (.arrived r now (some ok)) { s with db := db } := by
  have hstep : (machine retentionDays).step s _ _ := .arrived s r now hsent
  rwa [h] at hstep

def asking (i : ℕ) (command : String) : Event :=
  .operator (.queueTask i "web" command "command" none) (.queued i)

def delivery (i : ℕ) (command : String) : Delivery := ⟨i, command, "command", none⟩

def report : Report := ⟨2, "web", "up"⟩

/-- The answer with the first task is lost. The second task is run, its report comes twice, and the
first task times out. -/
def sampleEvents : List Event :=
  [asking 1 "reboot", .fetched "web" 3 [delivery 1 "reboot"] false, asking 2 "uptime",
    .fetched "web" 4 [delivery 2 "uptime"] true, .ran "web" (delivery 2 "uptime") ["up"],
    .arrived report 5 (some true), .arrived report 6 (some false),
    .operator (.reclaimStaleTasks 900 2000 2000) (.reclaimed 1)]

def row (i : ℕ) (command : String) (status : Status) (dispatched : Option ℚ) : AgentTask :=
  ⟨i, "web", command, "command", status, some i, dispatched, none⟩

def reboot : AgentTask := row 1 "reboot" .dispatched (some 3)

def uptime (status : Status) : AgentTask := row 2 "uptime" status (some 4)

def reportedDatabase : Database := ⟨[reboot, uptime .done], [⟨1, 2, "web", "up", 5⟩], 2, 1⟩

def reclaiming : Call := .reclaimStaleTasks 900 2000 2000

def idle (tasks : List AgentTask) (seq : ℕ) : System := ⟨⟨tasks, [], seq, 0⟩, fun _ => [], []⟩

/-- The agent has fetched the second task, then run it. -/
def running : System :=
  ⟨⟨[reboot, uptime .dispatched], [], 2, 0⟩,
    Function.update (fun _ => []) "web" [delivery 2 "uptime"], []⟩

def sampleSystem : System :=
  ⟨(exec 30 reportedDatabase reclaiming).1, Function.update running.waiting "web" [], [report]⟩

theorem sampleRun : (machine 30).Run (machine 30).start sampleEvents sampleSystem := by
  have h1 : (machine 30).step (idle [] 0) (asking 1 "reboot")
      (idle [row 1 "reboot" .pending none] 1) := step_operator trivial rfl
  have h2 : (machine 30).step (idle [row 1 "reboot" .pending none] 1)
      (.fetched "web" 3 [delivery 1 "reboot"] false) (idle [reboot] 1) :=
    step_fetched_one (t := row 1 "reboot" .pending none) rfl rfl
  have h3 : (machine 30).step (idle [reboot] 1) (asking 2 "uptime")
      (idle [reboot, row 2 "uptime" .pending none] 2) := step_operator trivial rfl
  have h4 : (machine 30).step (idle [reboot, row 2 "uptime" .pending none] 2)
      (.fetched "web" 4 [delivery 2 "uptime"] true) running :=
    step_fetched_one (t := row 2 "uptime" .pending none) rfl rfl
  have h5 : (machine 30).step running (.ran "web" (delivery 2 "uptime") ["up"])
      ⟨running.db, Function.update running.waiting "web" [], [report]⟩ :=
    .ran running "web" (delivery 2 "uptime") [] ["up"] rfl
  have h6 : (machine 30).step ⟨running.db, Function.update running.waiting "web" [], [report]⟩
      (.arrived report 5 (some true))
      ⟨reportedDatabase, Function.update running.waiting "web" [], [report]⟩ :=
    step_arrived (List.mem_singleton_self report) rfl
  have h7 : (machine 30).step
      ⟨reportedDatabase, Function.update running.waiting "web" [], [report]⟩
      (.arrived report 6 (some false))
      ⟨reportedDatabase, Function.update running.waiting "web" [], [report]⟩ :=
    step_arrived (List.mem_singleton_self report) rfl
  have h8 : (machine 30).step
      ⟨reportedDatabase, Function.update running.waiting "web" [], [report]⟩
      (.operator reclaiming (.reclaimed 1)) sampleSystem :=
    step_operator trivial (by decide +kernel)
  exact .cons h1 (.cons h2 (.cons h3 (.cons h4 (.cons h5 (.cons h6 (.cons h7 (.single h8)))))))

theorem runs_once_sample :
    (ranIds sampleEvents).Nodup ∧
    AtEach (fun past e => ∀ hostId d results, e = .ran hostId d results →
      Asked past hostId d) sampleEvents :=
  runs_once sampleRun

theorem results_reported_sample :
    sampleSystem.db.results.map AgentResult.result = ["up", timedOutMessage] ∧
    (∀ r ∈ sampleSystem.db.results, r.result = timedOutMessage ∨
      Reported sampleEvents r.hostId r.taskId r.result) ∧
    ∀ r ∈ sampleSystem.sent, ∀ now, postTaskResult sampleSystem.db r now = none →
      ∀ t ∈ sampleSystem.db.tasks, t.id ≠ r.taskId :=
  ⟨by decide +kernel, results_reported sampleRun⟩

end TaskProtocol
