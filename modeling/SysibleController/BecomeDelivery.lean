import SysibleController.KeyedTable
import SysibleController.Interleaving
import SysibleController.TaskQueue
import Mathlib.Data.List.Flatten
import Mathlib.Data.Rat.Defs
import Mathlib.Tactic.Linarith

/-! Become passwords. A dispatch inserts its task and then keeps the password in memory under
the task's id; a poll claims the pending tasks of its host and then takes the password of each
from memory. The tables in memory have locks of their own, so another request may run between
any two of these steps. A queue call enters once its admin token is resolved, a poll once its
agent is verified and not quarantined. `clock` is a history variable, the last reading of the
clock; the activity feed is left out. -/
namespace BecomeDelivery

open KeyedTable TransitionSystem Interleaving
open TaskQueue (Database Delivery AgentTask queueTask fetchPendingTasks)

structure Pending where
  taskId : ℕ
  password : String
  expiry : ℚ
  deriving DecidableEq

structure RootPromise where
  taskId : ℕ
  expiry : ℚ
  deriving DecidableEq

structure Store where
  queue : Database
  become : Table Pending.taskId
  wantRoot : Table RootPromise.taskId
  clock : ℚ

def becomeTtl : ℚ := 300

def sweepBecome (s : Store) (now : ℚ) : Store :=
  { s with become := s.become.deleteWhere fun r => r.expiry < now }

def storeBecome (s : Store) (taskId : ℕ) (password : String) (now : ℚ) : Store :=
  { s with become := s.become.put ⟨taskId, password, now + becomeTtl⟩ }

def takeBecome (s : Store) (taskId : ℕ) : Store × Option Pending :=
  ({ s with become := s.become.deleteWhere fun r => r.taskId = taskId }, s.become.find taskId)

def sweepWantRoot (s : Store) (now : ℚ) : Store :=
  { s with wantRoot := s.wantRoot.deleteWhere fun r => r.expiry < now }

def storeWantRoot (s : Store) (taskId : ℕ) (now : ℚ) : Store :=
  { s with wantRoot := s.wantRoot.put ⟨taskId, now + becomeTtl⟩ }

def takeWantRoot (s : Store) (taskId : ℕ) : Store × Bool :=
  ({ s with wantRoot := s.wantRoot.deleteWhere fun r => r.taskId = taskId },
    (s.wantRoot.find taskId).isSome)

/-- `runAs` is the administrator of the token, if the request has one. -/
structure Dispatch where
  hostId : String
  command : String
  kind : String
  becomePassword : Option String
  wantRoot : Bool
  runAs : Option String
  deriving DecidableEq

def Dispatch.identified (d : Dispatch) : Bool := d.runAs.getD "" ≠ ""

/-- A dispatch without an administrator runs as root and has no password to give. -/
def Dispatch.supplied (d : Dispatch) : Option String :=
  if d.identified then d.becomePassword.filter fun p => p ≠ "" else none

structure Handed where
  task : Delivery
  becomePassword : Option String
  wantRoot : Bool
  deriving DecidableEq

inductive DeliveryEvent where
  | silent
  | inserted (taskId : ℕ) (d : Dispatch)
  | fetched (hostId : String) (taskIds : List ℕ)
  | took (task : Delivery) (row : Option Pending)
  | delivered (hostId : String) (tasks : List Handed)
  deriving DecidableEq

inductive QueuePhase where
  | inserting
  | sweeping (taskId : ℕ)
  | storing (taskId : ℕ)
  | sweepingRoot (taskId : ℕ)
  | storingRoot (taskId : ℕ)
  deriving DecidableEq

def afterBecome (d : Dispatch) (taskId : ℕ) : Option QueuePhase :=
  if d.identified && d.wantRoot then some (.sweepingRoot taskId) else none

def queueAgentTask (s : Store) (now : ℚ) (d : Dispatch) :
    QueuePhase → Store × DeliveryEvent × Option QueuePhase
  | .inserting =>
    let queued := queueTask s.queue now d.hostId d.command d.kind d.runAs
    ({ s with queue := queued.1 }, .inserted queued.2 d,
      if d.supplied.isSome then some (.sweeping queued.2) else afterBecome d queued.2)
  | .sweeping taskId => (sweepBecome s now, .silent, some (.storing taskId))
  | .storing taskId =>
    (storeBecome s taskId (d.supplied.getD "") now, .silent, afterBecome d taskId)
  | .sweepingRoot taskId => (sweepWantRoot s now, .silent, some (.storingRoot taskId))
  | .storingRoot taskId => (storeWantRoot s taskId now, .silent, none)

/-- `handed` are the tasks the loop is through with, `rest` those it has yet to look at. -/
inductive PollPhase where
  | fetching
  | taking (handed : List Handed) (rest : List Delivery)
  | promising (handed : List Handed) (task : Delivery) (password : Option String)
      (rest : List Delivery)
  deriving DecidableEq

def pollAgentTasks (s : Store) (now : ℚ) (hostId : String) :
    PollPhase → Store × DeliveryEvent × Option PollPhase
  | .fetching =>
    let fetched := fetchPendingTasks s.queue hostId now
    ({ s with queue := fetched.1 }, .fetched hostId (fetched.2.map Delivery.id),
      some (.taking [] fetched.2))
  | .taking handed [] => (s, .delivered hostId handed, none)
  | .taking handed (task :: rest) =>
    ((takeBecome s task.id).1, .took task (takeBecome s task.id).2,
      some (.promising handed task ((takeBecome s task.id).2.map Pending.password) rest))
  | .promising handed task password rest =>
    ((takeWantRoot s task.id).1, .silent,
      some (.taking (handed ++ [⟨task, password, (takeWantRoot s task.id).2⟩]) rest))

inductive DeliveryThread where
  | queue (d : Dispatch) (phase : QueuePhase)
  | poll (hostId : String) (phase : PollPhase)
  deriving DecidableEq

def deliveryStep (now : ℚ) (s : Store) :
    DeliveryThread → Store × (ℚ × DeliveryEvent) × Option DeliveryThread
  | .queue d phase =>
    let next := queueAgentTask s now d phase
    ({ next.1 with clock := now }, (now, next.2.1), next.2.2.map (.queue d))
  | .poll hostId phase =>
    let next := pollAgentTasks s now hostId phase
    ({ next.1 with clock := now }, (now, next.2.1), next.2.2.map (.poll hostId))

def Entry : DeliveryThread → Prop
  | .queue _ phase => phase = .inserting
  | .poll _ phase => phase = .fetching

def delivery : Program Store DeliveryThread (ℚ × DeliveryEvent) :=
  ⟨Entry, fun s th e s' th' => ∃ now, deliveryStep now s th = (s', e, th')⟩

abbrev DeliveryPool := Pool Store DeliveryThread
abbrev DeliveryAct := Interleaving.Event DeliveryThread (ℚ × DeliveryEvent)

/-- What the actions of a run have shown, each with its time. -/
def trace (log : List DeliveryAct) : List (ℚ × DeliveryEvent) :=
  log.filterMap fun
    | .act _ e => some e
    | .call _ => none

/-- The task whose password a call has yet to store. -/
def DeliveryThread.owes : DeliveryThread → List ℕ
  | .queue _ (.sweeping taskId) | .queue _ (.storing taskId) => [taskId]
  | _ => []

/-- The tasks a poll has claimed and not yet looked for a password of. -/
def DeliveryThread.todo : DeliveryThread → List ℕ
  | .poll _ (.taking _ rest) | .poll _ (.promising _ _ _ rest) => rest.map Delivery.id
  | _ => []

/-- The clock does not go back; a poll takes the password of a task when no call has yet to
store it and when a sweep would not drop it; and a sweep drops no password of a task that a
poll has claimed. -/
def DeliveryCondition (p : DeliveryPool) : DeliveryAct → Prop
  | .call _ => True
  | .act th (now, _) => p.shared.clock ≤ now ∧
    match th with
    | .poll _ (.taking _ (task :: _)) => (∀ x ∈ p.threads, task.id ∉ x.owes) ∧
      ∀ row, p.shared.become.find task.id = some row → ¬ row.expiry < now
    | .queue _ (.sweeping _) => ∀ taskId row, p.shared.become.find taskId = some row →
      row.expiry < now → ∀ x ∈ p.threads, taskId ∉ x.todo
    | _ => True

def passwordOf : DeliveryEvent → List ℕ
  | .took _ (some row) => [row.taskId]
  | _ => []

/-- The contract, about what a run has shown. -/
structure Kept (tr : List (ℚ × DeliveryEvent)) : Prop where
  carries : ∀ queuedAt taskId d password fetchedAt hostId taskIds,
    (queuedAt, .inserted taskId d) ∈ tr → d.supplied = some password →
    (fetchedAt, .fetched hostId taskIds) ∈ tr → taskId ∈ taskIds →
    fetchedAt ≤ queuedAt + becomeTtl →
    ∀ now hostId tasks h, (now, .delivered hostId tasks) ∈ tr → h ∈ tasks → h.task.id = taskId →
      h.becomePassword = some password
  fresh : ∀ now task row, (now, .took task (some row)) ∈ tr → now ≤ row.expiry
  once : (tr.flatMap fun e => passwordOf e.2).Nodup
  own : ∀ now task row, (now, .took task (some row)) ∈ tr → row.taskId = task.id ∧
    ∃ queuedAt d, (queuedAt, .inserted task.id d) ∈ tr ∧ d.supplied = some row.password
  response : ∀ now hostId tasks h, (now, .delivered hostId tasks) ∈ tr → h ∈ tasks →
    ∃ at' row, (at', .took h.task row) ∈ tr ∧ h.becomePassword = row.map Pending.password

/-- Every run from `db` whose steps meet `C` keeps the contract. -/
def DeliveryLaw (db : Database) (clock : ℚ) (C : DeliveryPool → DeliveryAct → Prop) : Prop :=
  ∀ log p, ((delivery.machine ⟨db, .empty, .empty, clock⟩).restrict C).Run
      (delivery.machine ⟨db, .empty, .empty, clock⟩).start log p →
    Kept (trace log)

/-! ## Each task is looked at once -/

def fetchedIds : DeliveryEvent → List ℕ
  | .fetched _ taskIds => taskIds
  | _ => []

def tookIds : DeliveryEvent → List ℕ
  | .took task _ => [task.id]
  | _ => []

def insertedIds : DeliveryEvent → List ℕ
  | .inserted taskId _ => [taskId]
  | _ => []

def pendingIds (db : Database) : List ℕ :=
  (db.tasks.filter fun t => t.status = .pending).map AgentTask.id

variable {now : ℚ} {s s' : Store} {th : DeliveryThread} {th' : Option DeliveryThread}
  {e : ℚ × DeliveryEvent}

/-- A claim moves the ids it returns off the pending ones. -/
theorem fetch_pendingIds (db : Database) (hostId : String) (now : ℚ) :
    (pendingIds db).Perm (pendingIds (fetchPendingTasks db hostId now).1 ++
      (fetchPendingTasks db hostId now).2.map Delivery.id) := by
  have hrest : pendingIds (fetchPendingTasks db hostId now).1 =
      ((db.tasks.filter fun t => t.status = .pending).filter fun t =>
        !TaskQueue.claimable hostId t).map AgentTask.id := by
    simp only [pendingIds, fetchPendingTasks, List.filter_map, List.map_map, List.filter_filter]
    have hid : AgentTask.id ∘ TaskQueue.claim hostId now = AgentTask.id := by
      funext t
      exact TaskQueue.claim_id hostId now t
    rw [hid]
    congr 1
    apply List.filter_congr
    intro t _
    simp only [Function.comp_apply, TaskQueue.claim]
    split <;> simp_all
  have hclaimed : db.tasks.filter (TaskQueue.claimable hostId) =
      (db.tasks.filter fun t => t.status = .pending).filter (TaskQueue.claimable hostId) := by
    rw [List.filter_filter]
    apply List.filter_congr
    intro t _
    by_cases hc : TaskQueue.claimable hostId t = true
    · simp [hc, (TaskQueue.claimable_iff.mp hc).2]
    · simp [hc]
  rw [hrest]
  refine List.Perm.trans ?_ (List.Perm.append_left _ (TaskQueue.fetch_ids_perm db hostId now).symm)
  rw [hclaimed, ← List.map_append, pendingIds]
  apply List.Perm.map
  exact (List.perm_append_comm.trans (List.filter_append_perm _ _)).symm

theorem queue_pendingIds (db : Database) (now : ℚ) (hostId command kind : String)
    (runAs : Option String) : pendingIds (queueTask db now hostId command kind runAs).1 =
      pendingIds db ++ [db.taskSeq + 1] := by
  simp [pendingIds, queueTask, List.filter_append]

/-- What a step does to the pending ids and to the sequence of ids. -/
theorem step_pending (h : deliveryStep now s th = (s', e, th')) :
    (pendingIds s.queue ++ insertedIds e.2).Perm (pendingIds s'.queue ++ fetchedIds e.2) ∧
      s.queue.taskSeq ≤ s'.queue.taskSeq ∧
      ∀ taskId ∈ insertedIds e.2, taskId = s.queue.taskSeq + 1 ∧ s'.queue.taskSeq = taskId := by
  cases th with
  | queue d phase =>
    simp only [deliveryStep, Prod.mk.injEq] at h
    obtain ⟨rfl, rfl, -⟩ := h
    cases phase with
    | inserting =>
      refine ⟨?_, ?_, ?_⟩
      · simp only [queueAgentTask, fetchedIds, List.append_nil, queue_pendingIds]
        exact .refl _
      · simp [queueAgentTask, queueTask]
      · simp [queueAgentTask, queueTask, insertedIds]
    | _ => exact ⟨by simp [queueAgentTask, insertedIds, fetchedIds, sweepBecome, storeBecome,
        sweepWantRoot, storeWantRoot], le_rfl, by simp [queueAgentTask, insertedIds]⟩
  | poll hostId phase =>
    simp only [deliveryStep, Prod.mk.injEq] at h
    obtain ⟨rfl, rfl, -⟩ := h
    cases phase with
    | fetching =>
      refine ⟨?_, le_rfl, by simp [pollAgentTasks, insertedIds]⟩
      simpa [pollAgentTasks, insertedIds, fetchedIds] using fetch_pendingIds s.queue hostId now
    | taking handed rest =>
      cases rest <;> exact ⟨by simp [pollAgentTasks, insertedIds, fetchedIds, takeBecome], le_rfl,
        by simp [pollAgentTasks, insertedIds]⟩
    | promising handed task password rest =>
      exact ⟨by simp [pollAgentTasks, insertedIds, fetchedIds, takeWantRoot], le_rfl,
        by simp [pollAgentTasks, insertedIds]⟩

/-- A poll owes a look at what it claims, until it has taken it. -/
theorem step_todo (h : deliveryStep now s th = (s', e, th')) :
    (th.todo ++ fetchedIds e.2).Perm (th'.toList.flatMap DeliveryThread.todo ++ tookIds e.2) := by
  cases th with
  | queue d phase =>
    simp only [deliveryStep, Prod.mk.injEq] at h
    obtain ⟨-, rfl, rfl⟩ := h
    have htodo : ∀ next : Option QueuePhase,
        (next.map (DeliveryThread.queue d)).toList.flatMap DeliveryThread.todo = [] := by
      rintro (_ | phase') <;> rfl
    rw [htodo]
    cases phase <;> exact .refl _
  | poll hostId phase =>
    simp only [deliveryStep, Prod.mk.injEq] at h
    obtain ⟨-, rfl, rfl⟩ := h
    cases phase with
    | fetching => simp [pollAgentTasks, DeliveryThread.todo, fetchedIds, tookIds]
    | taking handed rest =>
      cases rest with
      | nil => simp [pollAgentTasks, DeliveryThread.todo, fetchedIds, tookIds]
      | cons task rest =>
        simp only [pollAgentTasks, DeliveryThread.todo, fetchedIds, tookIds, Option.map_some,
          Option.toList_some, List.flatMap_cons, List.flatMap_nil, List.append_nil, List.map_cons]
        exact (List.perm_append_singleton _ _).symm
    | promising handed task password rest =>
      simp [pollAgentTasks, DeliveryThread.todo, fetchedIds, tookIds]

@[simp] theorem trace_call (log : List DeliveryAct) (th : DeliveryThread) :
    trace (log ++ [.call th]) = trace log := by simp [trace]

@[simp] theorem trace_act (log : List DeliveryAct) (th : DeliveryThread)
    (e : ℚ × DeliveryEvent) : trace (log ++ [.act th e]) = trace log ++ [e] := by simp [trace]

/-- Ids are claimed once, and every claimed task is still to be looked at or has been. -/
structure Once (tr : List (ℚ × DeliveryEvent)) (p : DeliveryPool) : Prop where
  nodup : (pendingIds p.shared.queue ++ tr.flatMap fun e => fetchedIds e.2).Nodup
  seq : ∀ taskId ∈ pendingIds p.shared.queue ++ tr.flatMap fun e => fetchedIds e.2,
    taskId ≤ p.shared.queue.taskSeq
  perm : (tr.flatMap fun e => fetchedIds e.2).Perm
    (p.threads.flatMap DeliveryThread.todo ++ tr.flatMap fun e => tookIds e.2)

theorem step_once {log : List DeliveryAct} {p q : DeliveryPool} {e : DeliveryAct}
    (st : Steps delivery p e q) (h : Once (trace log) p) : Once (trace (log ++ [e])) q := by
  cases st with
  | @call s ts th hentry =>
    have htodo : th.todo = [] := by
      cases th with
      | queue d phase => rfl
      | poll hostId phase =>
        obtain rfl : phase = .fetching := hentry
        rfl
    rw [trace_call]
    exact ⟨h.nodup, h.seq, by simpa [htodo] using h.perm⟩
  | @act s s' pre post th th' e hact =>
    obtain ⟨now, hact⟩ := hact
    obtain ⟨hpending, hseq, hfresh⟩ := step_pending hact
    have htodo := step_todo hact
    have hmoved : ∀ tr : List (ℚ × DeliveryEvent),
        (pendingIds s'.queue ++ (tr ++ [e]).flatMap fun e => fetchedIds e.2).Perm
          (insertedIds e.2 ++ (pendingIds s.queue ++ tr.flatMap fun e => fetchedIds e.2)) := by
      intro tr
      rw [List.perm_iff_count]
      intro taskId
      have hcount := hpending.count_eq taskId
      simp only [List.flatMap_append, List.flatMap_cons, List.flatMap_nil, List.append_nil,
        List.count_append] at hcount ⊢
      omega
    rw [trace_act]
    refine ⟨?_, ?_, ?_⟩
    · rw [(hmoved _).nodup_iff, List.nodup_append]
      refine ⟨?_, h.nodup, ?_⟩
      · cases e.2 <;> simp [insertedIds]
      · rintro taskId hid _ hold rfl
        obtain ⟨hnew, -⟩ := hfresh taskId hid
        have hle : taskId ≤ s.queue.taskSeq := h.seq taskId hold
        omega
    · intro taskId hid
      rw [(hmoved _).mem_iff, List.mem_append] at hid
      rcases hid with hid | hid
      · exact (hfresh taskId hid).2.ge
      · exact le_trans (h.seq taskId hid) hseq
    · rw [List.perm_iff_count]
      intro taskId
      have hall := h.perm.count_eq taskId
      have hcount := htodo.count_eq taskId
      simp only [List.flatMap_append, List.flatMap_cons, List.flatMap_nil, List.append_nil,
        List.count_append] at hall hcount ⊢
      omega

/-! ## Whose password a row holds -/

/-- What a step does to the passwords in memory and to what its call owes. -/
theorem step_cases (h : deliveryStep now s th = (s', e, th')) :
    (∃ d taskId, th = .queue d .inserting ∧ e.2 = .inserted taskId d ∧ s'.become = s.become ∧
      th.owes = [] ∧ (d.supplied.isSome → ∃ x ∈ th', taskId ∈ x.owes) ∧
      ∀ x ∈ th', ∀ i ∈ x.owes, i = taskId ∧ d.supplied.isSome ∧ ∃ phase, x = .queue d phase) ∨
    (∃ d taskId, th = .queue d (.sweeping taskId) ∧ e.2 = .silent ∧
      s'.become = (sweepBecome s now).become ∧ th' = some (.queue d (.storing taskId))) ∨
    (∃ d taskId, th = .queue d (.storing taskId) ∧ e.2 = .silent ∧
      s'.become = (storeBecome s taskId (d.supplied.getD "") now).become ∧
      ∀ x ∈ th', x.owes = []) ∨
    (∃ hostId handed task rest, th = .poll hostId (.taking handed (task :: rest)) ∧
      e.2 = .took task (s.become.find task.id) ∧ s'.become = (takeBecome s task.id).1.become ∧
      ∀ x ∈ th', x.owes = []) ∨
    (th.owes = [] ∧ insertedIds e.2 = [] ∧ tookIds e.2 = [] ∧ s'.become = s.become ∧
      ∀ x ∈ th', x.owes = []) := by
  have hafter : ∀ (d : Dispatch) taskId, ∀ x ∈ (afterBecome d taskId).map (DeliveryThread.queue d),
      x.owes = [] := by
    intro d taskId x hx
    unfold afterBecome at hx
    split at hx
    · obtain rfl : DeliveryThread.queue d (.sweepingRoot taskId) = x := by simpa using hx
      rfl
    · cases hx
  cases th with
  | queue d phase =>
    simp only [deliveryStep, Prod.mk.injEq] at h
    obtain ⟨rfl, rfl, rfl⟩ := h
    cases phase with
    | inserting =>
      refine Or.inl ⟨d, s.queue.taskSeq + 1, rfl, rfl, rfl, rfl, ?_, ?_⟩
      · intro hsupplied
        refine ⟨.queue d (.sweeping (s.queue.taskSeq + 1)), ?_, by simp [DeliveryThread.owes]⟩
        simp [queueAgentTask, hsupplied, queueTask]
      · intro x hx i hi
        by_cases hsupplied : d.supplied.isSome
        · obtain rfl : DeliveryThread.queue d (.sweeping (s.queue.taskSeq + 1)) = x := by
            simpa [queueAgentTask, hsupplied, queueTask] using hx
          exact ⟨by simpa [DeliveryThread.owes] using hi, hsupplied, _, rfl⟩
        · have hx : x ∈ (afterBecome d (s.queue.taskSeq + 1)).map (DeliveryThread.queue d) := by
            simpa [queueAgentTask, hsupplied, queueTask] using hx
          rw [hafter d _ x hx] at hi
          cases hi
    | sweeping taskId => exact Or.inr (Or.inl ⟨d, taskId, rfl, rfl, rfl, rfl⟩)
    | storing taskId =>
      exact Or.inr (Or.inr (Or.inl ⟨d, taskId, rfl, rfl, rfl, hafter d taskId⟩))
    | sweepingRoot taskId =>
      refine Or.inr (Or.inr (Or.inr (Or.inr ⟨rfl, rfl, rfl, rfl, ?_⟩)))
      rintro x ⟨⟩
      rfl
    | storingRoot taskId =>
      refine Or.inr (Or.inr (Or.inr (Or.inr ⟨rfl, rfl, rfl, rfl, ?_⟩)))
      rintro x ⟨⟩
  | poll hostId phase =>
    simp only [deliveryStep, Prod.mk.injEq] at h
    obtain ⟨rfl, rfl, rfl⟩ := h
    cases phase with
    | taking handed rest =>
      cases rest with
      | nil =>
        refine Or.inr (Or.inr (Or.inr (Or.inr ⟨rfl, rfl, rfl, rfl, ?_⟩)))
        rintro x ⟨⟩
      | cons task rest =>
        refine Or.inr (Or.inr (Or.inr (Or.inl ⟨hostId, handed, task, rest, rfl, rfl, rfl, ?_⟩)))
        rintro x ⟨⟩
        rfl
    | fetching | promising =>
      refine Or.inr (Or.inr (Or.inr (Or.inr ⟨rfl, rfl, rfl, rfl, ?_⟩)))
      rintro x ⟨⟩
      rfl

theorem step_clock (h : deliveryStep now s th = (s', e, th')) : s'.clock = now ∧ e.1 = now := by
  cases th <;>
  · simp only [deliveryStep, Prod.mk.injEq] at h
    obtain ⟨rfl, rfl, -⟩ := h
    exact ⟨rfl, rfl⟩

/-- Every dispatch has one insert; whatever is owed or stored under its id is its own. -/
structure Owned (tr : List (ℚ × DeliveryEvent)) (p : DeliveryPool) : Prop where
  inserted : ∀ queuedAt taskId d, (queuedAt, .inserted taskId d) ∈ tr →
    queuedAt ≤ p.shared.clock ∧ taskId ≤ p.shared.queue.taskSeq
  one : ∀ queuedAt queuedAt' taskId d d', (queuedAt, .inserted taskId d) ∈ tr →
    (queuedAt', .inserted taskId d') ∈ tr → queuedAt = queuedAt' ∧ d = d'
  owing : ∀ th ∈ p.threads, ∀ taskId ∈ th.owes, ∃ d phase queuedAt, th = .queue d phase ∧
    (queuedAt, .inserted taskId d) ∈ tr ∧ d.supplied.isSome
  stored : ∀ taskId row, p.shared.become.find taskId = some row → ∃ queuedAt d,
    (queuedAt, .inserted taskId d) ∈ tr ∧ d.supplied = some row.password

/-- A step that inserts nothing. -/
theorem Owned.quiet {tr : List (ℚ × DeliveryEvent)} {p q : DeliveryPool} (h : Owned tr p)
    (he : insertedIds e.2 = []) (hclock : p.shared.clock ≤ q.shared.clock)
    (hseq : p.shared.queue.taskSeq ≤ q.shared.queue.taskSeq)
    (howes : ∀ th ∈ q.threads, ∀ taskId ∈ th.owes, ∃ d phase queuedAt, th = .queue d phase ∧
      (queuedAt, .inserted taskId d) ∈ tr ∧ d.supplied.isSome)
    (hstored : ∀ taskId row, q.shared.become.find taskId = some row → ∃ queuedAt d,
      (queuedAt, .inserted taskId d) ∈ tr ∧ d.supplied = some row.password) :
    Owned (tr ++ [e]) q := by
  have hold : ∀ queuedAt taskId d,
      (queuedAt, DeliveryEvent.inserted taskId d) ∈ tr ++ [e] ↔
        (queuedAt, DeliveryEvent.inserted taskId d) ∈ tr := by
    intro queuedAt taskId d
    have hne : (queuedAt, DeliveryEvent.inserted taskId d) ≠ e := by
      rintro rfl
      cases he
    simp [hne]
  refine ⟨?_, ?_, ?_, ?_⟩
  · intro queuedAt taskId d hd
    obtain ⟨htime, hid⟩ := h.inserted _ _ _ ((hold _ _ _).mp hd)
    exact ⟨htime.trans hclock, hid.trans hseq⟩
  · intro queuedAt queuedAt' taskId d d' hd hd'
    exact h.one _ _ _ _ _ ((hold _ _ _).mp hd) ((hold _ _ _).mp hd')
  · intro th hth taskId hid
    obtain ⟨d, phase, queuedAt, hqueue, hd, hsome⟩ := howes th hth taskId hid
    exact ⟨d, phase, queuedAt, hqueue, (hold _ _ _).mpr hd, hsome⟩
  · intro taskId row hrow
    obtain ⟨queuedAt, d, hd, hpw⟩ := hstored taskId row hrow
    exact ⟨queuedAt, d, (hold _ _ _).mpr hd, hpw⟩

theorem step_owned {log : List DeliveryAct} {p q : DeliveryPool} {e : DeliveryAct}
    (st : Steps delivery p e q) (hc : DeliveryCondition p e) (h : Owned (trace log) p) :
    Owned (trace (log ++ [e])) q := by
  cases st with
  | @call s ts th hentry =>
    have howes : th.owes = [] := by
      cases th with
      | queue d phase =>
        obtain rfl : phase = .inserting := hentry
        rfl
      | poll hostId phase => rfl
    rw [trace_call]
    refine ⟨h.inserted, h.one, ?_, h.stored⟩
    intro x hx taskId hid
    rcases List.mem_cons.mp hx with rfl | hx
    · rw [howes] at hid
      cases hid
    · exact h.owing x hx taskId hid
  | @act s s' pre post th th' e hact =>
    obtain ⟨now, hact⟩ := hact
    obtain ⟨hclock, htime⟩ := step_clock hact
    have hforward : s.clock ≤ s'.clock := by
      rw [hclock, ← htime]
      exact hc.1
    obtain ⟨-, hseq, hfresh⟩ := step_pending hact
    rw [trace_act]
    -- what the other calls owe stays theirs
    have howes : (∀ x ∈ th', ∀ taskId ∈ x.owes, ∃ d phase queuedAt, x = .queue d phase ∧
          (queuedAt, .inserted taskId d) ∈ trace log ∧ d.supplied.isSome) →
        ∀ x ∈ pre ++ th'.toList ++ post, ∀ taskId ∈ x.owes, ∃ d phase queuedAt,
          x = .queue d phase ∧ (queuedAt, .inserted taskId d) ∈ trace log ∧ d.supplied.isSome := by
      intro hown x hx
      rcases mem_moved th hx with hx | hx
      · exact hown x hx
      · exact h.owing x hx
    rcases step_cases hact with ⟨d, taskId, rfl, he, hbecome, -, -, hnext⟩ |
      ⟨d, taskId, rfl, he, hbecome, rfl⟩ | ⟨d, taskId, rfl, he, hbecome, hnext⟩ |
      ⟨hostId, handed, task, rest, rfl, he, hbecome, hnext⟩ | ⟨-, he, -, hbecome, hnext⟩
    · obtain ⟨hnew, hlast⟩ := hfresh taskId (by rw [he]; simp [insertedIds])
      have hin : ∀ queuedAt i d', (queuedAt, DeliveryEvent.inserted i d') ∈ trace log ++ [e] →
          (queuedAt, DeliveryEvent.inserted i d') ∈ trace log ∧ i < taskId ∨
            queuedAt = e.1 ∧ i = taskId ∧ d' = d := by
        intro queuedAt i d' hd'
        rcases List.mem_append.mp hd' with hd' | hd'
        · have hle : i ≤ s.queue.taskSeq := (h.inserted _ _ _ hd').2
          exact Or.inl ⟨hd', by omega⟩
        · obtain rfl := List.mem_singleton.mp hd'
          obtain ⟨rfl, rfl⟩ := DeliveryEvent.inserted.inj he
          exact Or.inr ⟨rfl, rfl, rfl⟩
      have hlog : (e.1, DeliveryEvent.inserted taskId d) ∈ trace log ++ [e] := by
        rw [← he]
        simp
      refine ⟨?_, ?_, ?_, ?_⟩
      · intro queuedAt i d' hd'
        rcases hin _ _ _ hd' with ⟨hd', hlt⟩ | ⟨rfl, rfl, -⟩
        · obtain ⟨htime', -⟩ := h.inserted _ _ _ hd'
          exact ⟨htime'.trans hforward, by dsimp only; omega⟩
        · exact ⟨by dsimp only; rw [hclock, htime], hlast.ge⟩
      · intro queuedAt queuedAt' i d₁ d₂ h₁ h₂
        rcases hin _ _ _ h₁ with ⟨h₁, hlt₁⟩ | ⟨rfl, rfl, rfl⟩
        · rcases hin _ _ _ h₂ with ⟨h₂, -⟩ | ⟨-, rfl, -⟩
          · exact h.one _ _ _ _ _ h₁ h₂
          · omega
        · rcases hin _ _ _ h₂ with ⟨-, hlt₂⟩ | ⟨rfl, -, rfl⟩
          · omega
          · exact ⟨rfl, rfl⟩
      · intro x hx i hi
        rcases mem_moved _ hx with hx | hx
        · obtain ⟨rfl, hsome, phase, hqueue⟩ := hnext x hx i hi
          exact ⟨d, phase, e.1, hqueue, hlog, hsome⟩
        · obtain ⟨d', phase, queuedAt, hqueue, hd', hsome⟩ := h.owing x hx i hi
          exact ⟨d', phase, queuedAt, hqueue, by simp [hd'], hsome⟩
      · intro i row hrow
        dsimp only at hrow
        rw [hbecome] at hrow
        obtain ⟨queuedAt, d', hd', hpw⟩ := h.stored i row hrow
        exact ⟨queuedAt, d', by simp [hd'], hpw⟩
    · obtain ⟨d', phase, queuedAt, hqueue, hd, hsome⟩ :=
        h.owing (.queue d (.sweeping taskId)) (by simp) taskId (by simp [DeliveryThread.owes])
      obtain ⟨rfl, -⟩ := DeliveryThread.queue.inj hqueue
      refine h.quiet (by rw [he]; rfl) hforward hseq (howes ?_) ?_
      · rintro x ⟨⟩ i hi
        obtain rfl : i = taskId := by simpa [DeliveryThread.owes] using hi
        exact ⟨d, _, queuedAt, rfl, hd, hsome⟩
      · intro i row hrow
        dsimp only at hrow
        rw [hbecome, sweepBecome, Table.find_deleteWhere, Option.filter_eq_some_iff] at hrow
        exact h.stored i row hrow.1
    · obtain ⟨d', phase, queuedAt, hqueue, hd, hsome⟩ :=
        h.owing (.queue d (.storing taskId)) (by simp) taskId (by simp [DeliveryThread.owes])
      obtain ⟨rfl, -⟩ := DeliveryThread.queue.inj hqueue
      refine h.quiet (by rw [he]; rfl) hforward hseq (howes ?_) ?_
      · intro x hx i hi
        rw [hnext x hx] at hi
        cases hi
      · intro i row hrow
        dsimp only at hrow
        rw [hbecome, storeBecome, Table.find_put] at hrow
        split at hrow
        · rename_i hi
          obtain rfl := Option.some.inj hrow
          obtain ⟨password, hpw⟩ := Option.isSome_iff_exists.mp hsome
          exact ⟨queuedAt, d, by rw [hi]; exact hd, by simp [hpw]⟩
        · exact h.stored i row hrow
    · refine h.quiet (by rw [he]; rfl) hforward hseq (howes ?_) ?_
      · intro x hx i hi
        rw [hnext x hx] at hi
        cases hi
      · intro i row hrow
        dsimp only at hrow
        rw [hbecome, takeBecome, Table.find_deleteWhere, Option.filter_eq_some_iff] at hrow
        exact h.stored i row hrow.1
    · refine h.quiet he hforward hseq (howes ?_) ?_
      · intro x hx i hi
        rw [hnext x hx] at hi
        cases hi
      · intro i row hrow
        dsimp only at hrow
        rw [hbecome] at hrow
        exact h.stored i row hrow

/-! ## Where a supplied password is -/

def Took (tr : List (ℚ × DeliveryEvent)) (taskId : ℕ) : Prop :=
  taskId ∈ tr.flatMap fun e => tookIds e.2

theorem took_snoc {tr : List (ℚ × DeliveryEvent)} {taskId : ℕ} :
    Took (tr ++ [e]) taskId ↔ Took tr taskId ∨ taskId ∈ tookIds e.2 := by
  simp [Took, List.flatMap_append]

theorem took_of_mem {tr : List (ℚ × DeliveryEvent)} {task : Delivery} {row : Option Pending}
    (h : (now, .took task row) ∈ tr) : Took tr task.id :=
  List.mem_flatMap.mpr ⟨_, h, by simp [tookIds]⟩

/-- On its way to memory, or in memory for its whole lifetime. -/
def Waiting (p : DeliveryPool) (taskId : ℕ) (queuedAt : ℚ) (password : String) : Prop :=
  (∃ th ∈ p.threads, taskId ∈ th.owes) ∨ ∃ row, p.shared.become.find taskId = some row ∧
    row.password = password ∧ queuedAt + becomeTtl ≤ row.expiry

/-- Not looked for yet; handed out; or past its lifetime before any poll has claimed the task. -/
def Settled (tr : List (ℚ × DeliveryEvent)) (p : DeliveryPool) (taskId : ℕ) (queuedAt : ℚ)
    (password : String) : Prop :=
  (¬ Took tr taskId ∧ Waiting p taskId queuedAt password) ∨
  (Took tr taskId ∧ ∀ now task row, (now, .took task row) ∈ tr → task.id = taskId →
    row.map Pending.password = some password) ∨
  (queuedAt + becomeTtl < p.shared.clock ∧ ∀ fetchedAt hostId taskIds,
    (fetchedAt, .fetched hostId taskIds) ∈ tr → taskId ∈ taskIds →
    queuedAt + becomeTtl < fetchedAt)

theorem Once.not_took_of_todo {tr : List (ℚ × DeliveryEvent)} {p : DeliveryPool} (h : Once tr p)
    (hth : th ∈ p.threads) {taskId : ℕ} (hid : taskId ∈ th.todo) : ¬ Took tr taskId := by
  intro htook
  have hnodup := h.perm.nodup_iff.mp (List.nodup_append.mp h.nodup).2.1
  exact (List.nodup_append.mp hnodup).2.2 taskId (List.mem_flatMap.mpr ⟨th, hth, hid⟩) taskId
    htook rfl

/-- A claimed task is with a poll or has been looked at. -/
theorem Once.claimed {tr : List (ℚ × DeliveryEvent)} {p : DeliveryPool} (h : Once tr p)
    {fetchedAt : ℚ} {hostId : String} {taskIds : List ℕ} {taskId : ℕ}
    (hfetch : (fetchedAt, .fetched hostId taskIds) ∈ tr) (hid : taskId ∈ taskIds) :
    (∃ th ∈ p.threads, taskId ∈ th.todo) ∨ Took tr taskId := by
  have hmem : taskId ∈ tr.flatMap fun e => fetchedIds e.2 :=
    List.mem_flatMap.mpr ⟨_, hfetch, hid⟩
  rw [h.perm.mem_iff, List.mem_append, List.mem_flatMap] at hmem
  exact hmem

/-- A step that is not the one that takes the password. -/
theorem Settled.keep {tr : List (ℚ × DeliveryEvent)} {p q : DeliveryPool} {taskId : ℕ}
    {queuedAt : ℚ} {password : String} (h : Settled tr p taskId queuedAt password)
    (htook : taskId ∉ tookIds e.2) (hclock : p.shared.clock ≤ e.1) (hnow : q.shared.clock = e.1)
    (hwait : Waiting p taskId queuedAt password → ¬ Took tr taskId →
      Waiting q taskId queuedAt password ∨ (queuedAt + becomeTtl < e.1 ∧ fetchedIds e.2 = [] ∧
        ∀ fetchedAt hostId taskIds, (fetchedAt, .fetched hostId taskIds) ∈ tr →
          taskId ∉ taskIds)) :
    Settled (tr ++ [e]) q taskId queuedAt password := by
  rcases h with ⟨hnot, hw⟩ | ⟨hyes, hall⟩ | ⟨hlate, hall⟩
  · rcases hwait hw hnot with hw | ⟨hlate, he, hnone⟩
    · refine Or.inl ⟨?_, hw⟩
      rw [took_snoc]
      tauto
    · refine Or.inr (Or.inr ⟨by rw [hnow]; exact hlate, ?_⟩)
      intro fetchedAt hostId taskIds hmem hid
      rcases List.mem_append.mp hmem with hmem | hmem
      · exact absurd hid (hnone _ _ _ hmem)
      · obtain rfl := List.mem_singleton.mp hmem
        rw [show taskIds = [] from he] at hid
        cases hid
  · refine Or.inr (Or.inl ⟨took_snoc.mpr (Or.inl hyes), ?_⟩)
    intro now task row hmem hid
    rcases List.mem_append.mp hmem with hmem | hmem
    · exact hall now task row hmem hid
    · obtain rfl := List.mem_singleton.mp hmem
      exact absurd (by simp [tookIds, hid]) htook
  · refine Or.inr (Or.inr ⟨by rw [hnow]; exact hlate.trans_le hclock, ?_⟩)
    intro fetchedAt hostId taskIds hmem hid
    rcases List.mem_append.mp hmem with hmem | hmem
    · exact hall _ _ _ hmem hid
    · obtain rfl := List.mem_singleton.mp hmem
      exact hlate.trans_le hclock

theorem Waiting.of_call {s : Store} {ts : List DeliveryThread} {taskId : ℕ} {queuedAt : ℚ}
    {password : String} (h : Waiting ⟨s, ts⟩ taskId queuedAt password) (th : DeliveryThread) :
    Waiting ⟨s, th :: ts⟩ taskId queuedAt password := by
  rcases h with ⟨x, hx, hid⟩ | h
  · exact Or.inl ⟨x, List.mem_cons_of_mem _ hx, hid⟩
  · exact Or.inr h

theorem step_settled {log : List DeliveryAct} {p q : DeliveryPool} {a : DeliveryAct}
    (st : Steps delivery p a q) (hc : DeliveryCondition p a) (honce : Once (trace log) p)
    (howned : Owned (trace log) p)
    (h : ∀ queuedAt taskId d password, (queuedAt, .inserted taskId d) ∈ trace log →
      d.supplied = some password → Settled (trace log) p taskId queuedAt password) :
    ∀ queuedAt taskId d password, (queuedAt, .inserted taskId d) ∈ trace (log ++ [a]) →
      d.supplied = some password → Settled (trace (log ++ [a])) q taskId queuedAt password := by
  cases st with
  | @call s ts th hentry =>
    rw [trace_call]
    intro queuedAt taskId d password hd hpw
    rcases h _ _ _ _ hd hpw with ⟨hnot, hw⟩ | h | h
    · exact Or.inl ⟨hnot, hw.of_call th⟩
    · exact Or.inr (Or.inl h)
    · exact Or.inr (Or.inr h)
  | @act s s' pre post th th' e hact =>
    obtain ⟨now, hact⟩ := hact
    obtain ⟨hclock, htime⟩ := step_clock hact
    have hnow : s'.clock = e.1 := hclock.trans htime.symm
    have hforward : s.clock ≤ e.1 := hc.1
    rw [trace_act]
    intro queuedAt taskId d password hd hpw
    have hth : th ∈ pre ++ th :: post := by simp
    have hold : insertedIds e.2 = [] → (queuedAt, .inserted taskId d) ∈ trace log ++ [e] →
        (queuedAt, .inserted taskId d) ∈ trace log := by
      intro he hmem
      rcases List.mem_append.mp hmem with hmem | hmem
      · exact hmem
      · obtain rfl := List.mem_singleton.mp hmem
        cases he
    -- the debts of the other calls
    have howes : ∀ x ∈ pre ++ th :: post, taskId ∈ x.owes → taskId ∉ th.owes →
        ∃ x ∈ pre ++ th'.toList ++ post, taskId ∈ x.owes := by
      intro x hx hid hnot
      refine ⟨x, ?_, hid⟩
      simp only [List.mem_append, List.mem_cons] at hx ⊢
      rcases hx with hx | rfl | hx
      · exact Or.inl (Or.inl hx)
      · exact absurd hid hnot
      · exact Or.inr hx
    rcases step_cases hact with ⟨d', taskId', rfl, he, hbecome, hnone, hsome, -⟩ |
      ⟨d', taskId', rfl, he, hbecome, rfl⟩ | ⟨d', taskId', rfl, he, hbecome, hnext⟩ |
      ⟨hostId, handed, task, rest, rfl, he, hbecome, hnext⟩ | ⟨hnone, he, htook, hbecome, hnext⟩
    · rcases List.mem_append.mp hd with hd | hd
      · refine (h _ _ _ _ hd hpw).keep (by simp [he, tookIds]) hforward hnow ?_
        rintro (⟨x, hx, hid⟩ | hrow) -
        · exact Or.inl (Or.inl (howes x hx hid (by simp [hnone])))
        · exact Or.inl (Or.inr (by simpa only [hbecome] using hrow))
      · obtain rfl := List.mem_singleton.mp hd
        obtain ⟨rfl, rfl⟩ := DeliveryEvent.inserted.inj he
        obtain ⟨-, -, hfresh⟩ := step_pending hact
        obtain ⟨hnew, -⟩ := hfresh taskId (by simp [insertedIds])
        refine Or.inl ⟨?_, Or.inl ?_⟩
        · rw [took_snoc]
          rintro (htook | htook)
          · have hmem : taskId ∈ (trace log).flatMap fun e => fetchedIds e.2 := by
              rw [honce.perm.mem_iff]
              exact List.mem_append_right _ htook
            have hle : taskId ≤ s.queue.taskSeq := honce.seq taskId (by simp [hmem])
            omega
          · simp [tookIds] at htook
        · obtain ⟨x, hx, hid⟩ := hsome (by simp [hpw])
          exact ⟨x, by simp only [List.mem_append, Option.mem_toList]; tauto, hid⟩
    · have hd : (queuedAt, .inserted taskId d) ∈ trace log := hold (by simp [he, insertedIds]) hd
      refine (h _ _ _ _ hd hpw).keep (by simp [he, tookIds]) hforward hnow ?_
      rintro (⟨x, hx, hid⟩ | ⟨row, hrow, hrowpw, hexpiry⟩) hnot
      · refine Or.inl (Or.inl ?_)
        by_cases hid' : taskId = taskId'
        · exact ⟨.queue d' (.storing taskId'), by simp, by simp [DeliveryThread.owes, hid']⟩
        · exact howes x hx hid (by simpa [DeliveryThread.owes] using hid')
      · by_cases hexpired : row.expiry < now
        · refine Or.inr ⟨by rw [htime]; exact hexpiry.trans_lt hexpired, by rw [he]; rfl, ?_⟩
          intro fetchedAt hostId taskIds hfetch hid
          rcases honce.claimed hfetch hid with ⟨x, hx, htodo⟩ | htook
          · exact hc.2 taskId row hrow (by rw [htime]; exact hexpired) x hx htodo
          · exact hnot htook
        · refine Or.inl (Or.inr ⟨row, ?_, hrowpw, hexpiry⟩)
          simp [hbecome, sweepBecome, hrow, hexpired]
    · have hd : (queuedAt, .inserted taskId d) ∈ trace log := hold (by simp [he, insertedIds]) hd
      refine (h _ _ _ _ hd hpw).keep (by simp [he, tookIds]) hforward hnow ?_
      intro hw _
      by_cases hid' : taskId = taskId'
      · subst hid'
        obtain ⟨d'', phase, queuedAt'', hqueue, hd'', -⟩ :=
          howned.owing _ hth taskId (by simp [DeliveryThread.owes])
        obtain ⟨rfl, -⟩ := DeliveryThread.queue.inj hqueue
        obtain ⟨rfl, rfl⟩ := howned.one _ _ _ _ _ hd hd''
        have hle : queuedAt ≤ s.clock := (howned.inserted _ _ _ hd).1
        refine Or.inl (Or.inr ⟨⟨taskId, password, now + becomeTtl⟩, ?_, rfl, ?_⟩)
        · simp [hbecome, storeBecome, hpw]
        · dsimp only
          linarith
      · rcases hw with ⟨x, hx, hid⟩ | hrow
        · exact Or.inl (Or.inl (howes x hx hid (by simpa [DeliveryThread.owes] using hid')))
        · refine Or.inl (Or.inr ?_)
          simpa [hbecome, storeBecome, hid'] using hrow
    · have hd : (queuedAt, .inserted taskId d) ∈ trace log := hold (by simp [he, insertedIds]) hd
      have hnone : taskId ∉ (DeliveryThread.poll hostId (.taking handed (task :: rest))).owes := by
        simp [DeliveryThread.owes]
      by_cases hid' : task.id = taskId
      · subst hid'
        have hnot : ¬ Took (trace log) task.id :=
          honce.not_took_of_todo hth (by simp [DeliveryThread.todo])
        rcases h _ _ _ _ hd hpw with ⟨-, ⟨x, hx, hid⟩ | ⟨row, hrow, hrowpw, hexpiry⟩⟩ |
          ⟨htook, -⟩ | ⟨hlate, hall⟩
        · exact absurd hid (hc.2.1 x hx)
        · refine Or.inr (Or.inl ⟨took_snoc.mpr (Or.inr (by simp [he, tookIds])), ?_⟩)
          intro t task' row' hmem hid
          rcases List.mem_append.mp hmem with hmem | hmem
          · exact absurd (hid ▸ took_of_mem hmem) hnot
          · obtain rfl := List.mem_singleton.mp hmem
            obtain ⟨rfl, rfl⟩ := DeliveryEvent.took.inj he
            have hrow : s.become.find task'.id = some row := hrow
            rw [hrow, Option.map_some, hrowpw]
        · exact absurd htook hnot
        · refine Or.inr (Or.inr ⟨by dsimp only at hlate ⊢; linarith, ?_⟩)
          intro fetchedAt hostId' taskIds hmem hid
          rcases List.mem_append.mp hmem with hmem | hmem
          · exact hall _ _ _ hmem hid
          · obtain rfl := List.mem_singleton.mp hmem
            cases he
      · refine (h _ _ _ _ hd hpw).keep (by simpa [he, tookIds] using fun h => hid' h.symm)
          hforward hnow ?_
        rintro (⟨x, hx, hid⟩ | ⟨row, hrow, hrest⟩) -
        · exact Or.inl (Or.inl (howes x hx hid hnone))
        · refine Or.inl (Or.inr ⟨row, ?_, hrest⟩)
          have hkey : row.taskId = taskId := Table.key_of_find hrow
          have hne : taskId ≠ task.id := Ne.symm hid'
          simp [hbecome, takeBecome, hrow, hkey, hne]
    · have hd : (queuedAt, .inserted taskId d) ∈ trace log := hold he hd
      refine (h _ _ _ _ hd hpw).keep (by simp [htook]) hforward hnow ?_
      rintro (⟨x, hx, hid⟩ | hrow) -
      · exact Or.inl (Or.inl (howes x hx hid (by simp [hnone])))
      · exact Or.inl (Or.inr (by simpa only [hbecome] using hrow))

/-! ## What a poll answers -/

/-- The tasks a poll is through with, each with the password it has found. -/
def DeliveryThread.looked : DeliveryThread → List (Delivery × Option String)
  | .poll _ (.taking handed _) => handed.map fun h => (h.task, h.becomePassword)
  | .poll _ (.promising handed task password _) =>
    handed.map (fun h => (h.task, h.becomePassword)) ++ [(task, password)]
  | _ => []

def Answered (tr : List (ℚ × DeliveryEvent)) (x : Delivery × Option String) : Prop :=
  ∃ now row, (now, .took x.1 row) ∈ tr ∧ x.2 = row.map Pending.password

theorem Answered.snoc {tr : List (ℚ × DeliveryEvent)} {x : Delivery × Option String}
    (h : Answered tr x) (e : ℚ × DeliveryEvent) : Answered (tr ++ [e]) x := by
  obtain ⟨now, row, hmem, hx⟩ := h
  exact ⟨now, row, List.mem_append_left _ hmem, hx⟩

structure Shown (tr : List (ℚ × DeliveryEvent)) (p : DeliveryPool) : Prop where
  looked : ∀ th ∈ p.threads, ∀ x ∈ th.looked, Answered tr x
  response : ∀ now hostId tasks h, (now, .delivered hostId tasks) ∈ tr → h ∈ tasks →
    Answered tr (h.task, h.becomePassword)
  fresh : ∀ now task row, (now, .took task (some row)) ∈ tr → now ≤ row.expiry
  own : ∀ now task row, (now, .took task (some row)) ∈ tr → row.taskId = task.id ∧
    ∃ queuedAt d, (queuedAt, .inserted task.id d) ∈ tr ∧ d.supplied = some row.password

/-- A poll has looked at what it answers, and at what it had and has just taken. -/
theorem step_looked (h : deliveryStep now s th = (s', e, th')) :
    (∀ hostId tasks, e.2 = .delivered hostId tasks →
        th.looked = tasks.map fun h => (h.task, h.becomePassword)) ∧
      ∀ x ∈ th', ∀ y ∈ x.looked, y ∈ th.looked ∨ ∃ task row, e.2 = .took task row ∧
        y = (task, row.map Pending.password) := by
  cases th with
  | queue d phase =>
    simp only [deliveryStep, Prod.mk.injEq] at h
    obtain ⟨-, rfl, rfl⟩ := h
    refine ⟨?_, ?_⟩
    · intro hostId tasks he
      cases phase <;> cases he
    · intro x hx y hy
      obtain ⟨phase', -, rfl⟩ := Option.mem_map.mp hx
      cases hy
  | poll hostId phase =>
    simp only [deliveryStep, Prod.mk.injEq] at h
    obtain ⟨-, rfl, rfl⟩ := h
    cases phase with
    | fetching =>
      refine ⟨by rintro _ _ ⟨⟩, ?_⟩
      rintro x ⟨⟩ y hy
      cases hy
    | taking handed rest =>
      cases rest with
      | nil =>
        refine ⟨?_, by rintro x ⟨⟩⟩
        rintro _ tasks ⟨⟩
        rfl
      | cons task rest =>
        refine ⟨by rintro _ _ ⟨⟩, ?_⟩
        rintro x ⟨⟩ y hy
        rcases List.mem_append.mp hy with hy | hy
        · exact Or.inl hy
        · exact Or.inr ⟨task, _, rfl, List.mem_singleton.mp hy⟩
    | promising handed task password rest =>
      refine ⟨by rintro _ _ ⟨⟩, ?_⟩
      rintro x ⟨⟩ y hy
      left
      simpa [DeliveryThread.looked] using hy

theorem step_shown {log : List DeliveryAct} {p q : DeliveryPool} {a : DeliveryAct}
    (st : Steps delivery p a q) (hc : DeliveryCondition p a) (howned : Owned (trace log) p)
    (h : Shown (trace log) p) : Shown (trace (log ++ [a])) q := by
  cases st with
  | @call s ts th hentry =>
    rw [trace_call]
    refine ⟨?_, h.response, h.fresh, h.own⟩
    intro x hx y hy
    rcases List.mem_cons.mp hx with rfl | hx
    · cases x with
      | queue d phase => cases hy
      | poll hostId phase =>
        obtain rfl : phase = .fetching := hentry
        cases hy
    · exact h.looked x hx y hy
  | @act s s' pre post th th' e hact =>
    obtain ⟨now, hact⟩ := hact
    obtain ⟨-, htime⟩ := step_clock hact
    obtain ⟨hdelivered, hlooked⟩ := step_looked hact
    rw [trace_act]
    -- a password comes out of memory at one place only
    have htaken : ∀ task row, e.2 = .took task (some row) →
        s.become.find task.id = some row ∧ ¬ row.expiry < e.1 := by
      intro task row he
      rcases step_cases hact with ⟨_, _, -, he', -⟩ | ⟨_, _, -, he', -⟩ | ⟨_, _, -, he', -⟩ |
        ⟨hostId, handed, task', rest, rfl, he', -⟩ | ⟨-, -, he', -⟩
      · rw [he'] at he
        cases he
      · rw [he'] at he
        cases he
      · rw [he'] at he
        cases he
      · obtain ⟨rfl, hrow⟩ := DeliveryEvent.took.inj (he'.symm.trans he)
        exact ⟨hrow, hc.2.2 row hrow⟩
      · simp [he, tookIds] at he'
    refine ⟨?_, ?_, ?_, ?_⟩
    · intro x hx y hy
      rcases mem_moved th hx with hx | hx
      · rcases hlooked x hx y hy with hy | ⟨task, row, he, rfl⟩
        · exact (h.looked th (by simp) y hy).snoc e
        · exact ⟨e.1, row, by rw [← he]; simp, rfl⟩
      · exact (h.looked x hx y hy).snoc e
    · intro t hostId tasks y hmem hy
      rcases List.mem_append.mp hmem with hmem | hmem
      · exact (h.response _ _ _ _ hmem hy).snoc e
      · obtain rfl := List.mem_singleton.mp hmem
        refine (h.looked th (by simp) _ ?_).snoc _
        rw [hdelivered hostId tasks rfl]
        exact List.mem_map_of_mem hy
    · intro t task row hmem
      rcases List.mem_append.mp hmem with hmem | hmem
      · exact h.fresh _ _ _ hmem
      · obtain rfl := List.mem_singleton.mp hmem
        exact not_lt.mp (htaken task row rfl).2
    · intro t task row hmem
      rcases List.mem_append.mp hmem with hmem | hmem
      · obtain ⟨hid, queuedAt, d, hd, hpw⟩ := h.own _ _ _ hmem
        exact ⟨hid, queuedAt, d, List.mem_append_left _ hd, hpw⟩
      · obtain rfl := List.mem_singleton.mp hmem
        obtain ⟨hrow, -⟩ := htaken task row rfl
        obtain ⟨queuedAt, d, hd, hpw⟩ := howned.stored _ _ hrow
        exact ⟨Table.key_of_find hrow, queuedAt, d, List.mem_append_left _ hd, hpw⟩

/-! ## Runs -/

theorem pendingIds_start {db : Database} (h : TaskQueue.Invariant db) :
    (pendingIds db).Nodup ∧ ∀ taskId ∈ pendingIds db, taskId ≤ db.taskSeq := by
  refine ⟨(List.filter_sublist.map AgentTask.id).nodup h.task_ids, ?_⟩
  intro taskId hid
  obtain ⟨task, htask, rfl⟩ := List.mem_map.mp hid
  exact h.task_seq task (List.mem_filter.mp htask).1

/-- Become passwords are delivered as promised, in runs whose steps meet the condition. -/
theorem become_passwords_delivered (db : Database) (clock : ℚ) (hdb : TaskQueue.Invariant db) :
    DeliveryLaw db clock DeliveryCondition := by
  intro log p run
  obtain ⟨hnodup, hseq⟩ := pendingIds_start hdb
  have hall : Once (trace log) p ∧ Owned (trace log) p ∧ Shown (trace log) p ∧
      ∀ queuedAt taskId d password, (queuedAt, .inserted taskId d) ∈ trace log →
        d.supplied = some password → Settled (trace log) p taskId queuedAt password := by
    refine run.history (P := fun log p => Once (trace log) p ∧ Owned (trace log) p ∧
      Shown (trace log) p ∧ ∀ queuedAt taskId d password,
        (queuedAt, .inserted taskId d) ∈ trace log → d.supplied = some password →
          Settled (trace log) p taskId queuedAt password) ?_ ?_
    · refine ⟨⟨?_, ?_, .refl _⟩, ⟨?_, ?_, ?_, ?_⟩, ⟨?_, ?_, ?_, ?_⟩, ?_⟩
      · simpa [trace, Program.machine] using hnodup
      · simpa [trace, Program.machine] using hseq
      all_goals simp [trace, Program.machine]
    · rintro log p a q - ⟨hc, st⟩ ⟨honce, howned, hshown, hsettled⟩
      exact ⟨step_once st honce, step_owned st hc howned, step_shown st hc howned hshown,
        step_settled st hc honce howned hsettled⟩
  obtain ⟨honce, -, hshown, hsettled⟩ := hall
  have htaken : ((trace log).flatMap fun e => tookIds e.2).Nodup := by
    have hfetched := (List.nodup_append.mp honce.nodup).2.1
    rw [honce.perm.nodup_iff] at hfetched
    exact (List.nodup_append.mp hfetched).2.1
  refine ⟨?_, hshown.fresh, ?_, hshown.own, hshown.response⟩
  · intro queuedAt taskId d password fetchedAt hostId taskIds hd hpw hfetch hid htime now hostId'
      tasks h hmem hh heq
    obtain ⟨t, row, htook, hrow⟩ := hshown.response _ _ _ _ hmem hh
    have hyes : Took (trace log) taskId := heq ▸ took_of_mem htook
    rcases hsettled _ _ _ _ hd hpw with ⟨hnot, -⟩ | ⟨-, hall⟩ | ⟨-, hlate⟩
    · exact absurd hyes hnot
    · exact hrow.trans (hall _ _ _ htook heq)
    · exact absurd htime (not_le.mpr (hlate _ _ _ hfetch hid))
  · refine (List.Sublist.flatMap_right _ ?_).nodup htaken
    rintro ⟨t, e⟩ hmem
    cases e with
    | took task row =>
      cases row with
      | none => simp [passwordOf]
      | some row => simp [passwordOf, tookIds, (hshown.own _ _ _ hmem).1]
    | _ => simp [passwordOf]

theorem become_passwords_delivered_empty : DeliveryLaw .empty 0 DeliveryCondition :=
  become_passwords_delivered .empty 0 TaskQueue.empty_invariant

/-! A poll lands between the insert of a task and the store of its password. -/

def sampleDispatch : Dispatch :=
  ⟨"web1", "systemctl restart nginx", "command", some "secret", false, some "alice"⟩

def pollBesideQueue : List (Choice DeliveryThread ℚ) :=
  [.call (.queue sampleDispatch .inserting), .act 0 0, .call (.poll "web1" .fetching), .act 0 1,
    .act 0 1, .act 0 1, .act 0 1]

def sampleTask : Delivery := ⟨1, "systemctl restart nginx", "command", some "alice"⟩

theorem poll_between_insert_and_store : ¬ DeliveryLaw .empty 0 fun _ _ => True := by
  intro hlaw
  have run := @plays_run _ _ _ delivery _ deliveryStep (fun now _ _ => ⟨now, rfl⟩)
    ⟨.empty, .empty, .empty, 0⟩ pollBesideQueue
    (by simp [pollBesideQueue, delivery, Entry]) ⟨⟨.empty, .empty, .empty, 0⟩, []⟩
  have htrace : trace (plays deliveryStep pollBesideQueue
      ⟨⟨.empty, .empty, .empty, 0⟩, []⟩).1 =
      [(0, .inserted 1 sampleDispatch), (1, .fetched "web1" [1]), (1, .took sampleTask none),
        (1, .silent), (1, .delivered "web1" [⟨sampleTask, none, false⟩])] := by
    decide +kernel
  have hkept := hlaw _ _ (run.restrict fun _ _ => trivial)
  rw [htrace] at hkept
  have hcarries := hkept.carries 0 1 sampleDispatch "secret" 1 "web1" [1] (by simp) (by decide)
    (by simp) (by simp) (by norm_num [becomeTtl])
  have hnone := hcarries 1 "web1" [⟨sampleTask, none, false⟩] ⟨sampleTask, none, false⟩ (by simp)
    (by simp) rfl
  cases hnone

end BecomeDelivery
