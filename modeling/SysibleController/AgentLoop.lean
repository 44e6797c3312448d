import SysibleController.TaskProtocol
import SysibleController.AgentReport

/-! One round of the agent's task loop (`loop` and `send_result` in `host_agent/agent.py`): the
tasks of one answer are run one after the other, each is reported, and a task that fails does not
keep the agent from the next one. -/
namespace TaskProtocol

open TransitionSystem TaskQueue AgentCommand

/-- How `send_result` ended. A `RequestException` is swallowed there. -/
inductive Sending where
  | returned
  | unknownHost
  | raised (why : String)
  deriving DecidableEq

/-- What a round meets with: `raises` is the text of an exception out of running a task or starting
a terminal, and `send` says whether a report went out and how the attempt ended. -/
structure Round where
  env : Surroundings
  host : Delivery → Host
  raises : Delivery → Option String
  password : Delivery → Option String
  wantRoot : Delivery → Bool
  send : Delivery → String → Bool × Sending

def ptyStarted : Result := ⟨"pty session started".toList, [], 0⟩

def agentError (why : String) : Result := ⟨[], ("agent error: " ++ why).toList, 1⟩

def reportText (res : Result) : String := String.ofList (resultJson res)

variable (w : Round)

def resultOf (task : Delivery) : Result :=
  if task.kind = "pty_open" then ptyStarted
  else (runCommand w.env (w.host task) task.command.toList (task.runAs.map String.toList)
    ((w.password task).map String.toList) (w.wantRoot task)).result

def posted (task : Delivery) (text : String) : List String :=
  if (w.send task text).1 then [text] else []

/-- The reports of one task, and whether the loop goes on. The failure is reported with every
exception swallowed. -/
def runTask (task : Delivery) : List String × Bool :=
  match w.raises task with
  | some why => (posted w task (reportText (agentError why)), true)
  | none =>
    let text := reportText (resultOf w task)
    match (w.send task text).2 with
    | .returned => (posted w task text, true)
    | .unknownHost => (posted w task text, false)
    | .raised why =>
      (posted w task text ++ posted w task (reportText (agentError why)), true)

/-- The tasks that were run, each with its reports, and whether all were. -/
def runTasks : List Delivery → List (Delivery × List String) × Bool
  | [] => ([], true)
  | task :: rest =>
    match runTask w task with
    | (texts, true) => ((task, texts) :: (runTasks rest).1, (runTasks rest).2)
    | (texts, false) => ([(task, texts)], false)

/-- What a round is in the protocol: the runs in order, and a stop of the agent where the controller
does not know it any more. -/
def roundEvents (hostId : String) (tasks : List Delivery) : List Event :=
  (runTasks w tasks).1.map (fun r => .ran hostId r.1 r.2) ++
    if (runTasks w tasks).2 then [] else [.restarted hostId]

def roundReports (hostId : String) (runs : List (Delivery × List String)) : List Report :=
  runs.flatMap fun r => r.2.map fun text => ⟨r.1.id, hostId, text⟩

variable {w} {retentionDays : ℤ} {hostId : String} {tasks : List Delivery} {s : System}

/-- The controller says, about a task, that it does not know the host. -/
def Unknown (w : Round) (task : Delivery) : Prop :=
  w.raises task = none ∧ (w.send task (reportText (resultOf w task))).2 = .unknownHost

theorem runTask_goes_on (task : Delivery) : (runTask w task).2 = false ↔ Unknown w task := by
  unfold runTask Unknown
  cases hraises : w.raises task with
  | some why => simp
  | none => cases hsend : (w.send task (reportText (resultOf w task))).2 <;> simp [hsend]

/-- A round stops at the first task about which the controller says so, and nowhere else. -/
theorem runTasks_tasks (tasks : List Delivery) :
    ((runTasks w tasks).2 = true ∧ (runTasks w tasks).1.map Prod.fst = tasks ∧
      ∀ task ∈ tasks, ¬ Unknown w task) ∨
    ((runTasks w tasks).2 = false ∧ ∃ done task rest, tasks = done ++ task :: rest ∧
      (runTasks w tasks).1.map Prod.fst = done ++ [task] ∧ Unknown w task ∧
      ∀ t ∈ done, ¬ Unknown w t) := by
  induction tasks with
  | nil => exact Or.inl ⟨rfl, rfl, by simp⟩
  | cons task rest ih =>
    have hgoes := runTask_goes_on (w := w) task
    rcases hrun : runTask w task with ⟨texts, goes⟩
    rw [hrun] at hgoes
    cases goes with
    | false =>
      refine Or.inr ⟨by simp [runTasks, hrun], [], task, rest, rfl, by simp [runTasks, hrun],
        hgoes.mp rfl, by simp⟩
    | true =>
      have hknown : ¬ Unknown w task := fun h => by simpa using hgoes.mpr h
      have htasks : runTasks w (task :: rest) =
          ((task, texts) :: (runTasks w rest).1, (runTasks w rest).2) := by
        simp [runTasks, hrun]
      rw [htasks]
      rcases ih with ⟨hall, hmap, hnone⟩ | ⟨hstop, done, t, rest', rfl, hmap, hunknown, hdone⟩
      · refine Or.inl ⟨hall, by simp [hmap], ?_⟩
        exact List.forall_mem_cons.mpr ⟨hknown, hnone⟩
      · refine Or.inr ⟨hstop, task :: done, t, rest', rfl, by simp [hmap], hunknown, ?_⟩
        exact List.forall_mem_cons.mpr ⟨hknown, hdone⟩

/-- A round of the loop, taken from a state in which the agent holds the tasks, is a run of the
protocol; after it the agent holds none. -/
theorem round_run (hheld : s.waiting hostId = tasks) :
    (machine retentionDays).Run s (roundEvents w hostId tasks)
      ⟨s.db, Function.update s.waiting hostId [],
        s.sent ++ roundReports hostId (runTasks w tasks).1⟩ := by
  induction tasks generalizing s with
  | nil =>
    have hsame : Function.update s.waiting hostId [] = s.waiting := by
      rw [← hheld, Function.update_eq_self]
    have hreports : roundReports hostId (runTasks w []).1 = [] := rfl
    rw [hsame, hreports, List.append_nil]
    exact .nil s
  | cons task rest ih =>
    have hstep : (machine retentionDays).step s _ _ :=
      .ran s hostId task rest (runTask w task).1 hheld
    rcases hrun : runTask w task with ⟨texts, goes⟩
    rw [hrun] at hstep
    cases goes with
    | false =>
      have hstop : (machine retentionDays).step _ _ _ := .restarted
        ⟨s.db, Function.update s.waiting hostId rest,
          s.sent ++ texts.map fun text => ⟨task.id, hostId, text⟩⟩ hostId
      rw [Function.update_idem] at hstop
      have hevents : roundEvents w hostId (task :: rest) =
          [.ran hostId task texts, .restarted hostId] := by
        simp [roundEvents, runTasks, hrun]
      have hreports : roundReports hostId (runTasks w (task :: rest)).1 =
          texts.map fun text => ⟨task.id, hostId, text⟩ := by
        simp [roundReports, runTasks, hrun]
      rw [hevents, hreports]
      exact .cons hstep (.single hstop)
    | true =>
      have hrest := ih (s := ⟨s.db, Function.update s.waiting hostId rest,
        s.sent ++ texts.map fun text => ⟨task.id, hostId, text⟩⟩) (by simp)
      have hevents : roundEvents w hostId (task :: rest) =
          .ran hostId task texts :: roundEvents w hostId rest := by
        simp [roundEvents, runTasks, hrun]
      have hreports : roundReports hostId (runTasks w (task :: rest)).1 =
          (texts.map fun text => ⟨task.id, hostId, text⟩) ++
            roundReports hostId (runTasks w rest).1 := by
        simp [roundReports, runTasks, hrun]
      rw [Function.update_idem, List.append_assoc, ← hreports] at hrest
      rw [hevents]
      exact .cons hstep hrest

/-- A report is the result of the task, or says that the agent failed. -/
def Truthful (w : Round) (task : Delivery) (text : String) : Prop :=
  text = reportText (resultOf w task) ∨ ∃ why, text = reportText (agentError why)

theorem runTask_truthful (task : Delivery) :
    (runTask w task).1.length ≤ 2 ∧ ∀ text ∈ (runTask w task).1, Truthful w task text := by
  have hposted : ∀ text, (posted w task text).length ≤ 1 ∧ ∀ x ∈ posted w task text, x = text := by
    intro text
    unfold posted
    split_ifs <;> simp
  unfold runTask
  cases w.raises task with
  | some why =>
    obtain ⟨hlen, htext⟩ := hposted (reportText (agentError why))
    exact ⟨hlen.trans (by decide), fun text ht => Or.inr ⟨why, htext text ht⟩⟩
  | none =>
    obtain ⟨hlen, htext⟩ := hposted (reportText (resultOf w task))
    dsimp only
    cases (w.send task (reportText (resultOf w task))).2 with
    | returned | unknownHost =>
      exact ⟨hlen.trans (by decide), fun text ht => Or.inl (htext text ht)⟩
    | raised why =>
      obtain ⟨hlen', htext'⟩ := hposted (reportText (agentError why))
      refine ⟨by simp only [List.length_append]; omega, fun text ht => ?_⟩
      rcases List.mem_append.mp ht with ht | ht
      · exact Or.inl (htext text ht)
      · exact Or.inr ⟨why, htext' text ht⟩

theorem runTasks_truthful {r : Delivery × List String} (h : r ∈ (runTasks w tasks).1) :
    r.2.length ≤ 2 ∧ ∀ text ∈ r.2, Truthful w r.1 text := by
  induction tasks with
  | nil => cases h
  | cons task rest ih =>
    have htask := runTask_truthful (w := w) task
    rcases hrun : runTask w task with ⟨texts, goes⟩
    rw [hrun] at htask
    cases goes with
    | false =>
      rw [runTasks, hrun] at h
      rw [List.mem_singleton.mp h]
      exact htask
    | true =>
      rw [runTasks, hrun] at h
      rcases List.mem_cons.mp h with rfl | h
      · exact htask
      · exact ih h

/-- The first task raises, the second is reported, and about the third the controller has forgotten
the host. -/
def forgottenRound : Round where
  env := sampleSurroundings
  host _ := answers (.exited 0 [] [])
  raises task := if task.id = 1 then some "'command'" else none
  password _ := none
  wantRoot _ := false
  send task _ := (true, if task.id = 3 then .unknownHost else .returned)

def heldSystem : System := ⟨.empty, fun _ => [delivery 1 "a", delivery 2 "b", delivery 3 "c",
  delivery 4 "d"], []⟩

end TaskProtocol
