import SysibleController.HostDispatch
import SysibleController.ScheduledTargets

/-! The two ways to reboot or switch off many hosts: the fleet route and a scheduled job. Each
dispatches its command to one entry after another, and a call that raises ends the loop. -/
namespace PowerActions

open KeyedTable PythonText MergedHosts HostDispatch ScheduledJobs

/-- `_cmd_power`, with `_POWER_GRACE` filled in. -/
def cmdPower (systemctlVerb shutdownFlag word : String) : String :=
  "if command -v systemd-run >/dev/null 2>&1; then systemd-run --collect --on-active=10 " ++
    s!"--unit=sysible-{systemctlVerb} --description='Sysible {word}' systemctl {systemctlVerb}; " ++
    "elif [ \"$(id -u)\" = 0 ]; then " ++
    s!"setsid sh -c 'sleep 10; shutdown {shutdownFlag} +0 >/dev/null 2>&1 " ++
    s!"|| systemctl {systemctlVerb}' </dev/null >/dev/null 2>&1 & " ++
    s!"else echo '{word} requires root privileges on this host' >&2; exit 1; fi " ++
    s!"&& echo '{word} requested - this host goes down in about 10 seconds.'"

def cmdRebootHost : String := cmdPower "reboot" "-r" "Reboot"

def cmdPoweroffHost : String := cmdPower "poweroff" "-P" "Power off"

def cmdRestartAgent : String :=
  "systemd-run --collect --unit=sysible-agent-restart systemctl restart sysible-agent " ++
    "&& echo 'Agent restart dispatched (detached); this host will reconnect shortly.'"

/-- `_FLEET_COMMANDS` -/
def fleetCommands : List (String × String) :=
  [("reboot", cmdRebootHost), ("poweroff", cmdPoweroffHost), ("restart_agent", cmdRestartAgent)]

/-- One call of `_dispatch_one`. -/
structure Dispatch where
  call : Call
  command : String
  description : String
  wantRoot : Bool

/-- What a loop does about one host: an answer of its own, or a call. -/
inductive Item where
  | answered (r : Result)
  | dispatch (d : Dispatch)

/-- The calls that are made, and the results unless one of them raises; the `n`-th call finds
`found n`. -/
def sweep (found : ℕ → Outcomes) : ℕ → List Item → List Dispatch × Raises (List Result)
  | _, [] => ([], .ok [])
  | n, .answered r :: items =>
    ((sweep found n items).1, (sweep found n items).2.map (r :: ·))
  | n, .dispatch d :: items =>
    match dispatchOne d.call (found n) with
    | .error text => ([d], .error text)
    | .ok r => (d :: (sweep found (n + 1) items).1, (sweep found (n + 1) items).2.map (r :: ·))

/-! ## The fleet route -/

structure FleetRequest where
  action : String
  command : String
  targets : List String
  sudoPassword : String
  deriving DecidableEq

/-- What an admin has stored for `sudo_store.resolve`: passwords by host, and one for all. -/
structure SudoStore where
  host : String → Option String
  all : Option String

def SudoStore.resolve (store : SudoStore) (label : String) : Option String :=
  match store.host label with
  | some password => if password = "" then store.all else some password
  | none => store.all

def fleetCommand (body : FleetRequest) : Except HTTPException String :=
  if body.action = "script" then
    if strip body.command = "" then .error ⟨400, "A script/command is required."⟩
    else .ok (strip body.command)
  else match fleetCommands.lookup body.action with
    | some command => .ok command
    | none => .error ⟨400, s!"Unknown fleet action: {body.action}"⟩

def fleetDescription (action : String) : String :=
  ([("reboot", "Reboot host"), ("poweroff", "Power off host"), ("restart_agent", "Restart agent"),
    ("script", "Ran fleet script")].lookup action).getD action

/-- The dictionary by id: its keys as they first come, its values as they last come. -/
def entryKeys : List Entry → List String
  | [] => []
  | e :: all => e.id :: (entryKeys all).filter (· ≠ e.id)

def entryOf (all : List Entry) (id : String) : Option Entry := all.reverse.find? (·.id = id)

def powers (action : String) : Bool := action = "poweroff" || action = "reboot"

def skipped (action : String) (e : Entry) : Result :=
  ⟨e.label, envOf e, false, some ("skipped — this is the control node; select it explicitly if " ++
    s!"you really mean to {action} the controller itself"), .str "", .str "", .null⟩

def hostNotFound (id : String) : Result :=
  ⟨id, "", false, some "host not found", .str "", .str "", .null⟩

def fleetItem (body : FleetRequest) (store : SudoStore) (command : String) (all : List Entry)
    (id : String) : Item :=
  match entryOf all id with
  | none => .answered (hostNotFound id)
  | some e =>
    if body.targets = [] && powers body.action && e.isController then
      .answered (skipped body.action e)
    else
      let become := if body.sudoPassword = "" then store.resolve e.label else some body.sudoPassword
      .dispatch ⟨⟨e, become, true⟩, command, fleetDescription body.action, body.action = "script"⟩

/-- The calls of the route and its answer; a call that raises is a server error. -/
def fleet (body : FleetRequest) (store : SudoStore) (all : Except String (List Entry))
    (found : ℕ → Outcomes) : List Dispatch × Except HTTPException (Raises (List Result)) :=
  match fleetCommand body, all with
  | .error e, _ => ([], .error e)
  | .ok _, .error _ => ([], .error ⟨502, "Controller unreachable."⟩)
  | .ok command, .ok all =>
    let targets := if body.targets = [] then entryKeys all else body.targets
    let swept := sweep found 0 (targets.map (fleetItem body store command all))
    (swept.1, .ok swept.2)

/-! ## A scheduled reboot -/

def scheduledDescription (createdBy action : String) : String :=
  "[scheduled by " ++ (if createdBy = "" then "?" else createdBy) ++ "] " ++
    (actions.lookup action).getD action

def scheduledItem (createdBy action command : String) (e : Entry) : Item :=
  .dispatch ⟨⟨e, none, false⟩, command, scheduledDescription createdBy action, false⟩

/-- The calls of `_run_scheduled_job` for a job that reboots, from the scheduler or from
`schedules_run_now`; the text is its detail where it reaches no host. -/
def scheduledReboot (createdBy arg : String) (targets : List String)
    (all : Except String (List Entry)) (found : ℕ → Outcomes) :
    List Dispatch × Except String (Raises (List Result)) :=
  match ScheduledTargets.runScheduledJob "reboot" arg targets all with
  | .error detail => ([], .error detail)
  | .ok (entries, _) =>
    let swept := sweep found 0 (entries.map (scheduledItem createdBy "reboot" cmdRebootHost))
    (swept.1, .ok swept.2)

/-! ## Without targets -/

/-- The ways to start a reboot or a power-off that names no target. -/
inductive Start where
  | fleet (body : FleetRequest) (store : SudoStore) (power : powers body.action = true)
      (untargeted : body.targets = [])
  | scheduled (createdBy arg : String)

def Start.dispatches (all : Except String (List Entry)) (found : ℕ → Outcomes) :
    Start → List Dispatch
  | .fleet body store _ _ => (PowerActions.fleet body store all found).1
  | .scheduled createdBy arg => (scheduledReboot createdBy arg [] all found).1

/-- No entry of the control node is dispatched the command. -/
def Spared (s : Start) (all : Except String (List Entry)) (found : ℕ → Outcomes) : Prop :=
  ∀ d ∈ s.dispatches all found, d.call.entry.isController = false

/-- The call for this entry, without a password, returns. -/
def Returns (found : ℕ → Outcomes) (n : ℕ) (e : Entry) : Prop :=
  ∃ r, dispatchOne ⟨e, none, false⟩ (found n) = .ok r

/-- Each of the entries, called in turn from the `n`-th call on, returns. -/
def AllReturn (found : ℕ → Outcomes) : ℕ → List Entry → Prop
  | _, [] => True
  | n, e :: es => Returns found n e ∧ AllReturn found (n + 1) es

/-- The control node is in the inventory, and the call for no entry before it raises. -/
def ControllerReached (all : Except String (List Entry)) (found : ℕ → Outcomes) : Prop :=
  ∃ before e after, all = .ok (before ++ e :: after) ∧ e.isController = true ∧
    AllReturn found 0 before

def Start.isScheduled : Start → Prop
  | .fleet .. => False
  | .scheduled .. => True

variable {found : ℕ → Outcomes} {n : ℕ} {items : List Item} {all es : List Entry} {d : Dispatch}

theorem mem_sweep (h : d ∈ (sweep found n items).1) : .dispatch d ∈ items := by
  induction items generalizing n with
  | nil => cases h
  | cons item items ih =>
    cases item with
    | answered r => exact List.mem_cons_of_mem _ (ih h)
    | dispatch d' =>
      rw [sweep] at h
      cases hd : dispatchOne d'.call (found n) with
      | error text =>
        rw [hd] at h
        obtain rfl := List.mem_singleton.mp h
        exact List.mem_cons_self
      | ok r =>
        rw [hd] at h
        rcases List.mem_cons.mp h with rfl | h
        · exact List.mem_cons_self
        · exact List.mem_cons_of_mem _ (ih h)

theorem fleet_spares {body : FleetRequest} {store : SudoStore} {all : Except String (List Entry)}
    (power : powers body.action = true) (untargeted : body.targets = [])
    (h : d ∈ (fleet body store all found).1) : d.call.entry.isController = false := by
  unfold fleet at h
  split at h
  · cases h
  · cases h
  · next command all' =>
    obtain ⟨id, -, hitem⟩ := List.mem_map.mp (mem_sweep h)
    unfold fleetItem at hitem
    split at hitem
    · cases hitem
    · next e he =>
      rw [untargeted, power] at hitem
      cases hc : e.isController with
      | true =>
        rw [hc] at hitem
        cases hitem
      | false =>
        rw [hc] at hitem
        obtain rfl := Item.dispatch.inj hitem
        exact hc

/-- The calls of a scheduled job go as far as the first one that raises. -/
theorem mem_scheduled_iff {createdBy command : String} {P : Entry → Prop} :
    (∃ d ∈ (sweep found n (es.map (scheduledItem createdBy "reboot" command))).1,
      P d.call.entry) ↔
      ∃ before e after, es = before ++ e :: after ∧ P e ∧ AllReturn found n before := by
  induction es generalizing n with
  | nil => simp [sweep]
  | cons e es ih =>
    rw [List.map_cons, scheduledItem, sweep]
    cases hd : dispatchOne ⟨e, none, false⟩ (found n) with
    | error text =>
      constructor
      · rintro ⟨d, hd', hP⟩
        obtain rfl := List.mem_singleton.mp hd'
        exact ⟨[], e, es, rfl, hP, trivial⟩
      · rintro ⟨before, x, after, heq, hP, hret⟩
        cases before with
        | nil =>
          obtain ⟨rfl, -⟩ := List.cons.inj heq
          exact ⟨_, List.mem_singleton_self _, hP⟩
        | cons y before =>
          obtain ⟨rfl, -⟩ := List.cons.inj heq
          obtain ⟨⟨r, hr⟩, -⟩ := hret
          rw [hd] at hr
          cases hr
    | ok r =>
      constructor
      · rintro ⟨d, hd', hP⟩
        rcases List.mem_cons.mp hd' with rfl | hd'
        · exact ⟨[], e, es, rfl, hP, trivial⟩
        · obtain ⟨before, x, after, rfl, hx, hret⟩ := ih.mp ⟨d, hd', hP⟩
          exact ⟨e :: before, x, after, rfl, hx, ⟨r, hd⟩, hret⟩
      · rintro ⟨before, x, after, heq, hP, hret⟩
        cases before with
        | nil =>
          obtain ⟨rfl, -⟩ := List.cons.inj heq
          exact ⟨_, List.mem_cons_self, hP⟩
        | cons y before =>
          obtain ⟨rfl, rfl⟩ := List.cons.inj heq
          obtain ⟨d, hd', hPd⟩ := ih.mpr ⟨before, x, after, rfl, hP, hret.2⟩
          exact ⟨d, List.mem_cons_of_mem _ hd', hPd⟩

theorem run_untargeted {arg : String} (hall : all ≠ []) :
    ScheduledTargets.runScheduledJob "reboot" arg [] (.ok all) = .ok (all, "") := by
  have hmatch : ScheduledTargets.matching [] all = all := by simp [ScheduledTargets.matching]
  rw [ScheduledTargets.runScheduledJob]
  rw [hmatch, if_neg hall, if_neg (by simp), if_neg (by simp), if_neg (by decide)]
  rfl

/-- The fleet route passes over the control node; a scheduled reboot does not. -/
theorem spared_iff (s : Start) (all : Except String (List Entry)) (found : ℕ → Outcomes) :
    Spared s all found ↔ ¬ (s.isScheduled ∧ ControllerReached all found) := by
  cases s with
  | fleet body store power untargeted =>
    simp only [Start.isScheduled, false_and, not_false_eq_true, iff_true]
    exact fun d hd => fleet_spares power untargeted hd
  | scheduled createdBy arg =>
    have hreach : ControllerReached all found ↔
        ∃ d ∈ (scheduledReboot createdBy arg [] all found).1, d.call.entry.isController = true := by
      cases all with
      | error text => simp [ControllerReached, scheduledReboot, ScheduledTargets.runScheduledJob]
      | ok all =>
        by_cases hall : all = []
        · subst hall
          simp [ControllerReached, scheduledReboot, ScheduledTargets.runScheduledJob,
            ScheduledTargets.matching]
        · rw [scheduledReboot, run_untargeted hall]
          dsimp only
          rw [mem_scheduled_iff (P := fun e => e.isController = true)]
          simp only [ControllerReached, Except.ok.injEq]
    simp only [Spared, Start.dispatches, Start.isScheduled, true_and, hreach, not_exists, not_and,
      Bool.not_eq_true]

/-- The control node is in the list exactly when its agent is enrolled. -/
theorem controller_listed_iff (agents : Agents) (ssh : SshHosts) :
    (∃ e ∈ listMergedHosts (some agents) (some ssh) false, e.isController = true) ↔
      ∃ a ∈ agents.rows, a.revoked = false ∧ a.isController = true := by
  rw [ScheduledTargets.listMergedHosts_eq]
  constructor
  · rintro ⟨e, he, hc⟩
    rcases shown_cases he with ⟨a, ha, hrev, -, rfl⟩ | ⟨r, -, -, -, rfl⟩ |
        ⟨label, a, r, htwin, -, rfl⟩
    · exact ⟨a, ha, hrev, hc⟩
    · cases hc
    · obtain ⟨ha, hrev, -⟩ := twin_some htwin
      exact ⟨a, ha, hrev, by simpa [Entry.isController, agentEntry, sshEntry] using hc⟩
  · rintro ⟨a, ha, hrev, hc⟩
    have honce : 0 < ((shown agents ssh).flatMap Entry.agentIds).count a.hostId := by
      rw [agents_shown_once ha hrev]
      exact Nat.one_pos
    obtain ⟨e, he, hid⟩ := List.mem_flatMap.mp (List.count_pos_iff.mp honce)
    refine ⟨e, he, ?_⟩
    rcases shown_cases he with ⟨b, hb, -, -, rfl⟩ | ⟨r, -, -, -, rfl⟩ |
        ⟨label, b, r, htwin, -, rfl⟩
    · have heq : a.hostId = b.hostId := by
        simpa [Entry.agentIds, Entry.parts, agentEntry] using hid
      obtain rfl := agentEntry_inj ha hb heq
      exact hc
    · simp [Entry.agentIds, Entry.parts, sshEntry] at hid
    · have heq : a.hostId = b.hostId := by
        simpa [Entry.agentIds, Entry.parts, agentEntry, sshEntry] using hid
      obtain rfl := agentEntry_inj ha (twin_some htwin).1 heq
      simp [Entry.isController, agentEntry, hc]

def controlNode : Agents := ⟨[{ webAgent "a1b2" "controller" with isController := true }], by simp⟩

/-- A nightly reboot without targets takes the control node with it. -/
theorem scheduled_reboot_reaches_controller :
    ¬ Spared (.scheduled "ops" "") (.ok (listMergedHosts (some controlNode) none false))
      fun _ => ⟨.empty, some 7, []⟩ := by
  intro h
  have hd : ∃ d ∈ Start.dispatches (.ok (listMergedHosts (some controlNode) none false))
      (fun _ => ⟨.empty, some 7, []⟩) (.scheduled "ops" ""), d.call.entry.isController = true := by
    exact ⟨_, List.mem_singleton_self _, rfl⟩
  obtain ⟨d, hmem, hc⟩ := hd
  rw [h d hmem] at hc
  cases hc

end PowerActions
