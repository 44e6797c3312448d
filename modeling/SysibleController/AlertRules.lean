import SysibleController.MergedHostIds
import SysibleController.PythonInt
import Mathlib.Data.Finset.Basic

/-! Alert rules (`webgui/alerts.py`) and the view of the hosts they are evaluated on
(`_alerts_gather_hosts`, `_eval_custom_rules`). What stands for readings of a float, for regular
expressions and for the text of a number is a parameter. -/
namespace AlertRules

open MergedHosts PythonInt

inductive Rule where
  | hostOffline
  | diskCritical
  | memHigh
  | loadHigh
  | failedUnits
  | oomEvents
  | updatesPending
  | securityUpdates
  | rebootRequired
  | certExpiring
  | firewallDisabled
  | firewallFailedToStart
  | macNotEnforcing
  | sshRootLogin
  | timeUnsynced
  deriving DecidableEq

/-- In the order in which a host is checked. -/
def Rule.all : List Rule :=
  [.hostOffline, .diskCritical, .memHigh, .loadHigh, .failedUnits, .oomEvents, .updatesPending,
    .securityUpdates, .rebootRequired, .certExpiring, .firewallDisabled, .firewallFailedToStart,
    .macNotEnforcing, .sshRootLogin, .timeUnsynced]

theorem Rule.mem_all (r : Rule) : r ∈ Rule.all := by cases r <;> decide

def Rule.name : Rule → String
  | hostOffline => "host_offline"
  | diskCritical => "disk_critical"
  | memHigh => "mem_high"
  | loadHigh => "load_high"
  | failedUnits => "failed_units"
  | oomEvents => "oom_events"
  | updatesPending => "updates_pending"
  | securityUpdates => "security_updates"
  | rebootRequired => "reboot_required"
  | certExpiring => "cert_expiring"
  | firewallDisabled => "firewall_disabled"
  | firewallFailedToStart => "firewall_failed_to_start"
  | macNotEnforcing => "mac_not_enforcing"
  | sshRootLogin => "ssh_root_login"
  | timeUnsynced => "time_unsynced"

/-- A JSON value where the code wants a number. -/
inductive Value where
  | null
  | text (s : String)
  | number (q : ℚ)
  | other
  deriving DecidableEq

structure RuleConfig where
  enabled : Bool
  threshold : Option Value

structure CustomRule where
  id : String
  name : String
  command : String
  regex : String
  absent : Bool
  enabled : Bool

structure Config where
  email : Bool
  webhook : Bool
  rules : Rule → RuleConfig
  custom : List CustomRule

/-- `float` of a text, `re.search` (no value for an expression that does not compile, else the
match if there is one), and the text of a number. -/
structure Python where
  float : String → Option ℚ
  search : String → String → Option (Option String)
  shown : ℚ → String

def Value.toInt : Value → Option ℤ
  | null => none
  | text s => pyInt s.toList
  | number q => some (truncated q)
  | other => none

def Value.toFloat (py : Python) : Value → Option ℚ
  | null => none
  | text s => py.float s
  | number q => some q
  | other => none

/-- `thr`: the default stands in for a threshold that is missing, blank or no number. -/
def thr {α : Type} (cast : Value → Option α) (default : α) (cfg : RuleConfig) : α :=
  match cfg.threshold with
  | none => default
  | some v => if v = .null ∨ v = .text "" then default else (cast v).getD default

/-- The merged view of one host. -/
structure Host where
  id : String
  host : String
  online : Option Bool
  disk : Option ℤ
  mem : Option ℤ
  load1 : Option ℚ
  failed : Option ℤ
  oom : Option ℤ
  security : Option ℤ
  total : Option ℤ
  reboot : Option Bool
  certDays : Option ℤ
  flag : Rule → Bool

structure Firing where
  key : String
  hostId : String
  host : String
  rule : String
  message : String

variable (py : Python)

/-- The condition of a rule, on what is known of a host. -/
def meets (cfg : Config) (h : Host) : Rule → Bool
  | .hostOffline => h.online = some false
  | .diskCritical => h.disk.any fun d => thr Value.toInt 90 (cfg.rules .diskCritical) ≤ d
  | .memHigh => h.mem.any fun m => thr Value.toInt 90 (cfg.rules .memHigh) ≤ m
  | .loadHigh => h.load1.any fun l => thr (Value.toFloat py) 8 (cfg.rules .loadHigh) ≤ l
  | .failedUnits => 0 < h.failed.getD 0
  | .oomEvents => 0 < h.oom.getD 0
  | .updatesPending =>
    h.total.any fun n => thr Value.toInt 1 (cfg.rules .updatesPending) ≤ n
  | .securityUpdates => 0 < h.security.getD 0
  | .rebootRequired => h.reboot.getD false
  | .certExpiring => h.certDays.any fun d => d < thr Value.toInt 30 (cfg.rules .certExpiring)
  | r => h.flag r

def message (cfg : Config) (h : Host) : Rule → String
  | .hostOffline => s!"{h.host} is offline"
  | .diskCritical =>
    let t := thr Value.toInt 90 (cfg.rules .diskCritical)
    s!"{h.host} disk at {h.disk.getD 0}% (≥ {t}%)"
  | .memHigh =>
    let t := thr Value.toInt 90 (cfg.rules .memHigh)
    s!"{h.host} memory at {h.mem.getD 0}% (≥ {t}%)"
  | .loadHigh =>
    let t := py.shown (thr (Value.toFloat py) 8 (cfg.rules .loadHigh))
    s!"{h.host} load {py.shown (h.load1.getD 0)} (≥ {t})"
  | .failedUnits => s!"{h.host} has {h.failed.getD 0} failed unit(s)"
  | .oomEvents => s!"{h.host} had {h.oom.getD 0} OOM kill(s)"
  | .updatesPending => s!"{h.host} has {h.total.getD 0} pending update(s)"
  | .securityUpdates => s!"{h.host} has {h.security.getD 0} pending security update(s)"
  | .rebootRequired => s!"{h.host} requires a reboot"
  | .certExpiring => s!"{h.host} TLS cert expires in {h.certDays.getD 0} day(s)"
  | .firewallDisabled => s!"{h.host}: no firewall configured"
  | .firewallFailedToStart => s!"{h.host}: firewall is enabled at boot but is not running"
  | .macNotEnforcing => s!"{h.host}: SELinux/AppArmor not enforcing"
  | .sshRootLogin => s!"{h.host}: SSH root login enabled"
  | .timeUnsynced => s!"{h.host}: clock not synchronized"

def ruleFiring (cfg : Config) (h : Host) (r : Rule) : Firing :=
  ⟨h.id ++ "|" ++ r.name, h.id, h.host, r.name, message py cfg h r⟩

def evaluateRules (cfg : Config) (hosts : List Host) : List Firing :=
  hosts.flatMap fun h => Rule.all.flatMap fun r =>
    if (cfg.rules r).enabled ∧ meets py cfg h r then [ruleFiring py cfg h r] else []

/-! ### What an iteration sees of the hosts -/

structure CachedUpdates where
  id : String
  security : Option ℤ
  total : Option ℤ
  reboot : Option Bool

structure CachedPosture where
  id : String
  flags : Rule → Option Bool
  nearestDays : Option Value

/-- What a command that was sent to a host came back with. -/
structure Dispatched where
  error : Option String
  stdout : String
  stderr : String

/-- The outcomes of all that one iteration asks for: the two listings, the second look at the
agents, the fields of the metrics line a host printed, the caches and the custom commands. -/
structure Outcomes where
  agents : Option Agents
  ssh : Option SshHosts
  lastSeen : String → Option ℚ
  now : ℚ
  metrics : Entry → Option (String → Option String)
  updates : List CachedUpdates
  posture : List CachedPosture
  customAgents : Option Agents
  customSsh : Option SshHosts
  command : CustomRule → Entry → Dispatched
  aborts : Bool

variable (o : Outcomes)

def agentIdOf : Entry → Option String
  | .plain e => if e.kind = .agent then some e.id else none
  | .merged _ a _ => some a.id

/-- Whether the agent was heard of lately; no value for a host without one. -/
def heard (e : Entry) : Option Bool :=
  (agentIdOf e).map fun aid => (o.lastSeen aid).any fun ls => ls ≠ 0 ∧ o.now - ls ≤ 20

def snapshot (e : Entry) : Option (String → Option String) :=
  if heard o e = some false then none else o.metrics e

def intField (name : String) (d : String → Option String) : Option ℤ :=
  (d name).bind fun s => pyInt s.toList

def floatField (name : String) (d : String → Option String) : Option ℚ :=
  (d name).bind py.float

def updatesOf (e : Entry) : Option CachedUpdates :=
  (o.updates.filter fun u => u.id = e.id).getLast?

def postureOf (e : Entry) : Option CachedPosture :=
  (o.posture.filter fun p => p.id = e.id).getLast?

def certDaysOf (e : Entry) : Option ℤ :=
  ((postureOf o e).bind CachedPosture.nearestDays).bind fun v =>
    if v = .null ∨ v = .text "" then none else v.toInt

/-- One host of `_alerts_gather_hosts`. -/
def gatherHost (e : Entry) : Host :=
  { id := e.id
    host := e.label
    online := if (snapshot o e).isSome then some true else heard o e
    disk := (snapshot o e).bind (intField "disk")
    mem := (snapshot o e).bind (intField "mem")
    load1 := (snapshot o e).bind (floatField py "load1")
    failed := (snapshot o e).map fun d => (intField "failed" d).getD 0
    oom := (snapshot o e).map fun d => (intField "oom" d).getD 0
    security := (updatesOf o e).bind CachedUpdates.security
    total := (updatesOf o e).bind CachedUpdates.total
    reboot := (updatesOf o e).bind CachedUpdates.reboot
    certDays := certDaysOf o e
    flag := fun r => ((postureOf o e).bind fun p => p.flags r) = some true }

def gatherHosts : List Host := (listMergedHosts o.agents o.ssh false).map (gatherHost py o)

def orElse (s default : String) : String := if s = "" then default else s

/-- The reason a custom rule fires for, on the output of its command. -/
def customMatch (rule : CustomRule) (output : String) : Option String :=
  match py.search rule.regex output with
  | none => none
  | some found =>
    if rule.absent then
      if found = none then some "(expected pattern not found)" else none
    else found.map fun m => String.ofList (m.toList.take 200)

def CustomRule.active (r : CustomRule) : Bool := r.enabled && r.command ≠ "" && r.regex ≠ ""

def customFiring (r : CustomRule) (e : Entry) (why : String) : Firing :=
  let name := orElse r.name "custom"
  ⟨e.id ++ "|" ++ ("custom:" ++ r.id), e.id, e.label, name, s!"{e.label}: {name} — {why}"⟩

def evalCustomRules (cfg : Config) : List Firing :=
  (cfg.custom.filter CustomRule.active).flatMap fun r =>
    (listMergedHosts o.customAgents o.customSsh false).flatMap fun e =>
      let res := o.command r e
      match customMatch py r (res.stdout ++ "\n" ++ res.stderr) with
      | none => []
      | some why =>
        if why = "" then [] else [customFiring r e why]

end AlertRules
