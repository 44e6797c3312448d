import SysibleController.EarlyExit
import SysibleController.PastTrace
import SysibleController.PythonText
import Mathlib.Data.Finset.Sort
import Mathlib.Data.String.Basic

/-! Rolling maintenance across a pool (`webgui/rolling.py`).

The callables of a run are an oracle that may answer by everything it was asked before, so
a member's health can change at any moment. A run leaves the history of its calls with the
answers; time stamps of events and the `on_event` observer are left out. -/
namespace Rolling

open EarlyExit PastTrace

inductive Phase where
  | drain
  | act
  | settle
  | health
  | undrain
  deriving DecidableEq

inductive RunState where
  | ok
  | failed
  | refused
  | cancelled
  deriving DecidableEq

inductive Status where
  | ok
  | error

structure Event where
  host : String
  phase : Phase
  status : Status
  detail : String

inductive Call where
  | on (phase : Phase) (host : String)
  | cancelled
  deriving DecidableEq

inductive Answer where
  | returned (ok : Bool) (detail : String)
  | raised (error : String)
  deriving DecidableEq

/-- A callable that raises has failed (`_safe`, and `stop_requested` for a poll). -/
def Answer.ok : Answer → Bool
  | .returned ok _ => ok
  | .raised _ => false

def Answer.detail : Answer → String
  | .returned _ detail => detail
  | .raised error => error

structure Exchange where
  call : Call
  answer : Answer
  deriving DecidableEq

abbrev History := List Exchange

/-- `settle` and `cancelled` may be missing. -/
structure Callables where
  reply : History → Call → Answer
  hasSettle : Bool
  hasCancelled : Bool

/-- `drained` belongs to the current group, the other fields to the run. -/
structure State where
  history : History
  events : List Event
  healthyNow : Finset String
  leftDrained : Finset String
  done : List String
  drained : List String

def State.emit (s : State) (host : String) (phase : Phase) (ok : Bool) (detail : String) : State :=
  { s with events := s.events ++ [⟨host, phase, if ok then .ok else .error, detail⟩] }

def State.record (s : State) (c : Call) (a : Answer) : State :=
  { s with history := s.history ++ [⟨c, a⟩] }

variable (pool : Callables)

def ask (c : Call) (s : State) : Answer × State :=
  let a := pool.reply s.history c
  (a, s.record c a)

/-- A call under `_safe` and the event that reports it. -/
def attempt (p : Phase) (host : String) (s : State) : Answer × State :=
  let (a, s) := ask pool (.on p host) s
  (a, s.emit host p a.ok a.detail)

def stopRequested (s : State) : Bool × State :=
  if pool.hasCancelled then
    let (a, s) := ask pool .cancelled s
    (a.ok, s)
  else (false, s)

/-! ### Before the run -/

/-- Item assignment of a dict: a known key keeps its place. -/
def setState (states : List (String × Bool)) (host : String) (ok : Bool) : List (String × Bool) :=
  if states.any (·.1 = host) then states.map fun e => if e.1 = host then (host, ok) else e
  else states ++ [(host, ok)]

def askHealth : List String → List (String × Bool) → State → List (String × Bool) × State
  | [], states, s => (states, s)
  | h :: rest, states, s =>
    let (a, s) := ask pool (.on .health h) s
    askHealth rest (setState states h a.ok) s

def healthyOf (states : List (String × Bool)) : List String :=
  (states.filter (·.2)).map (·.1)

/-- The reason to refuse, or `none`. -/
def preflight (members : List String) (allowDegraded : Bool) (states : List (String × Bool)) :
    Option String :=
  let healthy := healthyOf states
  if members.isEmpty then some "the pool has no members"
  else if healthy.isEmpty then
    some ("no member of this pool is healthy — there is nothing to roll " ++
      "through, and draining one would take the pool to zero")
  else if healthy.length < members.length && !allowDegraded then
    let down := ", ".intercalate (members.filter fun h => !healthy.contains h)
    let short := members.length - healthy.length
    some (s!"{short} of {members.length} members are already unhealthy ({down}). " ++
      "Rolling through a degraded pool is how one down node becomes none up — fix them, " ++
      "or start the run with 'proceed while degraded'.")
  else none

def chunks (n : ℕ) : ℕ → List String → List (List String)
  | 0, _ => []
  | _, [] => []
  | fuel + 1, h :: t => (h :: t).take n :: chunks n fuel ((h :: t).drop n)

def batches (members : List String) (maxUnavailable : ℤ) : List (List String) :=
  chunks (max 1 maxUnavailable).toNat members.length members

/-! ### One group -/

/-- Why a group stopped, and whom `bail` leaves out. -/
structure Stop where
  detail : String
  blamed : List String
  state : RunState

def cancelStop : Stop := ⟨"cancelled by the operator", [], .cancelled⟩

def failure (p : Phase) (host detail : String) : Stop :=
  match p with
  | .drain => ⟨s!"{host}: could not be taken out of rotation — {detail}", [], .failed⟩
  | .act => ⟨s!"{host}: the maintenance action failed — {detail}. It has been LEFT OUT of rotation.",
      [host], .failed⟩
  | .settle => ⟨s!"{host}: never came back after the action — {detail}. " ++
      "It has been LEFT OUT of rotation.", [host], .failed⟩
  | .health => ⟨s!"{host}: did not come back healthy — {detail}. " ++
      "It has been LEFT OUT of rotation.", [host], .failed⟩
  | .undrain => ⟨s!"{host}: patched and healthy, but could NOT be returned to rotation — {detail}. " ++
      "The pool is one member short.", [host], .failed⟩

def afterOk (p : Phase) (host : String) (s : State) : State :=
  match p with
  | .drain => { s with
      healthyNow := s.healthyNow.erase host
      leftDrained := insert host s.leftDrained
      drained := s.drained ++ [host] }
  | .undrain => { s with
      leftDrained := s.leftDrained.erase host
      healthyNow := insert host s.healthyNow
      done := s.done ++ [host] }
  | _ => s

/-- One member in one phase; only the action is preceded by a poll for cancellation. -/
def visit (p : Phase) (s : State) (host : String) : Except (Stop × State) State :=
  let (stop, s) := if p = .act then stopRequested pool s else (false, s)
  if stop then .error (cancelStop, s)
  else
    let (a, s) := attempt pool p host s
    if a.ok then .ok (afterOk p host s) else .error (failure p host a.detail, s)

def runPhase (p : Phase) (hosts : List String) (s : State) : Except (Stop × State) State :=
  hosts.foldlM (visit pool p) s

def settlePhase (s : State) : Except (Stop × State) State :=
  if pool.hasSettle then runPhase pool .settle s.drained s else .ok s

/-- The group moves through the phases together. -/
def rollGroup (group : List String) (s : State) : Except (Stop × State) State := do
  let s ← runPhase pool .drain group { s with drained := [] }
  let s ← runPhase pool .act s.drained s
  let s ← settlePhase pool s
  let s ← runPhase pool .health s.drained s
  runPhase pool .undrain s.drained s

/-- What `bail` does with one member of the group. -/
def putBack (blamed : List String) (s : State) (h : String) : State :=
  if h ∈ blamed then s
  else
    let (a, s) := attempt pool .health h s
    if !a.ok then s
    else
      let (a, s) := attempt pool .undrain h s
      if a.ok then
        { s with leftDrained := s.leftDrained.erase h, healthyNow := insert h s.healthyNow }
      else s

def bail (stop : Stop) (s : State) : State :=
  s.drained.foldl (putBack pool stop.blamed) s

/-! ### The run -/

structure Ending where
  state : RunState
  detail : String
  final : State

/-- Rule 1 and the group itself; `next` rolls the groups after it. -/
def rollNext (minHealthy : ℤ) (group : List String) (next : State → Ending) (s : State) : Ending :=
  let taking := group.filter (· ∈ s.healthyNow)
  let left : ℤ := s.healthyNow.card - taking.length
  if left < minHealthy then
    let names := ", ".intercalate group
    let why := s!"draining {names} would leave {left} healthy member(s), below the " ++
      s!"{minHealthy} this pool must keep serving"
    ⟨.failed, why, s.emit (group.headD "") .drain false why⟩
  else
    match rollGroup pool group s with
    | .ok s => next s
    | .error (stop, s) => ⟨stop.state, stop.detail, bail pool stop s⟩

def rollGroups (members : List String) (minHealthy : ℤ) : List (List String) → State → Ending
  | [], s => ⟨.ok, s!"{s.done.length} of {members.length} member(s) rolled", s⟩
  | group :: groups, s =>
    let (stop, s) := stopRequested pool s
    if stop then ⟨.cancelled, "cancelled by the operator", s⟩
    else rollNext pool minHealthy group (rollGroups members minHealthy groups) s

structure Settings where
  members : List String
  maxUnavailable : ℤ
  allowDegraded : Bool
  minHealthy : ℤ

def roll (cfg : Settings) : Ending :=
  let (states, s) := askHealth pool cfg.members [] ⟨[], [], ∅, ∅, [], []⟩
  match preflight cfg.members cfg.allowDegraded states with
  | some why => ⟨.refused, why, s.emit "" .drain false why⟩
  | none => rollGroups pool cfg.members cfg.minHealthy (batches cfg.members cfg.maxUnavailable)
      { s with healthyNow := (healthyOf states).toFinset }

structure Result where
  state : RunState
  detail : String
  done : List String
  members : List String
  drained : List String
  skipped : List String
  events : List Event

def result (members : List String) (e : Ending) : Result :=
  { state := e.state
    detail := e.detail
    done := e.final.done
    members := members
    drained := e.final.leftDrained.sort
    skipped := members.filter fun m => m ∉ e.final.done && m ∉ e.final.leftDrained
    events := e.final.events }

def run (cfg : Settings) : Result := result cfg.members (roll pool cfg)

end Rolling
