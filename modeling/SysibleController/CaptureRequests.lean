import SysibleController.CallMachine
import Mathlib.Data.Int.Notation

/-! Captures that an operator asks for and an agent collects with its next poll
(`request_config_capture`, `request_restore_point` and `agent_config_restores` in
`backend/app.py`). A poll asks Flashback first, and Flashback may be down. -/
namespace CaptureRequests

open TransitionSystem PastTrace

/-- A snapshot of the configuration, or a restore point of the whole machine. -/
inductive Kind where
  | capture
  | point
  deriving DecidableEq

/-- `_CAPTURE_REQUESTS` and `_POINT_REQUESTS`. -/
structure Parked where
  capture : List String
  point : List String
  deriving DecidableEq

def Parked.of (s : Parked) : Kind → List String
  | .capture => s.capture
  | .point => s.point

def add (host : String) (hosts : List String) : List String := hosts.insert host

def discard (host : String) (hosts : List String) : List String := hosts.filter (· ≠ host)

def park (s : Parked) (kind : Kind) (host : String) : Parked :=
  match kind with
  | .capture => { s with capture := add host s.capture }
  | .point => { s with point := add host s.point }

/-- `known` is `agent_exists`; `restores` is what Flashback answers, `none` a failure, which the
agent is shown as a 503. -/
inductive Call where
  | request (kind : Kind) (host : String) (known : Bool)
  | poll (host : String) (restores : Option (List ℤ))

inductive Event where
  | queued (kind : Kind) (host : String)
  | unknownHost (host : String)
  | unavailable (host : String)
  | handed (host : String) (restores : List ℤ) (capture point : Bool)
  deriving DecidableEq

def act (s : Parked) : Call → Event × Parked
  | .request kind host known =>
    if known then (.queued kind host, park s kind host) else (.unknownHost host, s)
  | .poll host none => (.unavailable host, s)
  | .poll host (some restores) =>
    (.handed host restores (host ∈ s.capture) (host ∈ s.point),
      ⟨discard host s.capture, discard host s.point⟩)

abbrev machine : Machine Parked Event := ofCalls ⟨[], []⟩ act

/-- A host has collected what was parked for it. -/
def Collects (host : String) : Event → Prop
  | .handed h _ _ _ => h = host
  | _ => False

def Awaits (kind : Kind) (host : String) (es : List Event) : Prop :=
  Since (fun e => ¬Collects host e) (fun e => e = .queued kind host) es

variable {s : Parked} {es : List Event} {host : String} {kind : Kind}

@[simp] theorem mem_discard {h : String} {hosts : List String} :
    host ∈ discard h hosts ↔ host ∈ hosts ∧ host ≠ h := by simp [discard]

theorem mem_park (s : Parked) (k : Kind) (h : String) :
    host ∈ (park s k h).of kind ↔ (kind = k ∧ host = h) ∨ host ∈ s.of kind := by
  cases k <;> cases kind <;> simp [park, Parked.of, add]

theorem mem_act (c : Call) :
    host ∈ (act s c).2.of kind ↔
      (act s c).1 = .queued kind host ∨ host ∈ s.of kind ∧ ¬Collects host (act s c).1 := by
  cases c with
  | request k h known =>
    cases known with
    | true =>
      simp only [act, if_true, mem_park, Event.queued.injEq, Collects, not_false_eq_true, and_true]
      rw [eq_comm (a := kind), eq_comm (a := host)]
    | false => simp [act, Collects]
  | poll h restores =>
    cases restores with
    | none => simp [act, Collects]
    | some rs => cases kind <;> simp [act, Parked.of, Collects, eq_comm]

/-- A request is parked exactly while the host has not collected since it was made. -/
theorem parked_iff (h : machine.Run ⟨[], []⟩ es s) (kind : Kind) (host : String) :
    host ∈ s.of kind ↔ Awaits kind host es := by
  refine ofCalls_history (fun es s => host ∈ s.of kind ↔ Awaits kind host es) h ?_ ?_
  · cases kind <;> simp [Parked.of, Awaits, Since]
  · intro es s c _ ih
    rw [mem_act, ih, Awaits, Awaits, since_snoc]

/-- Every collection tells the host exactly what has been asked of it since the one before:
a request is handed over once, to its own host, as what it was, and a poll that Flashback fails
loses nothing. -/
theorem handed_over_once (h : machine.Run ⟨[], []⟩ es s) :
    AtEach (fun past e => ∀ host restores capture point,
      e = .handed host restores capture point →
      (capture = true ↔ Awaits .capture host past) ∧
      (point = true ↔ Awaits .point host past)) es := by
  refine ofCalls_atEach _ h fun past t c run host restores capture point he => ?_
  rw [← parked_iff run, ← parked_iff run]
  cases c with
  | request k h known => cases known <;> simp [act] at he
  | poll h rs =>
    cases rs with
    | none => simp [act] at he
    | some rs =>
      simp only [act, Event.handed.injEq] at he
      obtain ⟨rfl, -, rfl, rfl⟩ := he
      simp [Parked.of]

/-- Flashback is down at the first poll; the second collects, the third finds nothing. -/
def retried : List Call :=
  [.request .point "web" true, .poll "web" none, .poll "db" (some []), .poll "web" (some [4]),
   .poll "web" (some [])]

theorem handed_over_once_retried :
    (perform act ⟨[], []⟩ retried).1 =
      [.queued .point "web", .unavailable "web", .handed "db" [] false false,
        .handed "web" [4] false true, .handed "web" [] false false] ∧
    AtEach (fun past e => ∀ host restores capture point,
      e = .handed host restores capture point →
      (capture = true ↔ Awaits .capture host past) ∧
      (point = true ↔ Awaits .point host past)) (perform act ⟨[], []⟩ retried).1 :=
  ⟨by decide, handed_over_once (perform_run _ act ⟨[], []⟩ retried)⟩

end CaptureRequests
