import SysibleController.RollingSuccess
import SysibleController.PythonText

/-! Saved pools (`webgui/pools.py`). What `validate` accepts can be carried out: a run whose
callables always succeed takes every member through, a bounded number at a time. -/
namespace Pools

open EarlyExit PastTrace PythonText Rolling

/-- A value that arrived as JSON, or none. -/
inductive Value where
  | null
  | bool (b : Bool)
  | int (n : ℤ)
  | number (q : ℚ)
  | text (s : String)
  | other
  deriving DecidableEq

/-- `_as_int`. -/
def asInt (v : Value) (default : ℤ) : ℤ :=
  match v with
  | .int n => n
  | .bool b => if b then 1 else 0
  | .number q => PythonInt.truncated q
  | .text s => (PythonInt.pyInt s.toList).getD default
  | .null => default
  | .other => default

/-- `members` is `none` where it is no list. -/
structure Pool where
  name : String
  members : Option (List Value)
  provider : String
  drainCmd : String
  undrainCmd : String
  healthKind : String
  healthTarget : String
  maxUnavailable : Value
  minHealthy : Value
  settleSecs : Value

def maxUnavailableCap : ℤ := 32

def settleCap : ℤ := 3600

def providers : List String := ["none", "command"]

def healthKinds : List String := ["agent", "tcp", "http", "command"]

def orElse (s default : String) : String := if s = "" then default else s

/-- `_NAME_RE`; which characters are word characters is the Unicode database's business. -/
def nameMatches (isWord : Char → Bool) (name : String) : Bool :=
  1 ≤ name.length && name.length ≤ 64 &&
    name.toList.all fun c => isWord c || " .:/+-".toList.contains c

def Value.hostId : Value → Option String
  | .text s => if s = "" then none else some s
  | _ => none

variable (isWord : Char → Bool)

def validateName (p : Pool) : Except String Unit :=
  if nameMatches isWord (strip p.name) then .ok ()
  else .error "a pool needs a name (1-64 chars: letters, digits, space . : / + - _)"

/-- The roll order of a pool whose members are a list of host ids without repetition. -/
def validateMembers (p : Pool) : Except String (List String) := do
  match p.members.bind fun ms => ms.mapM Value.hostId with
  | none => throw "members must be a list of host ids"
  | some members =>
    if ¬members.Nodup then
      let dupes := (members.filter fun m => 1 < members.count m).dedup.insertionSort (· ≤ ·)
      throw ("a host appears more than once in the roll order: " ++ ", ".intercalate dupes)
    if members.length < 2 then
      throw ("a pool needs at least two members — rolling through one host means taking the " ++
        "service down, which is what this exists to avoid")
    return members

def validateProvider (p : Pool) : Except String Unit := do
  let provider := orElse p.provider "none"
  if provider ∉ providers then throw s!"unknown provider '{provider}'"
  if provider = "command" ∧ (strip p.drainCmd = "" ∨ strip p.undrainCmd = "") then
    throw "a custom provider needs both a drain and an undrain command"

def validateHealth (p : Pool) : Except String Unit := do
  let kind := orElse p.healthKind "agent"
  if kind ∉ healthKinds then throw s!"unknown health check '{kind}'"
  if kind ∈ ["tcp", "http", "command"] ∧ strip p.healthTarget = "" then
    throw s!"a {kind} health check needs a target"
  if kind = "tcp" then
    match PythonInt.pyInt (strip p.healthTarget).toList with
    | none => throw "a tcp health check's target is a port number"
    | some port =>
      if ¬(1 ≤ port ∧ port ≤ 65535) then throw "a tcp health check's port must be 1-65535"

def validateLimits (p : Pool) (members : List String) : Except String Unit := do
  let mu := asInt p.maxUnavailable 1
  if mu < 1 ∨ mu > maxUnavailableCap then throw "max_unavailable must be 1-32"
  let mh := asInt p.minHealthy 1
  if mh < 1 then throw "a pool must keep at least one member serving"
  if mu > members.length - mh then
    throw (s!"taking {mu} member(s) out of a {members.length}-member pool would leave " ++
      s!"{(members.length : ℤ) - mu} serving, below the {mh} this pool must keep. " ++
      "Lower max_unavailable, or add members.")
  let settle := asInt p.settleSecs 0
  if settle < 0 ∨ settle > settleCap then throw "settle_secs must be 0-3600"

def validate (p : Pool) : Except String (List String) := do
  validateName isWord p
  let members ← validateMembers p
  validateProvider p
  validateHealth p
  validateLimits p members
  return members

/-- The run of an accepted pool, with the numbers that `create_pool` and `update_pool` store. -/
def plan (p : Pool) (members : List String) (allowDegraded : Bool) : Rolling.Settings :=
  ⟨members, asInt p.maxUnavailable 1, allowDegraded, asInt p.minHealthy 1⟩

variable {isWord} {p : Pool} {members : List String}

theorem validateMembers_nodup (h : validateMembers p = .ok members) : members.Nodup := by
  unfold validateMembers at h
  split at h
  · cases h
  · rename_i ms _
    by_cases hnodup : ms.Nodup
    · by_cases hlen : ms.length < 2
      · simp [hnodup, hlen, throw, throwThe, MonadExceptOf.throw, bind, Except.bind] at h
      · simp only [hnodup, hlen, not_true_eq_false, if_false, pure, Except.pure, bind,
          Except.bind, Except.ok.injEq] at h
        exact h ▸ hnodup
    · simp [hnodup, throw, throwThe, MonadExceptOf.throw, bind, Except.bind] at h

/-- The limits leave enough members serving. -/
theorem validateLimits_floor (h : validateLimits p members = .ok ()) :
    1 ≤ asInt p.maxUnavailable 1 ∧ 1 ≤ asInt p.minHealthy 1 ∧
      asInt p.maxUnavailable 1 ≤ members.length - asInt p.minHealthy 1 := by
  unfold validateLimits at h
  obtain ⟨hmu, h⟩ := guard_ok h
  obtain ⟨hmh, h⟩ := guard_ok h
  obtain ⟨hfloor, -⟩ := guard_ok h
  omega

theorem validate_feasible (h : validate isWord p = .ok members) (allowDegraded : Bool) :
    Feasible (plan p members allowDegraded) := by
  unfold validate at h
  obtain ⟨-, -, h⟩ := bind_ok h
  obtain ⟨ms, hmembers, h⟩ := bind_ok h
  obtain ⟨-, -, h⟩ := bind_ok h
  obtain ⟨-, -, h⟩ := bind_ok h
  obtain ⟨_, hlimits, h⟩ := bind_ok h
  cases h
  obtain ⟨hmu, hmh, hfloor⟩ := validateLimits_floor hlimits
  exact ⟨validateMembers_nodup hmembers, hmu, hmh, hfloor⟩

/-- An accepted pool plan can be carried out. -/
theorem accepted_plan_rolls (isWord : Char → Bool) (p : Pool) (members : List String)
    (hp : validate isWord p = .ok members) (pool : Callables) (hpool : AlwaysSucceeds pool)
    (allowDegraded : Bool) :
    (run pool (plan p members allowDegraded)).state = .ok ∧
      (run pool (plan p members allowDegraded)).done = members ∧
      (run pool (plan p members allowDegraded)).drained = [] ∧
      (run pool (plan p members allowDegraded)).skipped = [] ∧
      OutAtMost (asInt p.maxUnavailable 1)
        (roll pool (plan p members allowDegraded)).final.history := by
  obtain ⟨hstate, hend⟩ := roll_succeeds hpool (validate_feasible hp allowDegraded)
  have hdone : (roll pool (plan p members allowDegraded)).final.done = members := by
    have hroster := hend.roster
    rw [List.flatten_nil, List.append_nil] at hroster
    exact hroster
  refine ⟨hstate, hdone, ?_, ?_, hend.bounded⟩
  · unfold run result
    rw [hend.left]
    simp
  · unfold run result
    rw [hdone, hend.left]
    simp [plan]

def samplePool : Pool where
  name := "web"
  members := some [.text "a", .text "b", .text "c"]
  provider := ""
  drainCmd := ""
  undrainCmd := ""
  healthKind := "tcp"
  healthTarget := "443"
  maxUnavailable := .text "2"
  minHealthy := .null
  settleSecs := .int 30

def succeeding : Callables := ⟨fun _ c => .returned (c ≠ .cancelled) "", true, true⟩

theorem accepted_plan_rolls_sample :
    (run succeeding (plan samplePool ["a", "b", "c"] false)).state = .ok ∧
      (run succeeding (plan samplePool ["a", "b", "c"] false)).done = ["a", "b", "c"] ∧
      (run succeeding (plan samplePool ["a", "b", "c"] false)).drained = [] ∧
      (run succeeding (plan samplePool ["a", "b", "c"] false)).skipped = [] ∧
      OutAtMost 2 (roll succeeding (plan samplePool ["a", "b", "c"] false)).final.history :=
  accepted_plan_rolls Char.isAlphanum samplePool ["a", "b", "c"] (by decide) succeeding
    ⟨fun _ _ _ => by simp [succeeding, Answer.ok], fun _ => by simp [succeeding, Answer.ok]⟩ false

end Pools
