import Mathlib.Data.String.Basic
import Mathlib.Tactic.Tauto

/-! The admin token of a thread: `_with_token` of the console server over the override slot of
the API client. A body is a finite tree of headers and nested calls; which way it goes on
depends on how its calls end, never on the slot. Each header is recorded beside the token of
the body that built it. -/
namespace TokenScope

/-- `_API_KEY` and `_ADMIN_TOKEN`, which all threads share. -/
structure Client where
  apiKey : Option String
  adminToken : Option String

/-- The thread-local attribute: missing, or set to a token or to `None`. -/
abbrev Slot := Option (Option String)

def setAdminTokenOverride (token : Option String) (_ : Slot) : Slot := some token

def clearAdminTokenOverride (slot : Slot) : Slot :=
  match slot with
  | some _ => none
  | none => none

def effectiveAdminToken (client : Client) (slot : Slot) : Option String := slot.getD client.adminToken

/-- A value that counts as true: neither `None` nor the empty string. -/
def truthy (value : Option String) : Option String := value.filter (· ≠ "")

def headers (client : Client) (slot : Slot) : List (String × String) :=
  ((truthy client.apiKey).map ("X-API-Key", ·)).toList ++
    ((truthy (effectiveAdminToken client slot)).map ("X-Sysible-Admin-Token", ·)).toList

inductive Outcome where
  | returned
  | raised
  deriving DecidableEq

inductive Body where
  | finish
  | raise
  | header (next : Body)
  | within (token : Option String) (fn onReturn onRaise : Body)

/-- A header as it was built, and the token of the body around it. -/
structure Built where
  own : Option String
  header : List (String × String)
  deriving DecidableEq

def Built.token (b : Built) : Option String := b.header.lookup "X-Sysible-Admin-Token"

structure Trail where
  outcome : Outcome
  built : List Built
  slot : Slot
  deriving DecidableEq

/-- `set`, `fn()` and, in the `finally`, `clear`. -/
def withToken (token : Option String) (fn : Slot → Trail) (slot : Slot) : Trail :=
  let t := fn (setAdminTokenOverride token slot)
  { t with slot := clearAdminTokenOverride t.slot }

/-- What was built before what comes next. -/
def Trail.after (t : Trail) (built : List Built) : Trail := { t with built := built ++ t.built }

def run (client : Client) : Body → Option String → Slot → Trail
  | .finish, _, slot => ⟨.returned, [], slot⟩
  | .raise, _, slot => ⟨.raised, [], slot⟩
  | .header next, own, slot => (run client next own slot).after [⟨own, headers client slot⟩]
  | .within token fn onReturn onRaise, own, slot =>
    let t := withToken token (run client fn token) slot
    match t.outcome with
    | .returned => (run client onReturn own t.slot).after t.built
    | .raised => (run client onRaise own t.slot).after t.built

def Body.outcome : Body → Outcome
  | .finish => .returned
  | .raise => .raised
  | .header next => next.outcome
  | .within _ fn onReturn onRaise =>
    match fn.outcome with
    | .returned => onReturn.outcome
    | .raised => onRaise.outcome

/-! ### One header -/

variable {client : Client} {own token : Option String} {slot : Slot} {body fn onReturn onRaise : Body}

/-- A header carries the effective token, unless that is empty. -/
theorem token_headers (own : Option String) :
    (Built.mk own (headers client slot)).token = truthy (effectiveAdminToken client slot) := by
  have hne : ("X-Sysible-Admin-Token" == "X-API-Key") = false := by decide
  unfold Built.token headers
  rw [List.lookup_append]
  cases truthy client.apiKey <;> cases truthy (effectiveAdminToken client slot) <;>
    simp [hne]

@[simp] theorem clearAdminTokenOverride_eq (slot : Slot) : clearAdminTokenOverride slot = none := by
  cases slot <;> rfl

/-- What a thread sends whose body has, or has not yet, seen a nested call end. -/
theorem truthy_eq_self : truthy own = own ↔ own ≠ some "" := by
  cases own with
  | none => simp [truthy]
  | some t => by_cases h : t = "" <;> simp [truthy, Option.filter, h]

/-! ### Whole trees -/

theorem outcome_run (client : Client) (body : Body) :
    ∀ own slot, (run client body own slot).outcome = body.outcome := by
  induction body with
  | finish => exact fun _ _ => rfl
  | raise => exact fun _ _ => rfl
  | header next ih => exact fun own slot => ih own slot
  | within token fn onReturn onRaise ihFn ihReturn ihRaise =>
    intro own slot
    have hfn : (withToken token (run client fn token) slot).outcome = fn.outcome :=
      ihFn token (setAdminTokenOverride token slot)
    unfold run Body.outcome
    dsimp only
    rw [hfn]
    cases fn.outcome with
    | returned => exact ihReturn own _
    | raised => exact ihRaise own _

/-- The slot is gone once a nested call has ended, however it ended. -/
theorem run_within : run client (.within token fn onReturn onRaise) own slot =
    match fn.outcome with
    | .returned => (run client onReturn own none).after (run client fn token (some token)).built
    | .raised => (run client onRaise own none).after (run client fn token (some token)).built := by
  have hfn := outcome_run client fn token (some token)
  rw [run]
  simp only [withToken, setAdminTokenOverride, clearAdminTokenOverride_eq, hfn]

def CarriesOwn (built : List Built) : Prop := ∀ b ∈ built, b.token = b.own

theorem carriesOwn_append {built built' : List Built} :
    CarriesOwn (built ++ built') ↔ CarriesOwn built ∧ CarriesOwn built' := by
  simp [CarriesOwn, or_imp, forall_and]

/-- The condition, along the way a body really takes. Before its first nested call a body may
build headers if its token is not the empty string; after one, only if the shared token is what
it would send. -/
def Undisturbed (client : Client) : Body → Option String → Bool → Prop
  | .finish, _, _ => True
  | .raise, _, _ => True
  | .header next, own, called =>
    (if called then truthy client.adminToken = own else own ≠ some "") ∧
      Undisturbed client next own called
  | .within token fn onReturn onRaise, own, _ =>
    Undisturbed client fn token false ∧
      match fn.outcome with
      | .returned => Undisturbed client onReturn own true
      | .raised => Undisturbed client onRaise own true

/-- The slot of a body that has, or has not yet, seen a nested call end. -/
def slotOf (own : Option String) (called : Bool) : Slot := if called then none else some own

theorem token_headers_slotOf (own : Option String) (called : Bool) :
    (Built.mk own (headers client (slotOf own called))).token = own ↔
      if called then truthy client.adminToken = own else own ≠ some "" := by
  rw [token_headers]
  cases called with
  | true => rfl
  | false => exact truthy_eq_self

theorem carriesOwn_run_iff (client : Client) (body : Body) :
    ∀ own called, CarriesOwn (run client body own (slotOf own called)).built ↔
      Undisturbed client body own called := by
  induction body with
  | finish => simp [run, CarriesOwn, Undisturbed]
  | raise => simp [run, CarriesOwn, Undisturbed]
  | header next ih =>
    intro own called
    rw [run, Trail.after, carriesOwn_append, ih, Undisturbed, ← token_headers_slotOf]
    simp [CarriesOwn]
  | within token fn onReturn onRaise ihFn ihReturn ihRaise =>
    intro own called
    rw [run_within, Undisturbed, ← ihFn token false]
    cases fn.outcome with
    | returned =>
      rw [← ihReturn own true]
      exact carriesOwn_append
    | raised =>
      rw [← ihRaise own true]
      exact carriesOwn_append

/-- Scopes nest: each header carries the token of the body that built it, and the thread is
left without an override. -/
def ScopesNest (t : Trail) : Prop := CarriesOwn t.built ∧ t.slot = none

theorem scopes_nest_iff (client : Client) (token : Option String) (body : Body) (slot : Slot) :
    ScopesNest (withToken token (run client body token) slot) ↔
      Undisturbed client body token false := by
  rw [← carriesOwn_run_iff]
  exact and_iff_left (clearAdminTokenOverride_eq _)

/-- A nested call under the same token, and a header after it: the header goes out bare. -/
theorem token_lost_after_call : ¬ScopesNest (withToken (some "t")
    (run ⟨some "k", none⟩ (.within (some "t") (.header .finish) (.header .finish) .raise)
      (some "t")) none) := by
  intro hs
  have hbare := hs.1 ⟨some "t", [("X-API-Key", "k")]⟩ (by decide)
  exact absurd hbare (by decide)

end TokenScope
