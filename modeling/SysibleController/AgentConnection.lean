import SysibleController.TransitionSystem
import SysibleController.PastTrace
import SysibleController.PythonStrip
import Mathlib.Data.List.Rotate
import Mathlib.Data.Rat.Defs
import Mathlib.Algebra.Order.Ring.Rat
import Mathlib.Logic.Function.Basic

/-! How the threads of an agent reach a controller listed under several addresses (`_request`,
`_note_conn_result` and `_current_poll_delay` in `host_agent/agent.py`). The loops for tasks,
heartbeats, metrics and backups share the address that answered last and the count of failed
rounds; their attempts interleave. -/
namespace AgentConnection

open TransitionSystem PastTrace

variable {τ : Type} [DecidableEq τ]

/-- `_CONTROLLER_CANDIDATES`, from `SYSIBLE_CONTROLLER`. -/
def controllerCandidates (env : String) : List String :=
  let listed := (env.toList.splitOn ',').map fun c => PythonText.strip (String.ofList c)
  match listed.filter (· ≠ "") with
  | [] => ["https://127.0.0.1:9000"]
  | c :: cs => c :: cs

/-- A call of `_request` under way: where in the list it began and how many attempts are over. -/
structure Attempt where
  start : ℕ
  offset : ℕ
  deriving DecidableEq

structure Agent (τ : Type) where
  controller : String
  failCount : ℕ
  trying : τ → Option Attempt

def startIndex (candidates : List String) (controller : String) : ℕ :=
  if controller ∈ candidates then candidates.idxOf controller else 0

/-- The candidate of the next attempt; none when the list has been gone round. -/
def Attempt.next (candidates : List String) (p : Attempt) : Option String :=
  if p.offset < candidates.length then candidates[(p.start + p.offset) % candidates.length]?
  else none

/-- `unreachable` is a `ConnectionError` or a `Timeout`; any other exception is `raised` at once. -/
inductive Event (τ : Type) where
  | began (t : τ)
  | unreachable (t : τ) (candidate : String)
  | answered (t : τ) (candidate : String)
  | raised (t : τ)
  | gaveUp (t : τ)
  deriving DecidableEq

def Enabled (candidates : List String) (a : Agent τ) : Event τ → Prop
  | .began t => a.trying t = none
  | .unreachable t c | .answered t c => ((a.trying t).bind (·.next candidates)) = some c
  | .raised t => (a.trying t).isSome
  | .gaveUp t => (a.trying t).isSome ∧ ((a.trying t).bind (·.next candidates)) = none

instance (candidates : List String) (a : Agent τ) (e : Event τ) :
    Decidable (Enabled candidates a e) := by
  cases e <;> simp only [Enabled] <;> infer_instance

def Agent.set (a : Agent τ) (t : τ) (p : Option Attempt) : Agent τ :=
  { a with trying := Function.update a.trying t p }

def noteConnResult (ok : Bool) (failCount : ℕ) : ℕ := if ok then 0 else min (failCount + 1) 20

def next (candidates : List String) (a : Agent τ) : Event τ → Agent τ
  | .began t => a.set t (some ⟨startIndex candidates a.controller, 0⟩)
  | .unreachable t _ => a.set t ((a.trying t).map fun p => ⟨p.start, p.offset + 1⟩)
  | .answered t c =>
    { a.set t none with controller := c, failCount := noteConnResult true a.failCount }
  | .raised t => a.set t none
  | .gaveUp t => { a.set t none with failCount := noteConnResult false a.failCount }

def initial (candidates : List String) : Agent τ := ⟨candidates.headD "", 0, fun _ => none⟩

def machine (τ : Type) [DecidableEq τ] (candidates : List String) :
    Machine (Agent τ) (Event τ) where
  start := initial candidates
  step a e b := Enabled candidates a e ∧ b = next candidates a e

def answeredBy : Event τ → Option String
  | .answered _ c => some c
  | _ => none

/-- The address that answered last, whichever thread had asked; at first the first listed. -/
def preferred (candidates : List String) (es : List (Event τ)) : String :=
  ((es.filterMap answeredBy).getLast?).getD (candidates.headD "")

/-- The candidates a thread has found unreachable. -/
def refusals (t : τ) (es : List (Event τ)) : List String :=
  es.filterMap fun
    | .unreachable u c => if u = t then some c else none
    | _ => none

/-- Once round the list from an address. -/
def roundFrom (candidates : List String) (first : String) : List String :=
  candidates.rotate (candidates.idxOf first)

/-- The thread's present call began after `before` and has seen `during`. -/
def Since (t : τ) (before during past : List (Event τ)) : Prop :=
  past = before ++ .began t :: during ∧ .began t ∉ during

variable {candidates : List String} {a : Agent τ} {es : List (Event τ)}

theorem controllerCandidates_ne_nil (env : String) : controllerCandidates env ≠ [] := by
  unfold controllerCandidates
  dsimp only
  split <;> simp

/-- What a call under way has behind it. -/
def Progress (candidates : List String) (t : τ) (p : Attempt) (past : List (Event τ)) : Prop :=
  ∃ before during, Since t before during past ∧
    p.start = candidates.idxOf (preferred candidates before) ∧
    refusals t during = (roundFrom candidates (preferred candidates before)).take p.offset

structure Tracks (candidates : List String) (past : List (Event τ)) (a : Agent τ) : Prop where
  controller : a.controller = preferred candidates past
  listed : a.controller ∈ candidates
  trying : ∀ t p, a.trying t = some p → Progress candidates t p past

omit [DecidableEq τ] in
theorem preferred_snoc (past : List (Event τ)) (e : Event τ) :
    preferred candidates (past ++ [e]) =
      (answeredBy e).getD (preferred candidates past) := by
  unfold preferred
  rw [List.filterMap_append]
  cases h : answeredBy e <;> simp [h]

theorem refusals_snoc (t : τ) (past : List (Event τ)) (e : Event τ) :
    refusals t (past ++ [e]) = refusals t past ++ refusals t [e] := List.filterMap_append

/-- The attempts follow the list round. -/
theorem Attempt.next_eq {p : Attempt} {first : String} (hp : p.start = candidates.idxOf first) :
    p.next candidates = (roundFrom candidates first)[p.offset]? := by
  unfold Attempt.next roundFrom
  split_ifs with hoff
  · rw [List.getElem?_rotate hoff, hp, Nat.add_comm]
  · rw [List.getElem?_eq_none (by rw [List.length_rotate]; exact not_lt.mp hoff)]

/-- What another thread does leaves a call under way as it was. -/
theorem Progress.frame {t : τ} {p : Attempt} {past : List (Event τ)} {e : Event τ}
    (h : Progress candidates t p past) (hbegan : e ≠ .began t) (hquiet : refusals t [e] = []) :
    Progress candidates t p (past ++ [e]) := by
  obtain ⟨before, during, ⟨rfl, hduring⟩, hstart, hrefused⟩ := h
  refine ⟨before, during ++ [e], ⟨by simp, ?_⟩, hstart, ?_⟩
  · simpa using ⟨hduring, hbegan.symm⟩
  · rw [refusals_snoc, hquiet, List.append_nil, hrefused]

theorem Progress.refused {t : τ} {p : Attempt} {past : List (Event τ)} {c : String}
    (h : Progress candidates t p past) (hc : p.next candidates = some c) :
    Progress candidates t ⟨p.start, p.offset + 1⟩ (past ++ [.unreachable t c]) := by
  obtain ⟨before, during, ⟨rfl, hduring⟩, hstart, hrefused⟩ := h
  refine ⟨before, during ++ [.unreachable t c], ⟨by simp, by simpa using hduring⟩, hstart, ?_⟩
  rw [Attempt.next_eq hstart] at hc
  rw [refusals_snoc, hrefused, List.take_add_one, hc]
  simp [refusals]

theorem mem_of_next {p : Attempt} {c : String} (h : p.next candidates = some c) :
    c ∈ candidates := by
  unfold Attempt.next at h
  split_ifs at h
  exact List.mem_of_getElem? h

theorem trying_set {t u : τ} {p : Option Attempt} :
    (a.set u p).trying t = if t = u then p else a.trying t := by
  simp [Agent.set, Function.update_apply]

/-- A call under way after an event: the event began it, or refused it, or was another thread's. -/
theorem trying_next {e : Event τ} {t : τ} {p : Attempt} (henabled : Enabled candidates a e)
    (h : (next candidates a e).trying t = some p) :
    e = .began t ∧ p = ⟨startIndex candidates a.controller, 0⟩ ∨
      (∃ q c, e = .unreachable t c ∧ a.trying t = some q ∧ q.next candidates = some c ∧
        p = ⟨q.start, q.offset + 1⟩) ∨
      (a.trying t = some p ∧ e ≠ .began t ∧ refusals t [e] = []) := by
  cases e with
  | began u =>
    change (a.set u _).trying t = some p at h
    rw [trying_set] at h
    split_ifs at h with htu
    · exact Or.inl ⟨by rw [htu], (Option.some.inj h).symm⟩
    · exact Or.inr (Or.inr ⟨h, by simpa using Ne.symm htu, rfl⟩)
  | unreachable u c =>
    change (a.set u _).trying t = some p at h
    rw [trying_set] at h
    split_ifs at h with htu
    · subst htu
      obtain ⟨q, hq, hnext⟩ := Option.bind_eq_some_iff.mp henabled
      rw [hq] at h
      exact Or.inr (Or.inl ⟨q, c, rfl, hq, hnext, (Option.some.inj h).symm⟩)
    · exact Or.inr (Or.inr ⟨h, by simp, by simp [refusals, Ne.symm htu]⟩)
  | answered u _ | raised u | gaveUp u =>
    change (a.set u none).trying t = some p at h
    rw [trying_set] at h
    split_ifs at h with htu
    exact Or.inr (Or.inr ⟨h, by simp, rfl⟩)

theorem tracks_next {e : Event τ} (h : Tracks candidates es a)
    (henabled : Enabled candidates a e) :
    Tracks candidates (es ++ [e]) (next candidates a e) := by
  refine ⟨?_, ?_, fun t p hp => ?_⟩
  · rw [preferred_snoc, ← h.controller]
    cases e <;> rfl
  · cases e with
    | answered t c =>
      obtain ⟨p, -, hnext⟩ := Option.bind_eq_some_iff.mp henabled
      exact mem_of_next hnext
    | began t | unreachable t c | raised t | gaveUp t => exact h.listed
  · rcases trying_next henabled hp with ⟨rfl, rfl⟩ | ⟨q, c, rfl, hq, hnext, rfl⟩ | ⟨hq, hb, hr⟩
    · refine ⟨es, [], ⟨rfl, List.not_mem_nil⟩, ?_, by simp [refusals]⟩
      rw [startIndex, if_pos h.listed, h.controller]
    · exact (h.trying t q hq).refused hnext
    · exact (h.trying t p hq).frame hb hr

variable {env : String}

theorem tracks_run
    (h : (machine τ (controllerCandidates env)).Run (initial (controllerCandidates env)) es a) :
    Tracks (controllerCandidates env) es a := by
  refine h.history (P := Tracks _) ?_ fun es a e b _ st ht => ?_
  · refine ⟨rfl, ?_, fun t p hp => by cases hp⟩
    have hne := controllerCandidates_ne_nil env
    cases hcs : controllerCandidates env with
    | nil => exact absurd hcs hne
    | cons c cs => exact List.mem_cons_self
  · obtain ⟨henabled, rfl⟩ := st
    exact tracks_next ht henabled

/-- However the threads interleave, a call that is answered has asked, in the order of the list and
round its end, from the address that answered last before the call began up to the one that
answers, each once; a call gives up only when it has gone round the whole list. -/
theorem goes_round
    (h : (machine τ (controllerCandidates env)).Run (initial (controllerCandidates env)) es a) :
    AtEach (fun past e => ∀ t,
      (∀ c, e = .answered t c → ∃ before during, Since t before during past ∧
        refusals t during ++ [c] <+:
          roundFrom (controllerCandidates env) (preferred (controllerCandidates env) before)) ∧
      (e = .gaveUp t → ∃ before during, Since t before during past ∧
        refusals t during =
          roundFrom (controllerCandidates env) (preferred (controllerCandidates env) before)))
      es := by
  refine h.history (P := fun es _ => AtEach _ es) (fun _ _ _ hx => by simp at hx) ?_
  rintro es a e b run ⟨henabled, rfl⟩ ih
  refine atEach_snoc.mpr ⟨ih, fun t => ⟨?_, ?_⟩⟩
  · rintro c rfl
    obtain ⟨p, hp, hnext⟩ := Option.bind_eq_some_iff.mp henabled
    obtain ⟨before, during, hsince, hstart, hrefused⟩ := (tracks_run run).trying t p hp
    refine ⟨before, during, hsince, ?_⟩
    rw [Attempt.next_eq hstart] at hnext
    have htake := List.take_add_one (l := roundFrom (controllerCandidates env)
      (preferred (controllerCandidates env) before)) (i := p.offset)
    rw [hnext, ← hrefused] at htake
    exact htake ▸ List.take_prefix _ _
  · rintro rfl
    obtain ⟨hsome, hnone⟩ := henabled
    obtain ⟨p, hp⟩ := Option.isSome_iff_exists.mp hsome
    rw [hp] at hnone
    obtain ⟨before, during, hsince, hstart, hrefused⟩ := (tracks_run run).trying t p hp
    refine ⟨before, during, hsince, ?_⟩
    rw [Option.bind_some, Attempt.next_eq hstart] at hnone
    rw [hrefused, List.take_of_length_le (List.getElem?_eq_none_iff.mp hnone)]

/-- The events can follow one another from a state. -/
def Follows (candidates : List String) (a : Agent τ) : List (Event τ) → Prop
  | [] => True
  | e :: es => Enabled candidates a e ∧ Follows candidates (next candidates a e) es

instance decidableFollows (candidates : List String) :
    (a : Agent τ) → (es : List (Event τ)) → Decidable (Follows candidates a es)
  | _, [] => isTrue trivial
  | a, e :: es =>
    have := decidableFollows candidates (next candidates a e) es
    inferInstanceAs (Decidable (Enabled candidates a e ∧ _))

theorem run_of_follows (h : Follows candidates a es) :
    (machine τ candidates).Run a es (es.foldl (next candidates) a) := by
  induction es generalizing a with
  | nil => exact .nil a
  | cons e es ih => exact Machine.Run.cons ⟨h.1, rfl⟩ (ih h.2)

def twoAddresses : String := "https://a:9000, https://b:9000"

/-- The heartbeat's call finds the second address while the task loop is still at the first; the
next call begins at the second, and a later one gives up. -/
def switching : List (Event Bool) :=
  [.began true, .began false, .unreachable true "https://a:9000",
    .answered true "https://b:9000", .unreachable false "https://a:9000", .began true,
    .answered false "https://b:9000", .unreachable true "https://b:9000",
    .unreachable true "https://a:9000", .gaveUp true]

theorem goes_round_switching :
    AtEach (fun past e => ∀ t,
      (∀ c, e = .answered t c → ∃ before during, Since t before during past ∧
        refusals t during ++ [c] <+: roundFrom (controllerCandidates twoAddresses)
          (preferred (controllerCandidates twoAddresses) before)) ∧
      (e = .gaveUp t → ∃ before during, Since t before during past ∧
        refusals t during = roundFrom (controllerCandidates twoAddresses)
          (preferred (controllerCandidates twoAddresses) before)))
      switching :=
  goes_round (run_of_follows (by decide +kernel))

/-- `POLL_INTERVAL` and `CONN_BACKOFF_MAX`. -/
structure Pace where
  pollInterval : ℚ
  connBackoffMax : ℚ

def currentPollDelay (pace : Pace) (failCount : ℕ) : ℚ :=
  if failCount ≤ 0 then pace.pollInterval
  else min (pace.pollInterval * 2 ^ min failCount 8) pace.connBackoffMax

/-- The calls that gave up since one was answered. -/
def fruitless (es : List (Event τ)) : ℕ :=
  es.foldl (fun n e => match e with
    | .answered _ _ => 0
    | .gaveUp _ => n + 1
    | .began _ | .unreachable _ _ | .raised _ => n) 0

theorem failCount_run (h : (machine τ candidates).Run (initial candidates) es a) :
    a.failCount = min (fruitless es) 20 := by
  refine h.history (P := fun es a => a.failCount = min (fruitless es) 20) rfl ?_
  rintro es a e b - ⟨-, rfl⟩ ih
  unfold fruitless at ih ⊢
  rw [List.foldl_append]
  cases e with
  | answered t c => rfl
  | gaveUp t =>
    change min (a.failCount + 1) 20 = min (_ + 1) 20
    omega
  | began t | unreachable t c | raised t => exact ih

end AgentConnection
