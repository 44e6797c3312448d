import SysibleController.TransitionSystem
import Mathlib.Algebra.GroupWithZero.Nat

/-! Threads over a shared state. A thread is the point it has reached in its code; a step
picks any live thread and lets it take one atomic action, and a call adds a thread at any
time. Nothing bounds how many run at once. -/
namespace Interleaving

open TransitionSystem

variable {σ θ ε : Type*}

structure Pool (σ θ : Type*) where
  shared : σ
  threads : List θ

/-- What a program is: the points a call may enter at, and the atomic actions. An action
without a next point ends its thread. -/
structure Program (σ θ ε : Type*) where
  entry : θ → Prop
  act : σ → θ → ε → σ → Option θ → Prop

inductive Event (θ ε : Type*) where
  | call (th : θ)
  | act (th : θ) (e : ε)

inductive Steps (P : Program σ θ ε) : Pool σ θ → Event θ ε → Pool σ θ → Prop where
  | call {s ts th} : P.entry th → Steps P ⟨s, ts⟩ (.call th) ⟨s, th :: ts⟩
  | act {s s' pre post th th' e} : P.act s th e s' th' →
      Steps P ⟨s, pre ++ th :: post⟩ (.act th e) ⟨s', pre ++ th'.toList ++ post⟩

def Program.machine (P : Program σ θ ε) (s : σ) : Machine (Pool σ θ) (Event θ ε) :=
  ⟨⟨s, []⟩, Steps P⟩

variable {P : Program σ θ ε}

/-- Behind an action stand its own next point and the threads of before. -/
theorem mem_moved {pre post : List θ} (th : θ) {th' : Option θ} {x : θ}
    (hx : x ∈ pre ++ th'.toList ++ post) : x ∈ th' ∨ x ∈ pre ++ th :: post := by
  simp only [List.mem_append, Option.mem_toList, List.mem_cons] at hx ⊢
  tauto

/-! Steps of the newest thread, to write down a run. -/

theorem Steps.first {s s' : σ} {th th' : θ} {ts : List θ} {e : ε}
    (h : P.act s th e s' (some th')) : Steps P ⟨s, th :: ts⟩ (.act th e) ⟨s', th' :: ts⟩ :=
  @Steps.act _ _ _ P s s' [] ts th (some th') e h

theorem Steps.first_ends {s s' : σ} {th : θ} {ts : List θ} {e : ε} (h : P.act s th e s' none) :
    Steps P ⟨s, th :: ts⟩ (.act th e) ⟨s', ts⟩ :=
  @Steps.act _ _ _ P s s' [] ts th none e h

/-- The rule for local assertions: `I` holds of the shared state, `L` of it and each live
thread. An action must keep `I`, re-establish `L` for its own thread and keep it for every
other; calls must enter with `L`. The condition `C` restricts the steps looked at. -/
structure Assertions (P : Program σ θ ε) (C : Pool σ θ → Event θ ε → Prop)
    (I : σ → Prop) (L : σ → θ → Prop) : Prop where
  entry : ∀ s th, I s → P.entry th → L s th
  act : ∀ s pre post th e s' th', C ⟨s, pre ++ th :: post⟩ (.act th e) → I s →
    (∀ x ∈ pre ++ th :: post, L s x) → P.act s th e s' th' →
    I s' ∧ (∀ x ∈ th', L s' x) ∧ ∀ x, x ∈ pre ∨ x ∈ post → L s' x

def Holds (I : σ → Prop) (L : σ → θ → Prop) (p : Pool σ θ) : Prop :=
  I p.shared ∧ ∀ x ∈ p.threads, L p.shared x

theorem Assertions.step {C : Pool σ θ → Event θ ε → Prop} {I : σ → Prop} {L : σ → θ → Prop}
    (h : Assertions P C I L) {p q : Pool σ θ} {e : Event θ ε} (st : Steps P p e q)
    (hc : C p e) (hp : Holds I L p) : Holds I L q := by
  cases st with
  | call hentry =>
    refine ⟨hp.1, ?_⟩
    intro x hx
    rcases List.mem_cons.mp hx with rfl | hx
    · exact h.entry _ _ hp.1 hentry
    · exact hp.2 x hx
  | act hact =>
    obtain ⟨hI, hown, hrest⟩ := h.act _ _ _ _ _ _ _ hc hp.1 hp.2 hact
    refine ⟨hI, ?_⟩
    intro x hx
    simp only [List.mem_append, Option.mem_toList] at hx
    rcases hx with (hx | hx) | hx
    · exact hrest x (Or.inl hx)
    · exact hown x hx
    · exact hrest x (Or.inr hx)

theorem Assertions.run {C : Pool σ θ → Event θ ε → Prop} {I : σ → Prop} {L : σ → θ → Prop}
    (h : Assertions P C I L) {s : σ} {p q : Pool σ θ} {es : List (Event θ ε)}
    (run : ((P.machine s).restrict C).Run p es q) (hp : Holds I L p) : Holds I L q := by
  refine run.invariant ?_ hp
  rintro p e q ⟨hc, st⟩
  exact h.step st hc

theorem holds_start {I : σ → Prop} {L : σ → θ → Prop} {s : σ} (hs : I s) :
    Holds I L (P.machine s).start := ⟨hs, by simp [Program.machine]⟩

/-- What is counted in the shared state and in all threads together. -/
def Pool.total (w : σ → ℕ) (v : θ → ℕ) (p : Pool σ θ) : ℕ := w p.shared + (p.threads.map v).sum

/-- Things that only change hands: an action may move them between its own thread and the shared
state, and a call brings none. -/
theorem Steps.total_eq {w : σ → ℕ} {v : θ → ℕ} {p q : Pool σ θ} {e : Event θ ε}
    (st : Steps P p e q) (hentry : ∀ th, P.entry th → v th = 0)
    (hact : ∀ th e s' th', P.act p.shared th e s' th' →
      w s' + (th'.map v).getD 0 = w p.shared + v th) : q.total w v = p.total w v := by
  cases st with
  | call henters => simp [Pool.total, hentry _ henters]
  | @act s s' pre post th th' e hstep =>
    have hmoved := hact th e s' th' hstep
    simp only [Pool.total, List.map_append, List.map_cons, List.sum_append_nat, List.sum_cons]
    cases th' with
    | none =>
      simp only [Option.map_none, Option.getD_none] at hmoved
      simp only [Option.toList_none, List.map_nil, List.sum_nil]
      omega
    | some next =>
      simp only [Option.map_some, Option.getD_some] at hmoved
      simp only [Option.toList_some, List.map_cons, List.map_nil, List.sum_cons, List.sum_nil]
      omega

/-! ## Schedules

Where the actions of a program are a function of some outside input, a run can be written as
the list of who moves when, and computed. -/

variable {ι : Type*}

inductive Choice (θ ι : Type*) where
  | call (th : θ)
  | act (k : ℕ) (i : ι)

variable (next : ι → σ → θ → σ × ε × Option θ)

def play (p : Pool σ θ) : Choice θ ι → Option (Event θ ε × Pool σ θ)
  | .call th => some (.call th, ⟨p.shared, th :: p.threads⟩)
  | .act k i => p.threads[k]?.map fun th =>
    (.act th (next i p.shared th).2.1, ⟨(next i p.shared th).1,
      p.threads.take k ++ (next i p.shared th).2.2.toList ++ p.threads.drop (k + 1)⟩)

/-- The events of a schedule and the pool it ends in; a choice of no thread ends it. -/
def plays : List (Choice θ ι) → Pool σ θ → List (Event θ ε) × Pool σ θ
  | [], p => ([], p)
  | c :: cs, p =>
    match play next p c with
    | none => ([], p)
    | some (e, q) => (e :: (plays cs q).1, (plays cs q).2)

variable {next}

theorem play_steps (hact : ∀ i s th, P.act s th (next i s th).2.1 (next i s th).1 (next i s th).2.2)
    {p q : Pool σ θ} {c : Choice θ ι} {e : Event θ ε} (hcall : ∀ th, c = .call th → P.entry th)
    (h : play next p c = some (e, q)) : Steps P p e q := by
  cases c with
  | call th =>
    simp only [play, Option.some.injEq, Prod.mk.injEq] at h
    obtain ⟨rfl, rfl⟩ := h
    exact .call (hcall th rfl)
  | act k i =>
    simp only [play, Option.map_eq_some_iff, Prod.mk.injEq] at h
    obtain ⟨th, hk, rfl, rfl⟩ := h
    obtain ⟨hlt, hth⟩ := List.getElem?_eq_some_iff.mp hk
    have hsplit : p.threads = p.threads.take k ++ th :: p.threads.drop (k + 1) := by
      rw [← hth, ← List.drop_eq_getElem_cons hlt, List.take_append_drop]
    have st := @Steps.act _ _ _ P p.shared _ (p.threads.take k) (p.threads.drop (k + 1)) th _ _
      (hact i p.shared th)
    rw [← hsplit] at st
    exact st

/-- A schedule is a run. -/
theorem plays_run (hact : ∀ i s th, P.act s th (next i s th).2.1 (next i s th).1 (next i s th).2.2)
    {s : σ} {cs : List (Choice θ ι)} (hcall : ∀ th, Choice.call th ∈ cs → P.entry th)
    (p : Pool σ θ) : (P.machine s).Run p (plays next cs p).1 (plays next cs p).2 := by
  induction cs generalizing p with
  | nil => exact .nil p
  | cons c cs ih =>
    have hrest : ∀ th, Choice.call th ∈ cs → P.entry th := fun th h => hcall th (by simp [h])
    simp only [plays]
    split
    · exact .nil p
    · rename_i e q hplay
      exact Machine.Run.cons (play_steps hact (fun th hc => hcall th (by simp [hc])) hplay)
        (ih hrest q)

/-- The calls in the events of a schedule are calls of the schedule. -/
theorem call_of_plays {cs : List (Choice θ ι)} {p : Pool σ θ} {th : θ}
    (h : .call th ∈ (plays next cs p).1) : .call th ∈ cs := by
  induction cs generalizing p with
  | nil => cases h
  | cons c cs ih =>
    simp only [plays] at h
    split at h
    · cases h
    · rename_i e q hplay
      rcases List.mem_cons.mp h with rfl | h
      · cases c with
        | call x =>
          simp only [play, Option.some.injEq, Prod.mk.injEq, Event.call.injEq] at hplay
          simp [hplay.1]
        | act k i => simp [play] at hplay
      · exact List.mem_cons_of_mem _ (ih h)

end Interleaving
