import Mathlib.Data.List.Basic
import Mathlib.Logic.Relation

/-! Labelled transition systems: finite runs with their traces, and the induction rules
that turn a fact about one step into a fact about every run. A label carries whatever an
observer sees of a step, so history properties are stated about the trace alone. -/
namespace TransitionSystem

variable {σ ε : Type*}

structure Machine (σ ε : Type*) where
  start : σ
  step : σ → ε → σ → Prop

namespace Machine

/-- Runs grow at their end, so an induction sees the last step and the whole past. -/
inductive Run (M : Machine σ ε) : σ → List ε → σ → Prop where
  | nil (s) : Run M s [] s
  | snoc {s t u es e} : Run M s es t → M.step t e u → Run M s (es ++ [e]) u

def Reachable (M : Machine σ ε) (s : σ) : Prop := ∃ es, M.Run M.start es s

variable {M : Machine σ ε}

theorem Run.single {s t : σ} {e : ε} (h : M.step s e t) : M.Run s [e] t :=
  Run.snoc (.nil s) h

theorem Run.append {s t u : σ} {es fs : List ε} (h : M.Run s es t) (k : M.Run t fs u) :
    M.Run s (es ++ fs) u := by
  induction k with
  | nil => simpa using h
  | snoc _ st ih => simpa using ih.snoc st

theorem Run.cons {s t u : σ} {e : ε} {es : List ε} (h : M.step s e t) (k : M.Run t es u) :
    M.Run s (e :: es) u := (Run.single h).append k

/-- An inductive invariant holds in the last state of every run. -/
theorem Run.invariant {P : σ → Prop} (hstep : ∀ s e t, M.step s e t → P s → P t)
    {s t : σ} {es : List ε} (h : M.Run s es t) (hs : P s) : P t := by
  induction h with
  | nil => exact hs
  | snoc _ st ih => exact hstep _ _ _ st ih

/-- A property of past and present together, as history invariants need it. -/
theorem Run.history {P : List ε → σ → Prop} {s : σ} (hs : P [] s)
    (hstep : ∀ es t e u, M.Run s es t → M.step t e u → P es t → P (es ++ [e]) u)
    {t : σ} {es : List ε} (h : M.Run s es t) : P es t := by
  induction h with
  | nil => exact hs
  | snoc run st ih => exact hstep _ _ _ _ run st ih

/-- A reflexive and transitive relation that every step from an invariant state respects
links the two ends of every run. -/
theorem Run.related {P : σ → Prop} {R : σ → σ → Prop}
    (hinv : ∀ s e t, M.step s e t → P s → P t) (hrefl : ∀ s, R s s)
    (htrans : ∀ s t u, P s → R s t → R t u → R s u)
    (hstep : ∀ s e t, M.step s e t → P s → R s t)
    {s t : σ} {es : List ε} (h : M.Run s es t) (hs : P s) : R s t := by
  induction h with
  | nil => exact hrefl _
  | snoc run st ih => exact htrans _ _ _ hs ih (hstep _ _ _ st (run.invariant hinv hs))

/-- The machine whose steps all meet a condition on the state they start from. -/
def restrict (M : Machine σ ε) (C : σ → ε → Prop) : Machine σ ε :=
  ⟨M.start, fun s e t => C s e ∧ M.step s e t⟩

theorem Run.unrestrict {C : σ → ε → Prop} {s t : σ} {es : List ε}
    (h : (M.restrict C).Run s es t) : M.Run s es t := by
  induction h with
  | nil => exact .nil _
  | snoc _ st ih => exact ih.snoc st.2

theorem Run.restrict {C : σ → ε → Prop} (hC : ∀ s e, C s e) {s t : σ} {es : List ε}
    (h : M.Run s es t) : (M.restrict C).Run s es t := by
  induction h with
  | nil => exact .nil _
  | snoc _ st ih => exact ih.snoc ⟨hC _ _, st⟩

end Machine

end TransitionSystem
