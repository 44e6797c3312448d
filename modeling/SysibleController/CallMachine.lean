import SysibleController.TransitionSystem
import SysibleController.PastTrace

/-! Machines driven by calls: a function says what each call shows and leaves behind, any call may
come next, and a list of calls plays out as one run. -/
namespace TransitionSystem

variable {σ κ ε : Type*}

def ofCalls (start : σ) (act : σ → κ → ε × σ) : Machine σ ε where
  start
  step s e t := ∃ c, act s c = (e, t)

def perform (act : σ → κ → ε × σ) (s : σ) : List κ → List ε × σ
  | [] => ([], s)
  | c :: cs =>
    let r := act s c
    let rest := perform act r.2 cs
    (r.1 :: rest.1, rest.2)

theorem perform_run (start : σ) (act : σ → κ → ε × σ) (s : σ) (cs : List κ) :
    (ofCalls start act).Run s (perform act s cs).1 (perform act s cs).2 := by
  induction cs generalizing s with
  | nil => exact .nil s
  | cons c cs ih => exact Machine.Run.cons ⟨c, rfl⟩ (ih _)

/-- A fact about the past and the state that every call keeps holds along every run. -/
theorem ofCalls_history (P : List ε → σ → Prop) {start : σ} {act : σ → κ → ε × σ} {s t : σ}
    {es : List ε} (h : (ofCalls start act).Run s es t) (hs : P [] s)
    (hact : ∀ es t c, (ofCalls start act).Run s es t → P es t →
      P (es ++ [(act t c).1]) (act t c).2) : P es t := by
  induction h with
  | nil => exact hs
  | snoc run st ih =>
    obtain ⟨c, hc⟩ := st
    have := hact _ _ c run ih
    rwa [hc] at this

/-- What every call shows, given the past it is made in. -/
theorem ofCalls_atEach (Q : List ε → ε → Prop) {start : σ} {act : σ → κ → ε × σ} {s t : σ}
    {es : List ε} (h : (ofCalls start act).Run s es t)
    (hact : ∀ es t c, (ofCalls start act).Run s es t → Q es (act t c).1) :
    PastTrace.AtEach Q es := by
  refine ofCalls_history (fun es _ => PastTrace.AtEach Q es) h (fun _ _ _ hx => by simp at hx) ?_
  exact fun es t c run ih => PastTrace.atEach_snoc.mpr ⟨ih, hact es t c run⟩

end TransitionSystem
