import Mathlib.Data.List.Basic

/-! Postconditions for computations that may stop early: `Ends Q E` asks `Q` of a normal
end and `E` of an early one. Loops carry an invariant over the items done and to do. -/
namespace EarlyExit

variable {α : Type*} {σ τ ε : Type} {Q : σ → Prop} {E : ε → Prop}

def Ends (Q : σ → Prop) (E : ε → Prop) : Except ε σ → Prop
  | .ok s => Q s
  | .error e => E e

@[simp] theorem ends_ok (s : σ) : Ends Q E (.ok s) ↔ Q s := Iff.rfl

@[simp] theorem ends_error (e : ε) : Ends Q E (.error e : Except ε σ) ↔ E e := Iff.rfl

theorem bind_ok {m : Except ε σ} {f : σ → Except ε τ} {b : τ}
    (h : (m >>= f) = .ok b) : ∃ s, m = .ok s ∧ f s = .ok b := by
  cases m with
  | ok s => exact ⟨s, rfl, h⟩
  | error e => cases h

/-- A check that has been passed. -/
theorem guard_ok {p : Prop} [Decidable p] {e : ε} {m : Except ε τ} {b : τ}
    (h : (if p then .error e else m) = .ok b) : ¬p ∧ m = .ok b := by
  split_ifs at h with hp
  exact ⟨hp, h⟩

theorem Ends.bind {R : τ → Prop} {f : σ → Except ε τ} {r : Except ε σ} (h : Ends Q E r)
    (hf : ∀ s, Q s → Ends R E (f s)) : Ends R E (r >>= f) := by
  cases r with
  | ok s => exact hf s h
  | error e => exact h

theorem Ends.mono {Q' : σ → Prop} {E' : ε → Prop} {r : Except ε σ} (h : Ends Q E r)
    (hQ : ∀ s, Q s → Q' s) (hE : ∀ e, E e → E' e) : Ends Q' E' r := by
  cases r with
  | ok s => exact hQ s h
  | error e => exact hE e h

theorem Ends.and {Q' : σ → Prop} {E' : ε → Prop} {r : Except ε σ} (h : Ends Q E r)
    (h' : Ends Q' E' r) : Ends (fun s => Q s ∧ Q' s) (fun e => E e ∧ E' e) r := by
  cases r with
  | ok s => exact ⟨h, h'⟩
  | error e => exact ⟨h, h'⟩

/-- The loop rule; an early exit keeps what the body says of it. -/
theorem Ends.foldlM {I : List α → List α → σ → Prop} {f : σ → α → Except ε σ}
    (hbody : ∀ done x todo s, I done (x :: todo) s → Ends (I (done ++ [x]) todo) E (f s x)) :
    ∀ todo done s, I done todo s → Ends (I (done ++ todo) []) E (todo.foldlM f s)
  | [], done, s, h => by
    rw [List.foldlM_nil, List.append_nil]
    exact h
  | x :: todo, done, s, h => by
    rw [List.foldlM_cons]
    refine Ends.bind (hbody done x todo s h) fun t ht => ?_
    have := Ends.foldlM hbody todo (done ++ [x]) t ht
    rwa [List.append_assoc] at this

/-- The rule for loops that always run to their end. -/
theorem foldl_rule {I : List α → List α → σ → Prop} {f : σ → α → σ}
    (hbody : ∀ done x todo s, I done (x :: todo) s → I (done ++ [x]) todo (f s x)) :
    ∀ todo done s, I done todo s → I (done ++ todo) [] (todo.foldl f s)
  | [], done, s, h => by simpa using h
  | x :: todo, done, s, h => by
    have := foldl_rule hbody todo (done ++ [x]) (f s x) (hbody done x todo s h)
    rwa [List.append_assoc] at this

end EarlyExit
