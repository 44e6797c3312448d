import Mathlib.Data.List.Basic
import Mathlib.Tactic.Tauto

/-! Past-time properties of finite traces. A property of one event and the events before it
is checked `AtEach` event; `Since` holds when some event started a condition that every
later event has kept up. -/
namespace PastTrace

variable {α : Type*} {P Q : List α → α → Prop} {keep start : α → Prop} {past rest : List α}
  {x : α}

def AtEach (P : List α → α → Prop) (trace : List α) : Prop :=
  ∀ past x rest, trace = past ++ x :: rest → P past x

def Since (keep start : α → Prop) (trace : List α) : Prop :=
  ∃ past x rest, trace = past ++ x :: rest ∧ start x ∧ ∀ y ∈ rest, keep y

theorem atEach_append : AtEach P (past ++ rest) ↔
    AtEach P past ∧ AtEach (fun past' => P (past ++ past')) rest := by
  constructor
  · refine fun h => ⟨fun a x b hab => h a x (b ++ rest) ?_, fun a x b hab => h (past ++ a) x b ?_⟩
    · rw [hab, List.append_assoc, List.cons_append]
    · rw [hab, List.append_assoc]
  · rintro ⟨hpast, hrest⟩ a x b hab
    rcases List.append_eq_append_iff.mp hab with ⟨c, rfl, hc⟩ | ⟨c, rfl, hc⟩
    · exact hrest c x b hc
    · cases c with
      | nil => simpa using hrest [] x b (by simpa using hc.symm)
      | cons y c =>
        obtain ⟨rfl, -⟩ := List.cons.inj hc
        exact hpast a x c rfl

theorem atEach_snoc : AtEach P (past ++ [x]) ↔ AtEach P past ∧ P past x := by
  rw [atEach_append]
  refine and_congr_right fun _ => ⟨fun h => by simpa using h [] x [] rfl, fun h a y b hab => ?_⟩
  cases a with
  | nil =>
    obtain ⟨rfl, -⟩ := List.cons.inj hab
    simpa using h
  | cons z a => simp at hab

theorem AtEach.mono (h : AtEach P past) (hPQ : ∀ past x, P past x → Q past x) : AtEach Q past :=
  fun a x b hab => hPQ a x (h a x b hab)

theorem since_append : Since keep start (past ++ rest) ↔
    Since keep start rest ∨ Since keep start past ∧ ∀ y ∈ rest, keep y := by
  constructor
  · rintro ⟨a, x, b, hab, hx, hb⟩
    rcases List.append_eq_append_iff.mp hab with ⟨c, rfl, hc⟩ | ⟨c, rfl, hc⟩
    · exact .inl ⟨c, x, b, hc, hx, hb⟩
    · cases c with
      | nil => exact .inl ⟨[], x, b, by simpa using hc.symm, hx, hb⟩
      | cons y c =>
        obtain ⟨rfl, rfl⟩ := List.cons.inj hc
        exact .inr ⟨⟨a, x, c, rfl, hx, fun y hy => hb y (List.mem_append_left _ hy)⟩,
          fun y hy => hb y (List.mem_append_right _ hy)⟩
  · rintro (⟨a, x, b, rfl, hx, hb⟩ | ⟨⟨a, x, b, rfl, hx, hb⟩, hrest⟩)
    · exact ⟨past ++ a, x, b, by simp, hx, hb⟩
    · refine ⟨a, x, b ++ rest, by simp, hx, fun y hy => ?_⟩
      exact (List.mem_append.mp hy).elim (hb y) (hrest y)

theorem since_snoc : Since keep start (past ++ [x]) ↔
    start x ∨ Since keep start past ∧ keep x := by
  rw [since_append]
  refine or_congr ⟨?_, fun h => ⟨[], x, [], rfl, h, by simp⟩⟩ (by simp)
  rintro ⟨a, y, b, hab, hy, -⟩
  cases a with
  | nil =>
    obtain ⟨rfl, -⟩ := List.cons.inj hab
    exact hy
  | cons z a => simp at hab

/-- An event that neither starts nor ends the condition leaves it as it was. -/
theorem since_snoc_of_neutral (hstart : ¬start x) (hkeep : keep x) :
    Since keep start (past ++ [x]) ↔ Since keep start past := by
  rw [since_snoc]
  tauto

theorem since_append_of_neutral (hstart : ∀ y ∈ rest, ¬start y) (hkeep : ∀ y ∈ rest, keep y) :
    Since keep start (past ++ rest) ↔ Since keep start past := by
  rw [since_append]
  refine ⟨fun h => h.elim (fun ⟨a, x, b, hab, hx, _⟩ => ?_) And.left, fun h => .inr ⟨h, hkeep⟩⟩
  exact absurd hx (hstart x (by simp [hab]))

end PastTrace
