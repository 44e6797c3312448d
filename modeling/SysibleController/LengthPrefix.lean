import Mathlib.Data.List.Basic

/-! Self-delimiting encodings. A block code is prefix free when the end of a block can be
found without looking past it; sequences of such blocks then decode in one way only. -/
namespace LengthPrefix

variable {α β : Type*}

/-- Two streams that start with a block of the code agree on the block and on the rest. -/
def PrefixFree (enc : α → List β) : Prop :=
  ∀ a b s t, enc a ++ s = enc b ++ t → enc a = enc b ∧ s = t

/-- Blocks that start with their own length, in a header of fixed width. -/
theorem prefixFree_of_header {enc : α → List β} (header body : α → List β) (width : ℕ)
    (hsplit : ∀ a, enc a = header a ++ body a) (hwidth : ∀ a, (header a).length = width)
    (hlength : ∀ a b, header a = header b → (body a).length = (body b).length) :
    PrefixFree enc := by
  intro a b s t h
  rw [hsplit, hsplit, List.append_assoc, List.append_assoc] at h
  obtain ⟨hh, hrest⟩ := List.append_inj h ((hwidth a).trans (hwidth b).symm)
  obtain ⟨hb, hst⟩ := List.append_inj hrest (hlength a b hh)
  exact ⟨by rw [hsplit, hsplit, hh, hb], hst⟩

/-- Concatenation of nonempty prefix-free blocks determines the sequence of the blocks. -/
theorem flatMap_inj {enc : α → List β} (hfree : PrefixFree enc) (hne : ∀ a, enc a ≠ []) :
    ∀ xs ys : List α, xs.flatMap enc = ys.flatMap enc → xs.map enc = ys.map enc
  | [], [], _ => rfl
  | [], y :: ys, h => by
    rw [List.flatMap_nil, List.flatMap_cons] at h
    exact absurd (List.append_eq_nil_iff.mp h.symm).1 (hne y)
  | x :: xs, [], h => by
    rw [List.flatMap_nil, List.flatMap_cons] at h
    exact absurd (List.append_eq_nil_iff.mp h).1 (hne x)
  | x :: xs, y :: ys, h => by
    rw [List.flatMap_cons, List.flatMap_cons] at h
    obtain ⟨hxy, hrest⟩ := hfree x y _ _ h
    rw [List.map_cons, List.map_cons, hxy, flatMap_inj hfree hne xs ys hrest]

end LengthPrefix
