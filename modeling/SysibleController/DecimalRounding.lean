import Mathlib.Algebra.Order.Floor.Ring
import Mathlib.Data.Rat.Floor
import Mathlib.Tactic.Linarith
import Mathlib.Tactic.Positivity

/-! Rounding of exact rationals to integers, ties to even, and the fixed-point text that
rounds the same way. Both follow the documented behaviour of `round` and of `%.nf`. -/
namespace DecimalRounding

def roundHalfEven (q : ℚ) : ℤ :=
  let low := ⌊q⌋
  let rest := q - low
  if rest < 1 / 2 then low
  else if 1 / 2 < rest then low + 1
  else if low % 2 = 0 then low else low + 1

theorem roundHalfEven_cases (q : ℚ) :
    (roundHalfEven q = ⌊q⌋ ∧ q - ⌊q⌋ ≤ 1 / 2) ∨
    (roundHalfEven q = ⌊q⌋ + 1 ∧ 1 / 2 ≤ q - ⌊q⌋) := by
  unfold roundHalfEven
  dsimp only
  split_ifs with h1 h2 h3
  · exact Or.inl ⟨rfl, h1.le⟩
  · exact Or.inr ⟨rfl, h2.le⟩
  · exact Or.inl ⟨rfl, not_lt.mp h2⟩
  · exact Or.inr ⟨rfl, not_lt.mp h1⟩

theorem roundHalfEven_le (q : ℚ) : (roundHalfEven q : ℚ) ≤ q + 1 / 2 := by
  have hfloor := Int.floor_le q
  rcases roundHalfEven_cases q with ⟨h, hr⟩ | ⟨h, hr⟩ <;> rw [h] <;> push_cast <;> linarith

theorem le_roundHalfEven (q : ℚ) : q - 1 / 2 ≤ roundHalfEven q := by
  have hfloor := Int.lt_floor_add_one q
  rcases roundHalfEven_cases q with ⟨h, hr⟩ | ⟨h, hr⟩ <;> rw [h] <;> push_cast <;> linarith

theorem lt_of_roundHalfEven_lt {q : ℚ} {n : ℤ} (h : roundHalfEven q < n) : q < n := by
  have hstep : (roundHalfEven q : ℚ) + 1 ≤ n := by exact_mod_cast h
  linarith [le_roundHalfEven q]

theorem lt_of_lt_roundHalfEven {q : ℚ} {n : ℤ} (h : n < roundHalfEven q) : n < q := by
  have hstep : (n : ℚ) + 1 ≤ roundHalfEven q := by exact_mod_cast h
  linarith [roundHalfEven_le q]

@[simp] theorem roundHalfEven_intCast (n : ℤ) : roundHalfEven (n : ℚ) = n := by
  simp [roundHalfEven]

/-- Ties stay ties under negation, and the even neighbour stays even. -/
@[simp] theorem roundHalfEven_neg (q : ℚ) : roundHalfEven (-q) = -roundHalfEven q := by
  by_cases hint : q = ⌊q⌋
  · rw [hint, ← Int.cast_neg, roundHalfEven_intCast, roundHalfEven_intCast]
  have hle := Int.floor_le q
  have hlt : (⌊q⌋ : ℚ) < q := lt_of_le_of_ne hle (Ne.symm hint)
  have hup := Int.lt_floor_add_one q
  have hfloor : ⌊-q⌋ = -⌊q⌋ - 1 := by
    rw [Int.floor_eq_iff]
    push_cast
    constructor <;> linarith
  unfold roundHalfEven
  dsimp only
  rw [hfloor]
  push_cast
  split_ifs <;> first | omega | (exfalso; linarith)

theorem roundHalfEven_nonneg {q : ℚ} (h : 0 ≤ q) : 0 ≤ roundHalfEven q := by
  have hfloor := Int.floor_nonneg.mpr h
  rcases roundHalfEven_cases q with ⟨hr, -⟩ | ⟨hr, -⟩ <;> omega

/-- `digits` decimals after the point, the sign in front of the rounded magnitude. -/
def toFixed (digits : ℕ) (q : ℚ) : String :=
  let scaled := (roundHalfEven (|q| * 10 ^ digits)).toNat
  let frac := toString (scaled % 10 ^ digits)
  (if q < 0 then "-" else "") ++ toString (scaled / 10 ^ digits) ++ "." ++
    String.ofList (List.replicate (digits - frac.length) '0') ++ frac

/-- The digits of the text as one number. -/
def magnitude (digits : ℕ) (q : ℚ) : ℕ := (roundHalfEven (|q| * 10 ^ digits)).toNat

theorem roundHalfEven_eq_magnitude (q : ℚ) (digits : ℕ) :
    roundHalfEven (q * 10 ^ digits) = (if q < 0 then -1 else 1) * (magnitude digits q : ℤ) := by
  have hnonneg : 0 ≤ roundHalfEven (|q| * 10 ^ digits) := roundHalfEven_nonneg (by positivity)
  rw [magnitude, Int.toNat_of_nonneg hnonneg]
  split_ifs with h
  · rw [abs_of_neg h, neg_mul q, roundHalfEven_neg, neg_one_mul, neg_neg]
  · rw [abs_of_nonneg (not_lt.mp h), one_mul]

theorem toList_toFixed (digits : ℕ) (q : ℚ) : (toFixed digits q).toList =
    (if q < 0 then ['-'] else []) ++ (Nat.toDigits 10 (magnitude digits q / 10 ^ digits) ++ '.' ::
      (List.replicate
          (digits - (Nat.toDigits 10 (magnitude digits q % 10 ^ digits)).length) '0' ++
        Nat.toDigits 10 (magnitude digits q % 10 ^ digits))) := by
  have hsign : (if q < 0 then "-" else "").toList = if q < 0 then ['-'] else [] := by
    split_ifs <;> rfl
  simp [toFixed, magnitude, hsign, ← String.length_toList]

theorem notMem_toDigits {c : Char} (hc : c.isDigit = false) (n : ℕ) : c ∉ Nat.toDigits 10 n := by
  intro hmem
  rw [Nat.isDigit_of_mem_toDigits (by decide) (by decide) hmem] at hc
  cases hc

theorem minus_mem_toFixed (digits : ℕ) (q : ℚ) : '-' ∈ (toFixed digits q).toList ↔ q < 0 := by
  rw [toList_toFixed]
  split_ifs with h
  · simp [h]
  · simp [h, notMem_toDigits]

/-- The text tells the rounded number. -/
theorem toFixed_inj {digits : ℕ} {p q : ℚ} (h : toFixed digits p = toFixed digits q) :
    roundHalfEven (p * 10 ^ digits) = roundHalfEven (q * 10 ^ digits) := by
  have hsign : p < 0 ↔ q < 0 := by rw [← minus_mem_toFixed digits, h, minus_mem_toFixed]
  have hlist := congrArg String.toList h
  rw [toList_toFixed, toList_toFixed] at hlist
  simp only [hsign] at hlist
  have hbody := List.append_cancel_left hlist
  have hwhole : '.' ∉ Nat.toDigits 10 (magnitude digits p / 10 ^ digits) := notMem_toDigits rfl _
  have hpoint : ∀ k n, '.' ∉ List.replicate k '0' ++ Nat.toDigits 10 n := by
    intro k n
    simp [notMem_toDigits]
  -- the point parts the digits, which are read back
  obtain ⟨hdiv, -, hmod⟩ := (List.append_cons_inj_of_notMem hwhole (hpoint _ _)).mp hbody
  have hdiv := congrArg (Nat.ofDigitChars 10 · 0) hdiv
  have hmod := congrArg (Nat.ofDigitChars 10 · 0) hmod
  simp only [Nat.ofDigitChars_ten_toDigits, Nat.ofDigitChars_append,
    Nat.ofDigitChars_replicate_zero, mul_zero] at hdiv hmod
  have hmagnitude : magnitude digits p = magnitude digits q := by
    rw [← Nat.div_add_mod (magnitude digits p) (10 ^ digits), hdiv, hmod, Nat.div_add_mod]
  rw [roundHalfEven_eq_magnitude, roundHalfEven_eq_magnitude q, hmagnitude]
  simp only [hsign]

end DecimalRounding
