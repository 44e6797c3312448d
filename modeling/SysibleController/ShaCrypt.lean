import Mathlib.Algebra.Ring.Parity
import Mathlib.Data.Nat.Bits

/-! The SHA-crypt scheme over a hash function with 64 bytes, with the names of its specification:
the digests A, B and C and the sequences P and S. -/
namespace ShaCrypt

abbrev Bytes := List UInt8
abbrev Digest := Vector UInt8 64

instance neZero_digest : NeZero 64 := ⟨by decide⟩

variable (sha : Bytes → Digest)

/-- A digest over `n` bytes: the whole of it for each block of 64, its start for what remains. -/
def spread (d : Bytes) (n : ℕ) : Bytes := (List.replicate (n / 64) d).flatten ++ d.take (n % 64)

def digestB (key salt : Bytes) : Bytes := (sha (key ++ salt ++ key)).toList

/-- For each bit of the length, the lowest first: a one adds digest B, a zero the key. -/
def lengthBits (b key : Bytes) : Bytes := key.length.bits.flatMap fun one => if one then b else key

def digestA (key salt : Bytes) : Digest :=
  let b := digestB sha key salt
  sha (key ++ salt ++ spread b key.length ++ lengthBits b key)

def sequenceP (key : Bytes) : Bytes :=
  spread (sha (List.replicate key.length key).flatten).toList key.length

def sequenceS (key salt : Bytes) : Bytes :=
  spread (sha (List.replicate (16 + (digestA sha key salt)[0].toNat) salt).flatten).toList
    salt.length

def round (p s : Bytes) (k : ℕ) (c : Digest) : Digest :=
  sha ((if Odd k then p else c.toList) ++ (if 3 ∣ k then [] else s) ++ (if 7 ∣ k then [] else p) ++
    (if Odd k then c.toList else p))

/-- Digest C after `k` rounds, which start from digest A. -/
def digestC (key salt : Bytes) : ℕ → Digest
  | 0 => digestA sha key salt
  | k + 1 => round sha (sequenceP sha key) (sequenceS sha key salt) k (digestC key salt k)

/-! ### The text of a digest -/

/-- Period, slash, digits, capital letters, small letters. -/
def letter (n : ℕ) : Char :=
  if n < 2 then .ofNat ('.'.toNat + n)
  else if n < 12 then .ofNat ('0'.toNat + (n - 2))
  else if n < 38 then .ofNat ('A'.toNat + (n - 12))
  else .ofNat ('a'.toNat + (n - 38))

/-- The first character has the six low bits of the first byte, the second one its two high bits and
four low bits of the second byte, and so on. -/
def group (first second third : UInt8) : List Char :=
  [letter (first.toNat % 64), letter (first.toNat / 64 + second.toNat % 16 * 4),
    letter (second.toNat / 16 + third.toNat % 4 * 16), letter (third.toNat / 4)]

def groups : List (Fin 64 × Fin 64 × Fin 64) :=
  [(42, 21, 0), (1, 43, 22), (23, 2, 44), (45, 24, 3), (4, 46, 25), (26, 5, 47), (48, 27, 6),
    (7, 49, 28), (29, 8, 50), (51, 30, 9), (10, 52, 31), (32, 11, 53), (54, 33, 12), (13, 55, 34),
    (35, 14, 56), (57, 36, 15), (16, 58, 37), (38, 17, 59), (60, 39, 18), (19, 61, 40),
    (41, 20, 62)]

/-- The last byte has a group of its own, with zero for the two that are missing and with two
characters. -/
def digestText (c : Digest) : List Char :=
  groups.flatMap (fun (i, j, k) => group (c.get i) (c.get j) (c.get k)) ++
    (group (c.get 63) 0 0).take 2

def maxSalt : ℕ := 16

def defaultRounds : ℕ := 5000

/-- The string for a key and a salt under the default number of rounds. -/
def crypt (key : Bytes) (salt : List Char) : List Char :=
  let salt := salt.take maxSalt
  "$6$".toList ++ salt ++ '$' ::
    digestText (digestC sha key (salt.map fun c => c.toNat.toUInt8) defaultRounds)

/-! ### Ways to compute the parts -/

variable {d : Bytes}

theorem spread_zero : spread d 0 = [] := by simp [spread]

theorem spread_block {n : ℕ} (h : 64 ≤ n) : spread d n = d ++ spread d (n - 64) := by
  have hdiv : n / 64 = (n - 64) / 64 + 1 := by omega
  have hmod : n % 64 = (n - 64) % 64 := by omega
  rw [spread, spread, hdiv, hmod, List.replicate_succ, List.flatten_cons, List.append_assoc]

theorem spread_rest {n : ℕ} (h : n < 64) : spread d n = d.take n := by
  rw [spread, Nat.div_eq_of_lt h, Nat.mod_eq_of_lt h]
  rfl

/-- Enough copies, cut to the length. -/
theorem take_copies (hd : d.length = 64) (n k : ℕ) (hk : n ≤ 64 * k) :
    (List.replicate k d).flatten.take n = spread d n := by
  induction k generalizing n with
  | zero =>
    have hn : n = 0 := by omega
    simp [hn, spread_zero]
  | succ k ih =>
    rw [List.replicate_succ, List.flatten_cons, List.take_append, hd]
    by_cases h : 64 ≤ n
    · rw [List.take_of_length_le (by omega), ih (n - 64) (by omega), spread_block h]
    · have hrest : n - 64 = 0 := by omega
      rw [spread_rest (by omega), hrest, List.take_zero, List.append_nil]

theorem bits_step {n : ℕ} (h : 0 < n) : n.bits = (n % 2 == 1) :: (n / 2).bits := by
  have hbit : Nat.bit (n % 2 == 1) (n / 2) = n := by
    rcases Nat.mod_two_eq_zero_or_one n with hn | hn <;> rw [Nat.bit_val, hn] <;> simp <;> omega
  conv_lhs => rw [← hbit]
  apply Nat.bits_append_bit
  intro hz
  have hn : n % 2 = 1 := by omega
  rw [hn]
  rfl

end ShaCrypt
