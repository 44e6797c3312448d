import SysibleController.AgentTransfer
import SysibleController.ShaCrypt

/-! The password hash of `_api_users.py` where the `crypt` module is missing. SHA-512 is a
parameter. A context of `hashlib` is the bytes it was given so far. -/
namespace Sha512Crypt

open PathText ShaCrypt AgentTransfer

/-- `_CRYPT_ITOA64` -/
def cryptItoa64 : Vector Char 64 :=
  ⟨"./0123456789ABCDEFGHIJKLMNOPQRSTUVWXYZabcdefghijklmnopqrstuvwxyz".toList.toArray, rfl⟩

def lowSix (w : ℕ) : Fin 64 := ⟨w &&& 0x3f, Nat.lt_succ_of_le Nat.and_le_right⟩

/-- The loop of `_crypt_b64_from_24bit`. -/
def sextets (w : ℕ) : ℕ → Text
  | 0 => []
  | n + 1 => cryptItoa64.get (lowSix w) :: sextets (w >>> 6) n

def cryptB64From24bit (b2 b1 b0 : UInt8) (n : ℕ) : Text :=
  sextets (b2.toNat <<< 16 ||| b1.toNat <<< 8 ||| b0.toNat) n

/-- `str.encode("ascii")` -/
def encodeAscii (t : Text) : Option Bytes :=
  t.mapM fun c => if c.toNat < 128 then some c.toNat.toUInt8 else none

/-- `bytes.decode("ascii")` -/
def decodeAscii (bs : Bytes) : Option Text :=
  bs.mapM fun b => if b < 128 then some (Char.ofNat b.toNat) else none

/-- `a.update(alt[:min(i, 64)])` for each 64 of the length. -/
def updateBlocks (alt a : Bytes) (i : ℕ) : Bytes :=
  if 0 < i then updateBlocks alt (a ++ alt.take (min i 64)) (i - 64) else a
termination_by i

/-- `a.update(alt if (i & 1) else pw)` for each bit of the length. -/
def updateBits (alt pw a : Bytes) (i : ℕ) : Bytes :=
  if 0 < i then updateBits alt pw (a ++ if i &&& 1 ≠ 0 then alt else pw) (i >>> 1) else a
termination_by i
decreasing_by
  rw [Nat.shiftRight_one]
  omega

/-- `bytes * n` -/
def repeated (bs : Bytes) (n : ℕ) : Bytes := (List.replicate n bs).flatten

variable (sha512 : Bytes → Digest)

def mixingRound (pSeq sSeq : Bytes) (c : Digest) (r : ℕ) : Digest :=
  let ctx := if r &&& 1 ≠ 0 then pSeq else c.toList
  let ctx := if r % 3 ≠ 0 then ctx ++ sSeq else ctx
  let ctx := if r % 7 ≠ 0 then ctx ++ pSeq else ctx
  sha512 (ctx ++ if r &&& 1 ≠ 0 then c.toList else pSeq)

def order : List (Fin 64 × Fin 64 × Fin 64) :=
  [(0, 21, 42), (22, 43, 1), (44, 2, 23), (3, 24, 45), (25, 46, 4),
    (47, 5, 26), (6, 27, 48), (28, 49, 7), (50, 8, 29), (9, 30, 51),
    (31, 52, 10), (53, 11, 32), (12, 33, 54), (34, 55, 13), (56, 14, 35),
    (15, 36, 57), (37, 58, 16), (59, 17, 38), (18, 39, 60), (40, 61, 19),
    (62, 20, 41)]

def enc (c : Digest) : Text :=
  (order.map fun (x, y, z) => cryptB64From24bit (c.get x) (c.get y) (c.get z) 4).flatten ++
    cryptB64From24bit 0 0 (c.get 63) 2

/-- Nothing where the salt is not ASCII. -/
def sha512Crypt (password salt : Text) : Option Text := do
  let pw := utf8 password
  let saltBytes := (← encodeAscii salt).take 16
  let plen := pw.length
  let alt := (sha512 (pw ++ saltBytes ++ pw)).toList
  let aDigest := sha512 (updateBits alt pw (updateBlocks alt (pw ++ saltBytes) plen) plen)
  let dp := (sha512 (repeated pw plen)).toList
  let pSeq := (repeated dp (plen / 64 + 1)).take plen
  let ds := (sha512 (repeated saltBytes (16 + (aDigest.get 0).toNat))).toList
  let sSeq := (repeated ds (saltBytes.length / 64 + 1)).take saltBytes.length
  let c := (List.range 5000).foldl (mixingRound sha512 pSeq sSeq) aDigest
  return "$6$".toList ++ (← decodeAscii saltBytes) ++ '$' :: enc c

/-! ### The loops over the length -/

variable {sha512}

theorem updateBlocks_eq {alt : Bytes} (halt : alt.length = 64) (a : Bytes) (i : ℕ) :
    updateBlocks alt a i = a ++ spread alt i := by
  induction i using Nat.strong_induction_on generalizing a with
  | _ i ih =>
    rw [updateBlocks]
    split
    next hpos =>
      rw [ih (i - 64) (by omega), List.append_assoc]
      by_cases h : 64 ≤ i
      · rw [Nat.min_eq_right h, List.take_of_length_le (le_of_eq halt), spread_block h]
      · have hrest : i - 64 = 0 := by omega
        rw [Nat.min_eq_left (by omega), hrest, spread_zero, List.append_nil,
          spread_rest (by omega)]
    next hzero =>
      have hi : i = 0 := by omega
      rw [hi, spread_zero, List.append_nil]

theorem and_one_ne_zero (i : ℕ) : (i &&& 1 ≠ 0) ↔ i % 2 = 1 := by
  rw [Nat.and_one_is_mod]
  omega

theorem updateBits_eq (alt pw a : Bytes) (i : ℕ) :
    updateBits alt pw a i = a ++ i.bits.flatMap fun one => if one then alt else pw := by
  induction i using Nat.strong_induction_on generalizing a with
  | _ i ih =>
    rw [updateBits]
    split
    next hpos =>
      have hbit : (if i &&& 1 ≠ 0 then alt else pw) = if i % 2 == 1 then alt else pw := by
        simp
      rw [Nat.shiftRight_one, ih (i / 2) (by omega), bits_step hpos, List.flatMap_cons, hbit,
        List.append_assoc]
    next hzero =>
      have hi : i = 0 := by omega
      simp [hi]

/-! ### The rounds -/

theorem mixingRound_eq (p s : Bytes) (c : Digest) (r : ℕ) :
    mixingRound sha512 p s c r = ShaCrypt.round sha512 p s r c := by
  have hodd : (r &&& 1 ≠ 0) ↔ Odd r := by rw [and_one_ne_zero, Nat.odd_iff]
  have hthree : (r % 3 ≠ 0) ↔ ¬3 ∣ r := not_congr Nat.dvd_iff_mod_eq_zero.symm
  have hseven : (r % 7 ≠ 0) ↔ ¬7 ∣ r := not_congr Nat.dvd_iff_mod_eq_zero.symm
  simp only [mixingRound, ShaCrypt.round, hodd, hthree, hseven]
  by_cases h3 : 3 ∣ r <;> by_cases h7 : 7 ∣ r <;> simp [h3, h7]

theorem foldl_rounds {key salt : Bytes} (n : ℕ) :
    (List.range n).foldl (mixingRound sha512 (sequenceP sha512 key) (sequenceS sha512 key salt))
      (digestA sha512 key salt) = digestC sha512 key salt n := by
  induction n with
  | zero => rfl
  | succ n ih =>
    rw [List.range_succ, List.foldl_append, ih, List.foldl_cons, List.foldl_nil, mixingRound_eq,
      digestC]

/-! ### The text -/

theorem cryptItoa64_get (w : Fin 64) : cryptItoa64.get w = letter w := by
  revert w
  decide

theorem lowSix_val (w : ℕ) : (lowSix w : ℕ) = w % 64 := Nat.and_two_pow_sub_one_eq_mod w 6

/-- The three bytes side by side. -/
theorem packed (b2 b1 b0 : UInt8) : b2.toNat <<< 16 ||| b1.toNat <<< 8 ||| b0.toNat =
    b2.toNat * 65536 + b1.toNat * 256 + b0.toNat := by
  have h1 := b1.toNat_lt
  have h0 := b0.toNat_lt
  have hhigh : b2.toNat <<< 16 ||| b1.toNat <<< 8 = (b2.toNat * 256 + b1.toNat) <<< 8 := by
    rw [Nat.shiftLeft_add b2.toNat 8 8, ← Nat.shiftLeft_or_distrib,
      ← Nat.shiftLeft_add_eq_or_of_lt (by omega), Nat.shiftLeft_eq b2.toNat 8]
  rw [hhigh, ← Nat.shiftLeft_add_eq_or_of_lt (by omega), Nat.shiftLeft_eq]
  omega

/-- The characters of a number in groups of six bits, the lowest first. -/
theorem sextets_eq (w n : ℕ) :
    sextets w n = (List.range n).map fun k => letter (w / 64 ^ k % 64) := by
  induction n generalizing w with
  | zero => rfl
  | succ n ih =>
    have hnext (k : ℕ) : w >>> 6 / 64 ^ k = w / 64 ^ (k + 1) := by
      rw [Nat.shiftRight_eq_div_pow, Nat.div_div_eq_div_mul, Nat.pow_succ' (n := k)]
    rw [sextets, cryptItoa64_get, lowSix_val, ih, List.range_succ_eq_map, List.map_cons,
      List.map_map, Nat.pow_zero, Nat.div_one]
    simp only [hnext, Function.comp_def, Nat.succ_eq_add_one]

theorem crypt_group (b2 b1 b0 : UInt8) : cryptB64From24bit b2 b1 b0 4 = group b0 b1 b2 := by
  have h2 := b2.toNat_lt
  have h1 := b1.toNat_lt
  have h0 := b0.toNat_lt
  rw [cryptB64From24bit, packed, sextets_eq, group]
  generalize hw : b2.toNat * 65536 + b1.toNat * 256 + b0.toNat = w
  have hfirst : w / 64 ^ 0 % 64 = b0.toNat % 64 := by omega
  have hsecond : w / 64 ^ 1 % 64 = b0.toNat / 64 + b1.toNat % 16 * 4 := by omega
  have hthird : w / 64 ^ 2 % 64 = b1.toNat / 16 + b2.toNat % 4 * 16 := by omega
  have hfourth : w / 64 ^ 3 % 64 = b2.toNat / 4 := by omega
  have hfour : List.range 4 = [0, 1, 2, 3] := rfl
  simp only [hfour, List.map_cons, List.map_nil, hfirst, hsecond, hthird, hfourth]

theorem crypt_last (b : UInt8) : cryptB64From24bit 0 0 b 2 = (group b 0 0).take 2 := by
  rw [← crypt_group, cryptB64From24bit, cryptB64From24bit, sextets_eq, sextets_eq, ← List.map_take]
  rfl

theorem enc_eq (c : Digest) : enc c = digestText c := by
  simp only [enc, digestText, crypt_last, crypt_group, order, groups, List.map_cons, List.map_nil,
    List.flatten_cons, List.flatten_nil, List.flatMap_cons, List.flatMap_nil]

/-! ### The salt -/

theorem encodeAscii_eq {t : Text} (h : ∀ c ∈ t, c.toNat < 128) :
    encodeAscii t = some (t.map fun c => c.toNat.toUInt8) := by
  induction t with
  | nil => rfl
  | cons c t ih =>
    have hc : c.toNat < 128 := h c List.mem_cons_self
    have ht := ih fun d hd => h d (List.mem_cons_of_mem c hd)
    rw [encodeAscii] at ht ⊢
    rw [List.mapM_cons, if_pos hc, ht]
    rfl

theorem decodeAscii_map {t : Text} (h : ∀ c ∈ t, c.toNat < 128) :
    decodeAscii (t.map fun c => c.toNat.toUInt8) = some t := by
  induction t with
  | nil => rfl
  | cons c t ih =>
    have hc : c.toNat < 128 := h c List.mem_cons_self
    have ht := ih fun d hd => h d (List.mem_cons_of_mem c hd)
    have hval : c.toNat.toUInt8.toNat = c.toNat := by
      simp only [Nat.toUInt8, UInt8.toNat_ofNat']
      omega
    have hlt : c.toNat.toUInt8 < 128 := by
      rw [UInt8.lt_iff_toNat_lt, hval]
      exact hc
    rw [decodeAscii] at ht ⊢
    rw [List.map_cons, List.mapM_cons, if_pos hlt, ht, hval, Char.ofNat_toNat]
    rfl

theorem ascii_of_itoa64 {c : Char} (h : c ∈ cryptItoa64.toList) : c.toNat < 128 := by
  have hall : (cryptItoa64.toList.all fun d => d.toNat < 128) = true := by decide
  exact of_decide_eq_true (List.all_eq_true.mp hall c h)

/-- The fallback is the scheme, for every password and every salt over the alphabet. -/
theorem sha512Crypt_eq (sha512 : Bytes → Digest) (password salt : Text)
    (hsalt : ∀ c ∈ salt, c ∈ cryptItoa64.toList) :
    sha512Crypt sha512 password salt = some (crypt sha512 (utf8 password) salt) := by
  have hascii : ∀ c ∈ salt, c.toNat < 128 := fun c hc => ascii_of_itoa64 (hsalt c hc)
  have hcut : ∀ c ∈ salt.take 16, c.toNat < 128 := fun c hc => hascii c (List.mem_of_mem_take hc)
  have hlength (bs : Bytes) : (sha512 bs).toList.length = 64 := Vector.length_toList
  have hcopies (bs : Bytes) (n : ℕ) :
      (List.replicate (n / 64 + 1) (sha512 bs).toList).flatten.take n =
        spread (sha512 bs).toList n := take_copies (hlength bs) n _ (by omega)
  simp only [sha512Crypt, encodeAscii_eq hascii, Option.bind_eq_bind, Option.bind_some,
    ← List.map_take, decodeAscii_map hcut, updateBits_eq, updateBlocks_eq (hlength _), repeated,
    hcopies, enc_eq]
  rw [crypt, ← foldl_rounds]
  simp only [digestA, digestB, sequenceP, sequenceS, lengthBits, List.append_assoc]
  rfl

def lengthHash (bs : Bytes) : Digest := Vector.replicate 64 bs.length.toUInt8

theorem sha512Crypt_saltstring :
    sha512Crypt lengthHash "Hello world!".toList "saltstring".toList =
      some (crypt lengthHash (utf8 "Hello world!".toList) "saltstring".toList) := by
  have hall : ("saltstring".toList.all fun c => c ∈ cryptItoa64.toList) = true := by decide
  exact sha512Crypt_eq lengthHash _ _ fun c hc => of_decide_eq_true (List.all_eq_true.mp hall c hc)

end Sha512Crypt
