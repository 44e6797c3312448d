import SysibleController.PathText

/-! Base64 as Python computes it: `base64.b64encode`, and `base64.b64decode` without validation,
which takes a text one character at a time. -/
namespace Base64

open PathText

def alphabet : Text :=
  "ABCDEFGHIJKLMNOPQRSTUVWXYZabcdefghijklmnopqrstuvwxyz0123456789+/".toList

def digit (n : ℕ) : Char := alphabet.getD n '='

def value (c : Char) : Option ℕ := alphabet.findIdx? (· = c)

/-- Three bytes are four digits. -/
def encode : List UInt8 → Text
  | [] => []
  | [a] => [digit (a.toNat / 4), digit (a.toNat % 4 * 16), '=', '=']
  | [a, b] =>
    [digit (a.toNat / 4), digit (a.toNat % 4 * 16 + b.toNat / 16), digit (b.toNat % 16 * 4), '=']
  | a :: b :: c :: rest =>
    digit (a.toNat / 4) :: digit (a.toNat % 4 * 16 + b.toNat / 16) ::
      digit (b.toNat % 16 * 4 + c.toNat / 64) :: digit (c.toNat % 64) :: encode rest

/-- Where the decoder is in four digits: how many it has, the bits left over from the last of
them, and the padding since. -/
structure Place where
  digits : ℕ
  left : ℕ
  pads : ℕ

/-- The byte that a digit completes, and the place after it. -/
def Place.next (s : Place) (v : ℕ) : List UInt8 × Place :=
  match s.digits with
  | 0 => ([], ⟨1, v, 0⟩)
  | 1 => ([UInt8.ofNat (s.left * 4 + v / 16)], ⟨2, v % 16, 0⟩)
  | 2 => ([UInt8.ofNat (s.left * 16 + v / 4)], ⟨3, v % 4, 0⟩)
  | _ => ([UInt8.ofNat (s.left * 64 + v)], ⟨0, 0, 0⟩)

/-- Other characters are passed over; `none` is the error for a text that ends within a group. -/
def decodeFrom : Place → Text → Option (List UInt8)
  | s, [] => if s.digits = 0 then some [] else none
  | s, c :: rest =>
    if c = '=' then
      if 2 ≤ s.digits ∧ 4 ≤ s.digits + (s.pads + 1) then some []
      else decodeFrom { s with pads := s.pads + 1 } rest
    else
      match value c with
      | none => decodeFrom s rest
      | some v => (decodeFrom (s.next v).2 rest).map ((s.next v).1 ++ ·)

def decode (text : Text) : Option (List UInt8) := decodeFrom ⟨0, 0, 0⟩ text

variable {c : Char} {n : ℕ} {s : Place} {bytes : List UInt8} {rest : Text}

theorem next_zero (l p v : ℕ) : (⟨0, l, p⟩ : Place).next v = ([], ⟨1, v, 0⟩) := rfl

theorem next_one (l p v : ℕ) :
    (⟨1, l, p⟩ : Place).next v = ([UInt8.ofNat (l * 4 + v / 16)], ⟨2, v % 16, 0⟩) := rfl

theorem next_two (l p v : ℕ) :
    (⟨2, l, p⟩ : Place).next v = ([UInt8.ofNat (l * 16 + v / 4)], ⟨3, v % 4, 0⟩) := rfl

theorem next_three (l p v : ℕ) :
    (⟨3, l, p⟩ : Place).next v = ([UInt8.ofNat (l * 64 + v)], ⟨0, 0, 0⟩) := rfl

theorem value_digit (h : n < 64) : value (digit n) = some n ∧ digit n ≠ '=' := by
  have hall : ((List.range 64).all fun k => value (digit k) = some k ∧ digit k ≠ '=') = true := by
    decide +kernel
  simpa using List.all_eq_true.mp hall n (List.mem_range.mpr h)

theorem decodeFrom_digit (h : n < 64) :
    decodeFrom s (digit n :: rest) = (decodeFrom (s.next n).2 rest).map ((s.next n).1 ++ ·) := by
  obtain ⟨hvalue, hne⟩ := value_digit h
  rw [decodeFrom, if_neg hne, hvalue]

theorem ofNat_of_eq {a : UInt8} (h : n = a.toNat) : UInt8.ofNat n = a := by
  rw [h, UInt8.ofNat_toNat]

theorem decode_encode (bytes : List UInt8) : decode (encode bytes) = some bytes := by
  unfold decode
  fun_induction encode bytes with
  | case1 => rfl
  | case2 a =>
    have ha := a.toNat_lt
    rw [decodeFrom_digit (by omega), next_zero, decodeFrom_digit (by omega), next_one]
    have hbyte : UInt8.ofNat (a.toNat / 4 * 4 + a.toNat % 4 * 16 / 16) = a :=
      ofNat_of_eq (by omega)
    dsimp only
    rw [hbyte]
    simp [decodeFrom]
  | case3 a b =>
    have ha := a.toNat_lt
    have hb := b.toNat_lt
    rw [decodeFrom_digit (by omega), next_zero, decodeFrom_digit (by omega), next_one,
      decodeFrom_digit (by omega), next_two]
    have hfirst : UInt8.ofNat (a.toNat / 4 * 4 + (a.toNat % 4 * 16 + b.toNat / 16) / 16) = a :=
      ofNat_of_eq (by omega)
    have hsecond : UInt8.ofNat ((a.toNat % 4 * 16 + b.toNat / 16) % 16 * 16 +
        b.toNat % 16 * 4 / 4) = b := ofNat_of_eq (by omega)
    dsimp only
    rw [hfirst, hsecond]
    simp [decodeFrom]
  | case4 a b c rest ih =>
    have ha := a.toNat_lt
    have hb := b.toNat_lt
    have hc := c.toNat_lt
    rw [decodeFrom_digit (by omega), next_zero, decodeFrom_digit (by omega), next_one,
      decodeFrom_digit (by omega), next_two, decodeFrom_digit (by omega), next_three]
    have hfirst : UInt8.ofNat (a.toNat / 4 * 4 + (a.toNat % 4 * 16 + b.toNat / 16) / 16) = a :=
      ofNat_of_eq (by omega)
    have hsecond : UInt8.ofNat ((a.toNat % 4 * 16 + b.toNat / 16) % 16 * 16 +
        (b.toNat % 16 * 4 + c.toNat / 64) / 4) = b := ofNat_of_eq (by omega)
    have hthird : UInt8.ofNat ((b.toNat % 16 * 4 + c.toNat / 64) % 4 * 64 + c.toNat % 64) = c :=
      ofNat_of_eq (by omega)
    dsimp only
    rw [hfirst, hsecond, hthird, ih]
    simp

theorem length_encode (bytes : List UInt8) :
    (encode bytes).length = 4 * ((bytes.length + 2) / 3) := by
  fun_induction encode bytes with
  | case1 => rfl
  | case2 => simp
  | case3 => simp
  | case4 a b c rest ih =>
    simp only [List.length_cons, ih]
    omega

/-- The characters of an encoded text. -/
theorem mem_encode (h : c ∈ encode bytes) : c ∈ '=' :: alphabet := by
  have hdigit : ∀ k, digit k ∈ '=' :: alphabet := by
    intro k
    rw [digit, List.getD_eq_getElem?_getD]
    cases hk : alphabet[k]? with
    | none => exact List.mem_cons_self
    | some d => exact List.mem_cons_of_mem _ (List.mem_of_getElem? hk)
  fun_induction encode bytes with
  | case1 => exact nomatch h
  | case2 a =>
    simp only [List.mem_cons, List.not_mem_nil, or_false] at h
    rcases h with rfl | rfl | rfl | rfl <;> first | exact hdigit _ | exact List.mem_cons_self
  | case3 a b =>
    simp only [List.mem_cons, List.not_mem_nil, or_false] at h
    rcases h with rfl | rfl | rfl | rfl <;> first | exact hdigit _ | exact List.mem_cons_self
  | case4 a b d rest ih =>
    simp only [List.mem_cons] at h
    rcases h with rfl | rfl | rfl | rfl | h
    · exact hdigit _
    · exact hdigit _
    · exact hdigit _
    · exact hdigit _
    · exact ih h

end Base64
