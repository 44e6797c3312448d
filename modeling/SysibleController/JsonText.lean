import SysibleController.PythonRepr
import Mathlib.Algebra.GroupWithZero.Nat

/-! `json.dumps` of a text, which goes out as ASCII, and the characters it takes. -/
namespace JsonText

open PathText PythonRepr

def unicodeEscape (n : ℕ) : Text := '\\' :: 'u' :: hexText 4 n

def escapeChar (c : Char) : Text :=
  if c = '"' ∨ c = '\\' then ['\\', c]
  else if c = '\n' then ['\\', 'n']
  else if c = '\r' then ['\\', 'r']
  else if c = '\t' then ['\\', 't']
  else if c.toNat = 8 then ['\\', 'b']
  else if c.toNat = 12 then ['\\', 'f']
  else if 0x20 ≤ c.toNat ∧ c.toNat < 0x7f then [c]
  else if c.toNat < 0x10000 then unicodeEscape c.toNat
  else unicodeEscape (0xd800 + (c.toNat - 0x10000) / 0x400) ++
    unicodeEscape (0xdc00 + (c.toNat - 0x10000) % 0x400)

def dumps (t : Text) : Text := '"' :: (t.flatMap escapeChar ++ ['"'])

/-- What a character takes. -/
def cost (c : Char) : ℕ :=
  if c = '"' ∨ c = '\\' ∨ c = '\n' ∨ c = '\r' ∨ c = '\t' ∨ c.toNat = 8 ∨ c.toNat = 12 then 2
  else if 0x20 ≤ c.toNat ∧ c.toNat < 0x7f then 1
  else if c.toNat < 0x10000 then 6
  else 12

def textCost (t : Text) : ℕ := (t.map cost).sum

theorem length_unicodeEscape {n : ℕ} (h : n < 0x10000) : (unicodeEscape n).length = 6 := by
  have hdigits : (Nat.toDigits 16 n).length ≤ 4 :=
    (Nat.length_toDigits_le_iff (by omega) (by omega)).mpr h
  simp only [unicodeEscape, hexText, List.length_cons, List.length_append, List.length_replicate]
  omega

theorem length_escapeChar (c : Char) : (escapeChar c).length = cost c := by
  have hmax : c.toNat < 0x110000 := by
    have hvalid : c.toNat < 0xd800 ∨ 0xdfff < c.toNat ∧ c.toNat < 0x110000 := c.valid
    omega
  rw [escapeChar, cost]
  by_cases hquote : c = '"' ∨ c = '\\'
  · rw [if_pos hquote, if_pos (by tauto)]
    rfl
  by_cases hn : c = '\n'
  · rw [if_neg hquote, if_pos hn, if_pos (by tauto)]
    rfl
  by_cases hr : c = '\r'
  · rw [if_neg hquote, if_neg hn, if_pos hr, if_pos (by tauto)]
    rfl
  by_cases ht : c = '\t'
  · rw [if_neg hquote, if_neg hn, if_neg hr, if_pos ht, if_pos (by tauto)]
    rfl
  by_cases h8 : c.toNat = 8
  · rw [if_neg hquote, if_neg hn, if_neg hr, if_neg ht, if_pos h8, if_pos (by tauto)]
    rfl
  by_cases h12 : c.toNat = 12
  · rw [if_neg hquote, if_neg hn, if_neg hr, if_neg ht, if_neg h8, if_pos h12, if_pos (by tauto)]
    rfl
  have hother : ¬(c = '"' ∨ c = '\\' ∨ c = '\n' ∨ c = '\r' ∨ c = '\t' ∨ c.toNat = 8 ∨
      c.toNat = 12) := by tauto
  rw [if_neg hquote, if_neg hn, if_neg hr, if_neg ht, if_neg h8, if_neg h12, if_neg hother]
  by_cases hascii : 0x20 ≤ c.toNat ∧ c.toNat < 0x7f
  · rw [if_pos hascii, if_pos hascii]
    rfl
  rw [if_neg hascii, if_neg hascii]
  by_cases hplane : c.toNat < 0x10000
  · rw [if_pos hplane, if_pos hplane, length_unicodeEscape hplane]
  · rw [if_neg hplane, if_neg hplane, List.length_append, length_unicodeEscape (by omega),
      length_unicodeEscape (by omega)]

theorem length_dumps (t : Text) : (dumps t).length = textCost t + 2 := by
  induction t with
  | nil => rfl
  | cons c t ih =>
    simp only [dumps, textCost, List.length_cons, List.length_append, List.flatMap_cons,
      List.map_cons, List.sum_cons, length_escapeChar] at ih ⊢
    omega

end JsonText
