import Mathlib.Data.List.DropRight
import Mathlib.Data.Int.Notation
import Mathlib.Data.Rat.Defs

/-! `int(text)` of Python 3.12 on decimal text, over the characters of the text, and `int` of a
number. -/
namespace PythonInt

/-- The blanks `int` strips. The separators U+001C to U+001F are not among them, although
`str.isspace` holds of them. -/
def isBlank (c : Char) : Bool :=
  let n := c.toNat
  (9 ≤ n && n ≤ 13) || (0x2000 ≤ n && n ≤ 0x200a) ||
    [0x20, 0x85, 0xa0, 0x1680, 0x2028, 0x2029, 0x202f, 0x205f, 0x3000].contains n

/-- The zeros of the runs of ten decimal digits, category Nd of Unicode 15. -/
def digitZeros : List ℕ :=
  [0x30, 0x660, 0x6f0, 0x7c0, 0x966, 0x9e6, 0xa66, 0xae6, 0xb66, 0xbe6, 0xc66, 0xce6, 0xd66,
    0xde6, 0xe50, 0xed0, 0xf20, 0x1040, 0x1090, 0x17e0, 0x1810, 0x1946, 0x19d0, 0x1a80, 0x1a90,
    0x1b50, 0x1bb0, 0x1c40, 0x1c50, 0xa620, 0xa8d0, 0xa900, 0xa9d0, 0xa9f0, 0xaa50, 0xabf0,
    0xff10, 0x104a0, 0x10d30, 0x11066, 0x110f0, 0x11136, 0x111d0, 0x112f0, 0x11450, 0x114d0,
    0x11650, 0x116c0, 0x11730, 0x118e0, 0x11950, 0x11c50, 0x11d50, 0x11da0, 0x11f50, 0x16a60,
    0x16ac0, 0x16b50, 0x1d7ce, 0x1d7d8, 0x1d7e2, 0x1d7ec, 0x1d7f6, 0x1e140, 0x1e2f0, 0x1e4f0,
    0x1e950, 0x1fbf0]

def digitValue (c : Char) : Option ℕ :=
  (digitZeros.find? fun start => start ≤ c.toNat && c.toNat < start + 10).map (c.toNat - ·)

/-- Digits, with single underscores allowed between them. -/
def digitValues : List Char → Option (List ℕ)
  | [] => none
  | [c] => (digitValue c).map ([·])
  | c :: '_' :: rest => do return (← digitValue c) :: (← digitValues rest)
  | c :: rest => do return (← digitValue c) :: (← digitValues rest)

/-- Longer texts are refused with a `ValueError`; leading zeros count. -/
def maxStrDigits : ℕ := 4300

def magnitude (text : List Char) : Option ℕ := do
  let ds ← digitValues text
  if ds.length ≤ maxStrDigits then some (ds.foldl (fun n d => 10 * n + d) 0) else none

/-- `none` is the `ValueError`. -/
def pyInt (text : List Char) : Option ℤ :=
  match (text.dropWhile isBlank).rdropWhile isBlank with
  | '-' :: rest => (magnitude rest).map fun n => -(n : ℤ)
  | '+' :: rest => (magnitude rest).map Int.ofNat
  | rest => (magnitude rest).map Int.ofNat

/-- `int` of a number goes towards zero. -/
def truncated (q : ℚ) : ℤ := q.num.tdiv q.den

example : pyInt " 0_7\n".toList = some 7 := by decide

example : pyInt "7_".toList = none := by decide

end PythonInt
