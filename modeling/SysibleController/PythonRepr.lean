import SysibleController.PathText

/-! `repr` of a Python `str`. -/
namespace PythonRepr

open PathText

def hexText (width n : ℕ) : Text :=
  List.replicate (width - (Nat.toDigits 16 n).length) '0' ++ Nat.toDigits 16 n

variable (printable : Char → Bool)

def reprChar (quote c : Char) : Text :=
  if c = quote ∨ c = '\\' then ['\\', c]
  else if c = '\t' then "\\t".toList
  else if c = '\n' then "\\n".toList
  else if c = '\r' then "\\r".toList
  else if c.toNat < 0x20 ∨ c.toNat = 0x7f then "\\x".toList ++ hexText 2 c.toNat
  else if c.toNat < 0x7f ∨ printable c = true then [c]
  else if c.toNat ≤ 0xff then "\\x".toList ++ hexText 2 c.toNat
  else if c.toNat ≤ 0xffff then "\\u".toList ++ hexText 4 c.toNat
  else "\\U".toList ++ hexText 8 c.toNat

/-- `repr` of a text; what is printable beyond ASCII is a table of Unicode. -/
def repr (t : Text) : Text :=
  let quote := if '\'' ∈ t ∧ '"' ∉ t then '"' else '\''
  quote :: (t.flatMap (reprChar printable quote) ++ [quote])

end PythonRepr
