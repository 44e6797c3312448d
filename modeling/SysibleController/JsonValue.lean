import Mathlib.Data.Rat.Defs

/-! JSON values as Python reads them: truth, the number zero and the members of an object. -/
namespace JsonValue

/-- A float that is no number, or infinite, has no value. -/
inductive Json where
  | null
  | bool (b : Bool)
  | int (n : ℤ)
  | float (value : Option ℚ)
  | str (s : String)
  | arr (items : List Json)
  | obj (fields : List (String × Json))

/-- `bool(v)`. -/
def truthy : Json → Bool
  | .null => false
  | .bool b => b
  | .int n => n ≠ 0
  | .float value => value ≠ some 0
  | .str s => s ≠ ""
  | .arr items => !items.isEmpty
  | .obj fields => !fields.isEmpty

/-- The value is a number, and it is zero. -/
def isZero : Json → Bool
  | .int n => n = 0
  | .float value => value = some 0
  | _ => false

/-- `v == 0`: Python takes `False` for zero. -/
def equalsZero : Json → Bool
  | .bool b => !b
  | v => isZero v

/-- `d.get(key)`, where a member of a dictionary may be `None` itself. -/
def get (key : String) (fields : List (String × Json)) : Option Json :=
  fields.lookup key

/-- `d.get(key, default)`. -/
def getOr (key : String) (default : Json) (fields : List (String × Json)) : Json :=
  (get key fields).getD default

def Json.isNull : Json → Bool
  | .null => true
  | _ => false

def Json.isStr : Json → Bool
  | .str _ => true
  | _ => false

/-- `v or ""` is a text. -/
def blankOrText (v : Json) : Bool := !truthy v || v.isStr

@[simp] theorem truthy_null : truthy .null = false := rfl

@[simp] theorem isNull_null : Json.null.isNull = true := rfl

@[simp] theorem equalsZero_null : equalsZero .null = false := rfl

theorem isNull_iff {v : Json} : v.isNull = true ↔ v = .null := by
  cases v <;> simp [Json.isNull]

theorem equalsZero_iff {v : Json} : equalsZero v = true ↔ isZero v = true ∨ v = .bool false := by
  cases v <;> simp [equalsZero, isZero]

end JsonValue
