import Mathlib.Data.Rat.Defs
import Mathlib.Data.List.Nodup

/-! JSON values as data, and Python's `==` on them. The two agree but for booleans, which
Python counts as the numbers 0 and 1, and for `NaN`, which Python finds equal to itself only
inside a list or a dictionary, where the one object of the decoder is met twice. -/
namespace JsonEquality

inductive Number where
  | finite (q : ℚ)
  | infinite (negative : Bool)
  | nan
  deriving DecidableEq

inductive Value where
  | null
  | bool (b : Bool)
  | number (n : Number)
  | text (s : String)
  | array (items : List Value)
  | object (members : List (String × Value))

abbrev Members := List (String × Value)

def ofBool (b : Bool) : Number := .finite (if b then 1 else 0)

mutual

/-- Equality of values, where `loosely` a boolean is a number. -/
def agree (loosely : Bool) : Value → Value → Bool
  | .null, .null => true
  | .bool a, .bool b => a = b
  | .bool a, .number n => loosely && ofBool a = n
  | .number n, .bool b => loosely && n = ofBool b
  | .number m, .number n => m = n
  | .text s, .text t => s = t
  | .array xs, .array ys => agreeAll loosely xs ys
  | .object xs, .object ys => xs.length = ys.length && agreeEach loosely xs ys
  | _, _ => false

def agreeAll (loosely : Bool) : List Value → List Value → Bool
  | [], [] => true
  | x :: xs, y :: ys => agree loosely x y && agreeAll loosely xs ys
  | _, _ => false

def agreeEach (loosely : Bool) : Members → Members → Bool
  | [], _ => true
  | (k, x) :: xs, ys =>
    (match ys.lookup k with
      | some y => agree loosely x y
      | none => false) && agreeEach loosely xs ys

end

mutual

/-- No object names a member twice. -/
def wellFormed : Value → Bool
  | .array items => wellFormedAll items
  | .object members => decide (members.map Prod.fst).Nodup && wellFormedEach members
  | _ => true

def wellFormedAll : List Value → Bool
  | [] => true
  | x :: xs => wellFormed x && wellFormedAll xs

def wellFormedEach : Members → Bool
  | [] => true
  | (_, x) :: xs => wellFormed x && wellFormedEach xs

end

/-- The values are the same as JSON data. -/
def same (v w : Value) : Bool := agree false v w

/-- `v == w`. -/
def equal (v w : Value) : Bool :=
  match v, w with
  | .number .nan, .number .nan => false
  | _, _ => agree true v w

def falsy : Value → Bool
  | .null => true
  | .bool b => !b
  | .number n => n = .finite 0
  | .text s => s = ""
  | .array items => items.isEmpty
  | .object members => members.isEmpty

def isNull : Value → Bool
  | .null => true
  | _ => false

def isNan : Value → Bool
  | .number .nan => true
  | _ => false

mutual

theorem agree_loosely : ∀ {v w : Value}, agree false v w = true → agree true v w = true
  | .null, w, h => by cases w <;> simp [agree] at h ⊢
  | .bool _, w, h => by cases w <;> simp [agree] at h ⊢; exact h
  | .number _, w, h => by cases w <;> simp [agree] at h ⊢; exact h
  | .text _, w, h => by cases w <;> simp [agree] at h ⊢; exact h
  | .array xs, w, h => by
    cases w <;> simp only [agree, Bool.false_eq_true] at h ⊢
    exact agreeAll_loosely h
  | .object xs, w, h => by
    cases w <;> simp only [agree, Bool.false_eq_true, Bool.and_eq_true] at h ⊢
    exact ⟨h.1, agreeEach_loosely h.2⟩

theorem agreeAll_loosely : ∀ {xs ys : List Value},
    agreeAll false xs ys = true → agreeAll true xs ys = true
  | [], ys, h => by cases ys <;> simp [agreeAll] at h ⊢
  | x :: xs, ys, h => by
    cases ys with
    | nil => simp [agreeAll] at h
    | cons y ys =>
      simp only [agreeAll, Bool.and_eq_true] at h ⊢
      exact ⟨agree_loosely h.1, agreeAll_loosely h.2⟩

theorem agreeEach_loosely : ∀ {xs ys : Members},
    agreeEach false xs ys = true → agreeEach true xs ys = true
  | [], _, _ => by simp [agreeEach]
  | (k, x) :: xs, ys, h => by
    simp only [agreeEach, Bool.and_eq_true] at h ⊢
    refine ⟨?_, agreeEach_loosely h.2⟩
    cases hy : ys.lookup k with
    | none => simp [hy] at h
    | some y =>
      rw [hy] at h
      exact agree_loosely h.1

end

theorem same_loosely {v w : Value} (h : same v w = true) : agree true v w = true :=
  agree_loosely h

theorem equal_iff {v w : Value} (hv : isNan v = false) :
    equal v w = true ↔ agree true v w = true := by
  fun_cases equal v w with
  | case1 => simp [isNan] at hv
  | case2 => rfl

theorem not_nan_of_equal {v w : Value} (h : equal v w = true) : isNan v = false := by
  cases v with
  | number n =>
    cases n with
    | nan => cases w <;> simp_all [equal, agree, ofBool, isNan]; grind
    | finite q => rfl
    | infinite negative => rfl
  | _ => rfl

theorem nodup_of_wellFormed {m : Members} (h : wellFormed (.object m) = true) :
    (m.map Prod.fst).Nodup := by
  simp only [wellFormed, Bool.and_eq_true, decide_eq_true_eq] at h
  exact h.1

theorem mem_of_lookup {m : Members} {k : String} {v : Value} (h : m.lookup k = some v) :
    (k, v) ∈ m := by
  obtain ⟨before, after, rfl, -⟩ := List.lookup_eq_some_iff.mp h
  simp

/-- Where no member is named twice, each is found under its name. -/
theorem lookup_of_mem {m : Members} {k : String} {v : Value} (h : (m.map Prod.fst).Nodup)
    (hv : (k, v) ∈ m) : m.lookup k = some v := by
  obtain ⟨before, after, rfl⟩ := List.append_of_mem hv
  refine List.lookup_eq_some_iff.mpr ⟨before, after, rfl, ?_⟩
  intro p hp
  rw [List.map_append, List.nodup_append] at h
  have hne : p.1 ≠ k := h.2.2 p.1 (List.mem_map_of_mem hp) k (by simp)
  simpa using hne.symm

theorem lookup_eq_none {m : Members} {k : String} :
    m.lookup k = none ↔ k ∉ m.map Prod.fst := by
  rw [List.lookup_eq_none_iff]
  constructor
  · intro h hk
    obtain ⟨p, hp, rfl⟩ := List.mem_map.mp hk
    simpa using h p hp
  · intro h p hp
    have hne : k ≠ p.1 := by
      rintro rfl
      exact h (List.mem_map_of_mem hp)
    simpa using hne

theorem wellFormed_of_mem {m : Members} {k : String} {v : Value}
    (h : wellFormedEach m = true) (hv : (k, v) ∈ m) : wellFormed v = true := by
  induction m with
  | nil => simp at hv
  | cons entry rest ih =>
    obtain ⟨key, x⟩ := entry
    simp only [wellFormedEach, Bool.and_eq_true] at h
    rcases List.mem_cons.mp hv with heq | hrest
    · obtain ⟨-, rfl⟩ := Prod.mk.inj heq
      exact h.1
    · exact ih h.2 hrest

end JsonEquality
