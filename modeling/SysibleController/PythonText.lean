import SysibleController.PythonInt
import Mathlib.Data.String.Basic
import Mathlib.Order.RelClasses

/-! The operations of Python's `str` that the handlers use, and the exception they answer a
request with. -/
namespace PythonText

/-- `str.isspace` of one character. -/
def isSpace (c : Char) : Bool :=
  PythonInt.isBlank c || (0x1c ≤ c.toNat && c.toNat ≤ 0x1f)

/-- With the next one, what `sorted` asks of the order of texts. -/
instance isTrans_le : IsTrans String fun a b => a ≤ b := ⟨fun _ _ _ => le_trans⟩

instance antisymm_le : Std.Antisymm fun a b : String => a ≤ b := ⟨fun _ _ => le_antisymm⟩

def strip (text : String) : String :=
  String.ofList ((text.toList.dropWhile isSpace).reverse.dropWhile isSpace).reverse

/-- `str.lower` on ASCII letters, which is what the words it is compared with are made of. -/
def lower (text : String) : String := String.ofList (text.toList.map Char.toLower)

/-- The parts before and after the first `sep`; all of the text when there is none. -/
def partition (sep : Char) (text : String) : String × String :=
  (String.ofList (text.toList.takeWhile (· ≠ sep)),
    String.ofList ((text.toList.dropWhile (· ≠ sep)).drop 1))

theorem partition_append {sep : Char} {before after : String} (h : sep ∉ before.toList) :
    partition sep (before ++ String.singleton sep ++ after) = (before, after) := by
  have hall : ∀ c ∈ before.toList, decide (c ≠ sep) = true := by
    intro c hc
    rw [decide_eq_true_eq]
    rintro rfl
    exact h hc
  simp only [partition, String.toList_append, String.toList_singleton, List.append_assoc]
  rw [List.takeWhile_append_of_pos hall, List.dropWhile_append_of_pos hall]
  simp

structure HTTPException where
  statusCode : ℕ
  detail : String
  deriving DecidableEq, Repr

end PythonText
