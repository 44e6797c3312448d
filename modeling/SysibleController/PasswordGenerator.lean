import SysibleController.CredentialChange

/-! Generated admin passwords (`generate_compliant_password` in `backend/policy.py`) against the
check that follows them. What `secrets` draws is arbitrary: a number for each choice, and any
rearrangement for the shuffle. -/
namespace PasswordGenerator

open CredentialChange

def lower : List Char := "abcdefghijklmnopqrstuvwxyz".toList

def upper : List Char := "ABCDEFGHIJKLMNOPQRSTUVWXYZ".toList

def digits : List Char := "0123456789".toList

def symbols : List Char := "!@#$%^&*()-_=+[]\x7b\x7d".toList

def pool : List Char := lower ++ upper ++ digits ++ symbols

/-- The policy for a missing or empty one: all four classes. -/
def orDefault (policy : Option PasswordPolicy) : PasswordPolicy :=
  match policy with
  | none => fourClasses
  | some p => if p = ⟨none, none, none, none, none⟩ then fourClasses else p

def required (p : PasswordPolicy) : List (List Char) :=
  (if requires p.lcredit then [lower] else []) ++ (if requires p.ucredit then [upper] else []) ++
    (if requires p.dcredit then [digits] else []) ++ if requires p.ocredit then [symbols] else []

/-- `secrets.choice` of a text, by the number drawn. -/
def choice (from' : List Char) (draw : ℕ) : Char := from'.getD (draw % from'.length) ' '

/-- The random side: the numbers drawn one after the other, and the shuffle. -/
structure Draws where
  number : ℕ → ℕ
  shuffle : List Char → List Char
  shuffle_perm : ∀ l, (shuffle l).Perm l

def generateCompliantPassword (policy : Option PasswordPolicy) (length : ℤ) (draws : Draws) :
    String :=
  let p := orDefault policy
  let length := max length (p.minlen.getD 12)
  let own := (required p).mapIdx fun i from' => choice from' (draws.number i)
  let rest := (List.range (length - own.length).toNat).map fun i =>
    choice pool (draws.number (own.length + i))
  String.ofList (draws.shuffle (own ++ rest))

variable (policy : Option PasswordPolicy) (length : ℤ) (draws : Draws)

theorem choice_mem {from' : List Char} (h : from' ≠ []) (draw : ℕ) : choice from' draw ∈ from' := by
  have hlt : draw % from'.length < from'.length :=
    Nat.mod_lt _ (List.length_pos_iff.mpr h)
  rw [choice, List.getD_eq_getElem?_getD, List.getElem?_eq_getElem hlt, Option.getD_some]
  exact List.getElem_mem hlt

theorem required_ne_nil {p : PasswordPolicy} {from' : List Char} (h : from' ∈ required p) :
    from' ≠ [] := by
  have hall : from' ∈ [lower, upper, digits, symbols] := by
    simp only [required, List.mem_append] at h
    rcases h with ((h | h) | h) | h <;> split_ifs at h <;> simp_all
  have hne : ∀ l ∈ [lower, upper, digits, symbols], l ≠ [] := by decide
  exact hne _ hall

/-- A required class has a character in the password. -/
theorem exists_mem_of_required {from' : List Char} (h : from' ∈ required (orDefault policy)) :
    ∃ c ∈ (generateCompliantPassword policy length draws).toList, c ∈ from' := by
  obtain ⟨i, hi, rfl⟩ := List.mem_iff_getElem.mp h
  refine ⟨choice ((required (orDefault policy))[i]) (draws.number i), ?_,
    choice_mem (required_ne_nil h) _⟩
  rw [generateCompliantPassword, String.toList_ofList]
  refine (draws.shuffle_perm _).mem_iff.mpr (List.mem_append_left _ ?_)
  exact List.mem_mapIdx.mpr ⟨i, hi, rfl⟩

theorem length_generate : (((generateCompliantPassword policy length draws).length : ℕ) : ℤ) =
    max (max length ((orDefault policy).minlen.getD 12)) (required (orDefault policy)).length := by
  rw [← String.length_toList, generateCompliantPassword, String.toList_ofList,
    (draws.shuffle_perm _).length_eq]
  simp only [List.length_append, List.length_mapIdx, List.length_map, List.length_range]
  omega

/-- A class asked for by the policy that is checked is among those drawn for. -/
theorem requires_orDefault (p : PasswordPolicy) :
    (requires p.lcredit → lower ∈ required (orDefault (some p))) ∧
    (requires p.ucredit → upper ∈ required (orDefault (some p))) ∧
    (requires p.dcredit → digits ∈ required (orDefault (some p))) ∧
    (requires p.ocredit → symbols ∈ required (orDefault (some p))) ∧
    p.minlen.getD 12 ≤ (orDefault (some p)).minlen.getD 12 := by
  unfold orDefault
  by_cases hp : p = ⟨none, none, none, none, none⟩
  · subst hp
    decide
  · simp only [if_neg hp]
    refine ⟨fun h => ?_, fun h => ?_, fun h => ?_, fun h => ?_, le_refl _⟩ <;>
      simp [required, h]

theorem any_of_class {p : Char → Bool} {from' : List Char}
    (h : from' ∈ required (orDefault policy)) (hp : from'.all p = true) :
    (generateCompliantPassword policy length draws).toList.any p = true := by
  obtain ⟨c, hc, hin⟩ := exists_mem_of_required policy length draws h
  exact List.any_eq_true.mpr ⟨c, hc, List.all_eq_true.mp hp c hin⟩

/-- Whatever is drawn, a generated password passes the check of the policy it was generated
for, and it is as long as was asked for, if the policy does not ask for more. -/
theorem generated_passes (p : PasswordPolicy) (length : ℤ) (draws : Draws) :
    validatePasswordAgainstPolicy (generateCompliantPassword (some p) length draws) p = none ∧
      length ≤ (generateCompliantPassword (some p) length draws).length := by
  obtain ⟨hl, hu, hd, ho, hmin⟩ := requires_orDefault p
  have hlen := length_generate (some p) length draws
  refine ⟨?_, by omega⟩
  unfold validatePasswordAgainstPolicy
  dsimp only
  rw [if_neg (by omega)]
  have hlower := fun h => any_of_class (some p) length draws (hl h)
    (p := Char.isLower) (by decide)
  have hupper := fun h => any_of_class (some p) length draws (hu h)
    (p := Char.isUpper) (by decide)
  have hdigit := fun h => any_of_class (some p) length draws (hd h)
    (p := Char.isDigit) (by decide)
  have hsymbol := fun h => any_of_class (some p) length draws (ho h)
    (p := fun c => !(isLetter c || c.isDigit)) (by decide)
  have pass : ∀ (credit : Option ℤ) (found : Bool), (requires credit → found = true) →
      ¬(requires credit && !found) = true := by
    intro credit found h
    cases hr : requires credit <;> simp_all
  rw [if_neg (pass _ _ hlower), if_neg (pass _ _ hupper), if_neg (pass _ _ hdigit),
    if_neg (pass _ _ hsymbol)]

end PasswordGenerator
