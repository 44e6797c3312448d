import Mathlib.Data.List.Nodup
import Mathlib.Data.List.Count

/-! Tables with a primary key. A row is found by its key alone, and every statement on the
table is described by what it does to the row found under each key; the uniqueness of keys
is part of the type, so no later proof carries it. -/
namespace KeyedTable

variable {ρ κ : Type*}

structure Table (key : ρ → κ) where
  rows : List ρ
  unique : (rows.map key).Nodup

namespace Table

variable {key : ρ → κ}

def empty : Table key := ⟨[], by simp⟩

instance : Inhabited (Table key) := ⟨empty⟩

variable [DecidableEq κ]

def find (t : Table key) (k : κ) : Option ρ := t.rows.find? fun r => key r = k

def deleteWhere (t : Table key) (p : ρ → Bool) : Table key :=
  ⟨t.rows.filter fun r => !p r, t.unique.sublist (List.filter_sublist.map key)⟩

/-- `UPDATE … SET … WHERE key = k`, for a change that leaves the key alone. -/
def update (t : Table key) (k : κ) (f : ρ → ρ) (hf : ∀ r, key (f r) = key r) : Table key :=
  ⟨t.rows.map fun r => if key r = k then f r else r, by
    have : (key ∘ fun r => if key r = k then f r else r) = key := by
      funext r
      by_cases h : key r = k <;> simp [h, hf]
    simpa [List.map_map, this] using t.unique⟩

/-- `INSERT OR REPLACE`. -/
def put (t : Table key) (r : ρ) : Table key :=
  ⟨(t.rows.filter fun q => key q ≠ key r) ++ [r], by
    rw [List.map_append, List.nodup_append]
    refine ⟨t.unique.sublist (List.filter_sublist.map key), by simp, ?_⟩
    intro a ha b hb
    obtain ⟨q, hq, rfl⟩ := List.mem_map.mp ha
    obtain rfl : b = key r := by simpa using hb
    simpa using (List.mem_filter.mp hq).2⟩

def count (t : Table key) (p : ρ → Bool) : ℕ := t.rows.countP p

theorem find_eq_some {t : Table key} {k : κ} {r : ρ} :
    t.find k = some r ↔ r ∈ t.rows ∧ key r = k := by
  constructor
  · intro h
    exact ⟨List.mem_of_find?_eq_some h, by simpa using List.find?_some h⟩
  · rintro ⟨hr, rfl⟩
    cases hq : t.find (key r) with
    | none => simpa using List.find?_eq_none.mp hq r hr
    | some q =>
      have hk : key q = key r := by simpa using List.find?_some hq
      exact congrArg some (List.inj_on_of_nodup_map t.unique (List.mem_of_find?_eq_some hq) hr hk)

theorem key_of_find {t : Table key} {k : κ} {r : ρ} (h : t.find k = some r) : key r = k :=
  (find_eq_some.mp h).2

@[simp] theorem find_empty (k : κ) : (empty : Table key).find k = none := rfl

@[simp] theorem find_deleteWhere (t : Table key) (p : ρ → Bool) (k : κ) :
    (t.deleteWhere p).find k = (t.find k).filter fun r => !p r := by
  apply Option.ext
  intro r
  simp only [find_eq_some, Option.filter_eq_some_iff, deleteWhere,
    List.mem_filter]
  tauto

@[simp] theorem find_update (t : Table key) (k : κ) (f : ρ → ρ) (hf : ∀ r, key (f r) = key r)
    (j : κ) : (t.update k f hf).find j = if j = k then (t.find j).map f else t.find j := by
  apply Option.ext
  intro r
  by_cases hj : j = k
  · subst hj
    simp only [if_pos, Option.map_eq_some_iff, find_eq_some, update,
      List.mem_map]
    constructor
    · rintro ⟨⟨q, hq, rfl⟩, hk⟩
      by_cases hqk : key q = j
      · exact ⟨q, ⟨hq, hqk⟩, by simp [hqk]⟩
      · simp [hqk] at hk
    · rintro ⟨q, ⟨hq, hk⟩, rfl⟩
      exact ⟨⟨q, hq, by simp [hk]⟩, by rw [hf, hk]⟩
  · simp only [if_neg hj, find_eq_some, update, List.mem_map]
    constructor
    · rintro ⟨⟨q, hq, rfl⟩, hk⟩
      by_cases hqk : key q = k
      · exact absurd (by simpa [hqk, hf] using hk.symm) hj
      · simpa [hqk] using ⟨hq, by simpa [hqk] using hk⟩
    · rintro ⟨hr, hk⟩
      exact ⟨⟨r, hr, by simp [hk, hj]⟩, hk⟩

@[simp] theorem find_put (t : Table key) (r : ρ) (j : κ) :
    (t.put r).find j = if j = key r then some r else t.find j := by
  apply Option.ext
  intro q
  by_cases hj : j = key r
  · subst hj
    simp only [if_pos, find_eq_some, put, List.mem_append, List.mem_filter,
      List.mem_singleton, Option.some.injEq]
    constructor
    · rintro ⟨⟨-, hne⟩ | rfl, hk⟩
      · simp [hk] at hne
      · rfl
    · rintro rfl
      exact ⟨Or.inr rfl, rfl⟩
  · simp only [if_neg hj, find_eq_some, put, List.mem_append, List.mem_filter,
      List.mem_singleton]
    constructor
    · rintro ⟨⟨hq, -⟩ | rfl, hk⟩
      · exact ⟨hq, hk⟩
      · exact absurd hk.symm hj
    · rintro ⟨hq, rfl⟩
      exact ⟨Or.inl ⟨hq, by simpa using hj⟩, rfl⟩

theorem count_pos {t : Table key} {p : ρ → Bool} :
    0 < t.count p ↔ ∃ k r, t.find k = some r ∧ p r = true := by
  unfold count
  rw [List.countP_pos_iff]
  constructor
  · rintro ⟨r, hr, hp⟩
    exact ⟨key r, r, find_eq_some.mpr ⟨hr, rfl⟩, hp⟩
  · rintro ⟨k, r, hr, hp⟩
    exact ⟨r, (find_eq_some.mp hr).1, hp⟩

/-- Among two counted rows there is one under another key than any given one. -/
theorem exists_other {t : Table key} {p : ρ → Bool} (h : 1 < t.count p) (k : κ) :
    ∃ j r, j ≠ k ∧ t.find j = some r ∧ p r = true := by
  by_contra hnone
  push Not at hnone
  have hall : ∀ r ∈ t.rows.filter p, key r = k := by
    intro r hr
    obtain ⟨hr, hp⟩ := List.mem_filter.mp hr
    by_contra hk
    exact hnone (key r) r hk (find_eq_some.mpr ⟨hr, rfl⟩) hp
  have hnd : ((t.rows.filter p).map key).Nodup :=
    t.unique.sublist (List.filter_sublist.map key)
  rw [count, List.countP_eq_length_filter] at h
  match hl : t.rows.filter p with
  | [] => simp [hl] at h
  | [_] => simp [hl] at h
  | a :: b :: rest =>
    rw [hl] at hnd hall
    have hab : key a = key b := by rw [hall a (by simp), hall b (by simp)]
    simp [hab] at hnd

/-- Every row is rewritten or dropped in one pass. -/
def filterMap (t : Table key) (f : ρ → Option ρ) (hf : ∀ r q, f r = some q → key q = key r) :
    Table key :=
  ⟨t.rows.filterMap f, by
    have keys : ∀ l : List ρ, ((l.filterMap f).map key).Sublist (l.map key) := by
      intro l
      induction l with
      | nil => simp
      | cons r l ih =>
        cases h : f r with
        | none => simpa [List.filterMap_cons, h] using ih.cons (key r)
        | some q => simpa [List.filterMap_cons, h, hf r q h] using ih.cons_cons (key r)
    exact t.unique.sublist (keys t.rows)⟩

theorem find_filterMap (t : Table key) (f : ρ → Option ρ)
    (hf : ∀ r q, f r = some q → key q = key r) (k : κ) :
    (t.filterMap f hf).find k = (t.find k).bind f := by
  apply Option.ext
  intro q
  simp only [find_eq_some, filterMap, List.mem_filterMap, Option.bind_eq_some_iff]
  constructor
  · rintro ⟨⟨r, hr, hq⟩, hk⟩
    exact ⟨r, ⟨hr, by rw [← hf r q hq, hk]⟩, hq⟩
  · rintro ⟨r, ⟨hr, hk⟩, hq⟩
    exact ⟨⟨r, hr, hq⟩, by rw [hf r q hq, hk]⟩

end Table

end KeyedTable
