import Mathlib.Algebra.Order.Group.Int
import Mathlib.Data.List.Basic

/-! Wall clocks of a time zone with piecewise constant UTC offset.

Instants, wall times and offsets are integer microseconds. A wall time that occurs twice is
told apart by its `fold`; in a gap fold 0 reads with the offset before the change and fold 1
with the one after it, so both readings lie outside the gap. Zones have finitely many
changes, as calendars with a last year have. -/
namespace ZonedTime

/-- The offset is `after` from `instant` on. -/
structure Shift where
  instant : ℤ
  after : ℤ

structure Change where
  instant : ℤ
  before : ℤ
  after : ℤ

def changes : ℤ → List Shift → List Change
  | _, [] => []
  | before, s :: later => ⟨s.instant, before, s.after⟩ :: changes s.after later

/-- The wall times that one change skips or repeats end before those of the next begin. So no
wall time occurs three times, which one fold bit could not tell apart. -/
def Separated : ℤ → List Shift → Prop
  | _, [] => True
  | before, s :: later =>
    (∀ n ∈ later.head?, s.instant + max before s.after ≤ n.instant + min s.after n.after) ∧
      Separated s.after later

def offsetAt : ℤ → List Shift → ℤ → ℤ
  | before, [], _ => before
  | before, s :: later, t => if t < s.instant then before else offsetAt s.after later t

/-- The offset a wall time is read with: fold 0 stays with the old offset as long as it is on
the clock, fold 1 takes the new one as soon as it is. -/
def wallOffset (fold : Bool) : ℤ → List Shift → ℤ → ℤ
  | before, [], _ => before
  | before, s :: later, w =>
    if w < s.instant + (if fold then min before s.after else max before s.after) then before
    else wallOffset fold s.after later w

/-- At `t` the clock shows the repeated wall times for the second time. -/
def Change.SecondPass (c : Change) (t : ℤ) : Prop :=
  c.instant ≤ t ∧ t + c.after < c.instant + c.before

def Change.InGap (c : Change) (w : ℤ) : Prop :=
  c.instant + c.before ≤ w ∧ w < c.instant + c.after

instance (c : Change) (t : ℤ) : Decidable (c.SecondPass t) :=
  inferInstanceAs (Decidable (_ ∧ _))

instance decidableSeparated : (before : ℤ) → (l : List Shift) → Decidable (Separated before l)
  | _, [] => .isTrue trivial
  | _, s :: [] => .isTrue ⟨by simp, trivial⟩
  | before, s :: n :: later =>
    have := decidableSeparated s.after (n :: later)
    decidable_of_iff ((s.instant + max before s.after ≤ n.instant + min s.after n.after) ∧
      Separated s.after (n :: later)) (by simp [Separated])

variable {before t w : ℤ} {l : List Shift} {s : Shift}

theorem wallOffset_first : wallOffset false before (s :: l) w =
    if w < s.instant + max before s.after then before else wallOffset false s.after l w := by
  simp [wallOffset]

theorem wallOffset_second : wallOffset true before (s :: l) w =
    if w < s.instant + min before s.after then before else wallOffset true s.after l w := by
  simp [wallOffset]

/-- From a change on, the clock never shows less than that change's smaller wall time. -/
theorem le_local (h : Separated before (s :: l)) (ht : s.instant ≤ t) :
    s.instant + min before s.after ≤ t + offsetAt s.after l t := by
  induction l generalizing before s with
  | nil => simp only [offsetAt]; omega
  | cons n l ih =>
    obtain ⟨hsep, htail⟩ := h
    have hnext := hsep n rfl
    simp only [offsetAt]
    split_ifs with hn
    · omega
    · have := ih htail (not_lt.mp hn)
      omega

/-- Outside a second pass it shows at least the larger one. -/
theorem le_local_of_first (h : Separated before (s :: l)) (ht : s.instant ≤ t)
    (hfirst : s.instant + before ≤ t + s.after) :
    s.instant + max before s.after ≤ t + offsetAt s.after l t := by
  cases l with
  | nil => simp only [offsetAt]; omega
  | cons n l =>
    have hnext := h.1 n rfl
    simp only [offsetAt]
    split_ifs with hn
    · omega
    · have := le_local h.2 (not_lt.mp hn)
      omega

theorem le_of_mem_changes (h : Separated before (s :: l)) {c : Change}
    (hc : c ∈ changes s.after l) :
    s.instant + max before s.after ≤ c.instant + min c.before c.after := by
  induction l generalizing before s with
  | nil => simp [changes] at hc
  | cons n l ih =>
    have hnext := h.1 n rfl
    rcases List.mem_cons.mp hc with rfl | hc
    · exact hnext
    · have := ih h.2 hc
      omega

/-- A wall time past a change is read as an instant past it, unless a fold 1 reading falls
into a later gap. -/
theorem le_reading (fold : Bool) (h : Separated before (s :: l)) (hw : s.instant + s.after ≤ w)
    (hgap : fold = true → ∀ g ∈ changes s.after l, ¬g.InGap w) :
    s.instant ≤ w - wallOffset fold s.after l w := by
  induction l generalizing before s with
  | nil => simp only [wallOffset]; omega
  | cons n l ih =>
    have hnext := h.1 n rfl
    simp only [wallOffset]
    split_ifs with hfold hkey hkey
    · omega
    · have hout := hgap hfold ⟨n.instant, s.after, n.after⟩ (List.mem_cons_self ..)
      simp only [Change.InGap, not_and, not_lt] at hout
      have := ih h.2 (by omega) fun hf g hg => hgap hf g (List.mem_cons_of_mem _ hg)
      omega
    · omega
    · have := ih h.2 (by omega) fun hf => absurd hf hfold
      omega

/-- A clock on its first pass: every later wall time has its fold 0 reading in the future. -/
theorem lt_first_reading (h : Separated before l)
    (hfirst : ∀ c ∈ changes before l, ¬c.SecondPass t) (hw : t + offsetAt before l t < w) :
    t < w - wallOffset false before l w := by
  induction l generalizing before with
  | nil => simp only [offsetAt, wallOffset] at *; omega
  | cons s l ih =>
    have hs := hfirst ⟨s.instant, before, s.after⟩ (List.mem_cons_self ..)
    simp only [Change.SecondPass, not_and, not_lt] at hs
    rw [offsetAt] at hw
    rw [wallOffset_first]
    split_ifs at hw ⊢ with hkey ht ht
    · omega
    · have := le_local_of_first h (not_lt.mp ht) (hs (not_lt.mp ht))
      omega
    · have := le_reading false h (w := w) (by omega) (by simp)
      omega
    · exact ih h.2 (fun c hc => hfirst c (List.mem_cons_of_mem _ hc)) hw

theorem instant_le_of_mem (h : Separated before (s :: l)) {c : Change}
    (hc : c ∈ changes s.after l) : s.instant ≤ c.instant := by
  induction l generalizing before s with
  | nil => simp [changes] at hc
  | cons n l ih =>
    have hnext := h.1 n rfl
    rcases List.mem_cons.mp hc with rfl | hc
    · dsimp only
      omega
    · have := ih h.2 hc
      omega

/-- No further change comes before a second pass is over. -/
theorem lt_instant_of_second_pass (h : Separated before (s :: l))
    (ht : t + s.after < s.instant + before) {c : Change} (hc : c ∈ changes s.after l) :
    t < c.instant := by
  cases l with
  | nil => simp [changes] at hc
  | cons n l =>
    have hnext := h.1 n rfl
    rcases List.mem_cons.mp hc with rfl | hc
    · dsimp only
      omega
    · have := instant_le_of_mem h.2 hc
      omega

theorem offsetAt_eq_of_lt (h : ∀ c ∈ changes before l, t < c.instant) :
    offsetAt before l t = before := by
  cases l with
  | nil => rfl
  | cons s l => exact if_pos (h ⟨s.instant, before, s.after⟩ (List.mem_cons_self ..))

/-- On a second pass the fold 0 reading of a later wall time is still the first one, and lies
in the past, until the repeated hours are over. -/
theorem second_pass_first_reading (h : Separated before l) {c : Change}
    (hc : c ∈ changes before l) (hpass : c.SecondPass t) (hw : t + offsetAt before l t < w) :
    (w < c.instant + c.before → w - wallOffset false before l w < t) ∧
      (c.instant + c.before ≤ w → t < w - wallOffset false before l w) := by
  induction l generalizing before with
  | nil => simp [changes] at hc
  | cons s l ih =>
    rcases List.mem_cons.mp hc with rfl | hc
    · obtain ⟨hle, hlt⟩ := hpass
      dsimp only at hle hlt ⊢
      have hlater := fun c' => lt_instant_of_second_pass h hlt (c := c')
      rw [offsetAt, if_neg (by omega), offsetAt_eq_of_lt hlater] at hw
      rw [wallOffset_first]
      refine ⟨fun hin => ?_, fun hout => ?_⟩
      · rw [if_pos (by omega)]
        omega
      · rw [if_neg (by omega)]
        refine lt_first_reading h.2 (fun c' hc' hp => ?_) (by rwa [offsetAt_eq_of_lt hlater])
        exact absurd hp.1 (not_le.mpr (hlater c' hc'))
    · have hs := instant_le_of_mem h hc
      have hmax := le_of_mem_changes h hc
      obtain ⟨hle, hlt⟩ := hpass
      have hfirst : s.instant + before ≤ t + s.after := by
        by_contra hin
        exact absurd hle (not_le.mpr (lt_instant_of_second_pass h (not_le.mp hin) hc))
      rw [offsetAt, if_neg (by omega)] at hw
      have hlocal := le_local_of_first h (by omega) hfirst
      rw [wallOffset_first, if_neg (by omega)]
      exact ih h.2 hc hw

theorem wallOffset_eq_of_lt {fold : Bool}
    (h : ∀ c ∈ changes before l, w < c.instant + min c.before c.after) :
    wallOffset fold before l w = before := by
  cases l with
  | nil => rfl
  | cons s l =>
    have hs := h ⟨s.instant, before, s.after⟩ (List.mem_cons_self ..)
    refine if_pos ?_
    split_ifs <;> dsimp only at hs <;> omega

/-- A fold 1 reading inside a gap takes the offset after it, and so lands before it. -/
theorem second_reading_of_gap (h : Separated before l) {g : Change} (hg : g ∈ changes before l)
    (hw : g.InGap w) : wallOffset true before l w = g.after := by
  induction l generalizing before with
  | nil => simp [changes] at hg
  | cons s l ih =>
    obtain ⟨hlow, hhigh⟩ := hw
    rw [wallOffset_second]
    rcases List.mem_cons.mp hg with rfl | hg
    · dsimp only at hlow hhigh ⊢
      rw [if_neg (by omega)]
      refine wallOffset_eq_of_lt fun c hc => ?_
      have := le_of_mem_changes h hc
      omega
    · have := le_of_mem_changes h hg
      rw [if_neg (by omega)]
      exact ih h.2 hg

/-- Outside the gaps every later wall time has its fold 1 reading in the future. -/
theorem lt_second_reading (h : Separated before l) (hgap : ∀ g ∈ changes before l, ¬g.InGap w)
    (hw : t + offsetAt before l t < w) : t < w - wallOffset true before l w := by
  induction l generalizing before with
  | nil => simp only [offsetAt, wallOffset] at *; omega
  | cons s l ih =>
    have hs := hgap ⟨s.instant, before, s.after⟩ (List.mem_cons_self ..)
    simp only [Change.InGap, not_and, not_lt] at hs
    have hrest := fun g hg => hgap g (List.mem_cons_of_mem _ hg)
    rw [offsetAt] at hw
    rw [wallOffset_second]
    split_ifs at hw ⊢ with hkey ht ht
    · omega
    · have := le_local h (not_lt.mp ht)
      omega
    · have := le_reading true h (w := w) (by omega) fun _ => hrest
      omega
    · exact ih h.2 hrest hw

structure Zone where
  base : ℤ
  shifts : List Shift
  separated : Separated base shifts

/-- A zone-aware datetime; two of the same zone compare by `wall` alone. -/
structure Aware where
  wall : ℤ
  fold : Bool

def Zone.changes (z : Zone) : List Change := ZonedTime.changes z.base z.shifts

def Zone.offset (z : Zone) (t : ℤ) : ℤ := offsetAt z.base z.shifts t

def Zone.fold (z : Zone) (t : ℤ) : Bool := z.changes.any fun c => c.SecondPass t

def Zone.fromTimestamp (z : Zone) (t : ℤ) : Aware := ⟨t + z.offset t, z.fold t⟩

def Zone.timestamp (z : Zone) (a : Aware) : ℤ := a.wall - wallOffset a.fold z.base z.shifts a.wall

/-- Adding a timedelta moves the wall time and forgets the fold. -/
def Aware.add (a : Aware) (delta : ℤ) : Aware := ⟨a.wall + delta, false⟩

theorem Zone.fold_iff {z : Zone} {t : ℤ} :
    z.fold t = true ↔ ∃ c ∈ z.changes, c.SecondPass t := by
  simp [Zone.fold]

end ZonedTime
