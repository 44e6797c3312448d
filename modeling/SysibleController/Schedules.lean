import SysibleController.DecimalRounding
import SysibleController.PythonInt
import SysibleController.ZonedTime
import Mathlib.Order.Bounds.Basic

/-! The next run of a scheduled job (`compute_next_run`).

Time stamps count microseconds, `from_ts` as an exact rational. The zone is the one
`_schedule_tz` found; its fallback to naive local time is left out. -/
namespace Schedules

open ZonedTime DecimalRounding PythonInt

/-- Any cadence but `hourly` and `weekly` is treated as `daily`. -/
inductive Cadence where
  | hourly
  | daily
  | weekly

/-- `atText` is the field `at`, and `weekday` the field as `int` reads it; both may be missing. -/
structure Job where
  cadence : Cadence
  atText : Option String
  weekday : Option ℤ

structure TimeOfDay where
  hour : ℤ
  minute : ℤ
  valid : (0 ≤ hour ∧ hour ≤ 23) ∧ 0 ≤ minute ∧ minute ≤ 59

def twoOClock : TimeOfDay := ⟨2, 0, by decide⟩

def parseHhmm (atText : Option String) : TimeOfDay :=
  let text := match atText with
    | none => "02:00"
    | some s => if s = "" then "02:00" else s
  match text.toList.splitOn ':' with
  | [h, m] =>
    match pyInt h, pyInt m with
    | some h, some m =>
      if hv : (0 ≤ h ∧ h ≤ 23) ∧ 0 ≤ m ∧ m ≤ 59 then ⟨h, m, hv⟩ else twoOClock
    | _, _ => twoOClock
  | _ => twoOClock

def minute : ℤ := 60000000
def hour : ℤ := 3600000000
def day : ℤ := 86400000000

/-- `replace(minute=m, second=0, microsecond=0)`; like every `replace` it keeps the fold. -/
def replaceMinute (a : Aware) (m : ℤ) : Aware := { a with wall := a.wall / hour * hour + m * minute }

/-- `replace(hour=h, minute=m, second=0, microsecond=0)` -/
def replaceTime (a : Aware) (h m : ℤ) : Aware :=
  { a with wall := a.wall / day * day + (h * hour + m * minute) }

/-- Monday is 0; the epoch was a Thursday. -/
def weekdayOf (wall : ℤ) : ℤ := (wall / day + 3) % 7

def nextSlot (job : Job) (now : Aware) : Aware :=
  let tod := parseHhmm job.atText
  match job.cadence with
  | .hourly =>
    let nxt := replaceMinute now tod.minute
    if nxt.wall ≤ now.wall then nxt.add hour else nxt
  | .weekly =>
    let wd := job.weekday.getD 0 % 7
    let nxt := replaceTime now tod.hour tod.minute
    let nxt := nxt.add ((wd - weekdayOf nxt.wall) % 7 * day)
    if nxt.wall ≤ now.wall then nxt.add (7 * day) else nxt
  | .daily =>
    let nxt := replaceTime now tod.hour tod.minute
    if nxt.wall ≤ now.wall then nxt.add day else nxt

def computeNextRun (zone : Zone) (job : Job) (fromTs : ℚ) : ℤ :=
  zone.timestamp (nextSlot job (zone.fromTimestamp (roundHalfEven fromTs)))

/-! ### What the wall clock of the next run is -/

def OnSchedule (job : Job) (w : ℤ) : Prop :=
  let tod := parseHhmm job.atText
  match job.cadence with
  | .hourly => w % hour = tod.minute * minute
  | .daily => w % day = tod.hour * hour + tod.minute * minute
  | .weekly => w % day = tod.hour * hour + tod.minute * minute ∧
      weekdayOf w = job.weekday.getD 0 % 7

def NextSlot (job : Job) (w w' : ℤ) : Prop := IsLeast {x | w < x ∧ OnSchedule job x} w'

/-- `replace` alone reaches the slot, with no timedelta added. -/
def ByReplace (job : Job) (w w' : ℤ) : Prop :=
  match job.cadence with
  | .hourly => w' / hour = w / hour
  | .daily => w' / day = w / day
  | .weekly => False

instance (job : Job) (w w' : ℤ) : Decidable (ByReplace job w w') := by
  unfold ByReplace; cases job.cadence <;> infer_instance

/-- The next time with a given remainder, found from the start of the current period. -/
theorem isLeast_next {p r : ℤ} (hr : 0 ≤ r ∧ r < p) (w : ℤ) :
    IsLeast {x | w < x ∧ x % p = r}
      (if w / p * p + r ≤ w then w / p * p + r + p else w / p * p + r) := by
  have hp : 0 < p := by omega
  have hw := Int.emod_add_mul_ediv w p
  have hwlt := Int.emod_lt_of_pos w hp
  have hmod : ∀ k, (k * p + r) % p = r := fun k => by
    rw [Int.mul_add_emod_self_right, Int.emod_eq_of_lt hr.1 hr.2]
  have hlow : ∀ x ∈ {x | w < x ∧ x % p = r}, w / p * p + r ≤ x ∧
      (w / p * p + r ≤ w → w / p * p + r + p ≤ x) := by
    rintro x ⟨hx, hxr⟩
    have hdiv := Int.emod_add_mul_ediv x p
    rw [hxr] at hdiv
    have hq : w / p ≤ x / p := Int.ediv_le_ediv hp hx.le
    refine ⟨by nlinarith, fun hle => ?_⟩
    have hne : w / p ≠ x / p := fun heq => by
      rw [heq] at hle
      linarith
    have hsucc : w / p + 1 ≤ x / p := by omega
    nlinarith
  split_ifs with hle
  · refine ⟨⟨by linarith [mul_comm p (w / p)], ?_⟩, fun x hx => (hlow x hx).2 hle⟩
    have := hmod (w / p + 1)
    rwa [add_mul, one_mul, add_right_comm] at this
  · exact ⟨⟨by linarith, hmod _⟩, fun x hx => (hlow x hx).1⟩

/-- The same for one day of the week. -/
theorem isLeast_next_weekday {r : ℤ} (hr : 0 ≤ r ∧ r < day) (wd w : ℤ) :
    let today := w / day * day + r
    let found := today + (wd % 7 - weekdayOf today) % 7 * day
    IsLeast {x | w < x ∧ x % day = r ∧ weekdayOf x = wd % 7}
      (if found ≤ w then found + 7 * day else found) := by
  simp only [day, weekdayOf] at *
  refine ⟨?_, ?_⟩
  · simp only [Set.mem_ofPred_eq]
    split_ifs <;> omega
  · rintro x ⟨hx, hxr, hxd⟩
    split_ifs <;> omega

theorem TimeOfDay.bounds (t : TimeOfDay) :
    (0 ≤ t.minute * Schedules.minute ∧ t.minute * Schedules.minute < Schedules.hour) ∧
    0 ≤ t.hour * Schedules.hour + t.minute * Schedules.minute ∧
      t.hour * Schedules.hour + t.minute * Schedules.minute < day := by
  have := t.valid
  simp only [Schedules.minute, Schedules.hour, day]
  omega

theorem nextSlot_isLeast (job : Job) (now : Aware) :
    NextSlot job now.wall (nextSlot job now).wall := by
  obtain ⟨hminute, htime⟩ := (parseHhmm job.atText).bounds
  unfold NextSlot OnSchedule nextSlot
  cases job.cadence with
  | hourly =>
    have := isLeast_next hminute now.wall
    dsimp only [replaceMinute, Aware.add]
    split_ifs at this ⊢ <;> exact this
  | daily =>
    have := isLeast_next htime now.wall
    dsimp only [replaceTime, Aware.add]
    split_ifs at this ⊢ <;> exact this
  | weekly =>
    have := isLeast_next_weekday htime (job.weekday.getD 0) now.wall
    dsimp only [replaceTime, Aware.add] at this ⊢
    split_ifs at this ⊢ <;> exact this

theorem nextSlot_fold (job : Job) (now : Aware) :
    (nextSlot job now).fold = true ↔
      now.fold = true ∧ ByReplace job now.wall (nextSlot job now).wall := by
  obtain ⟨hminute, htime⟩ := (parseHhmm job.atText).bounds
  unfold ByReplace nextSlot
  cases job.cadence with
  | hourly =>
    dsimp only [replaceMinute, Aware.add]
    split_ifs <;> simp only [hour] at *
    · exact ⟨fun h => absurd h (by simp), fun h => absurd h.2 (by omega)⟩
    · exact ⟨fun h => ⟨h, by omega⟩, fun h => h.1⟩
  | daily =>
    dsimp only [replaceTime, Aware.add]
    split_ifs <;> simp only [day] at *
    · exact ⟨fun h => absurd h (by simp), fun h => absurd h.2 (by omega)⟩
    · exact ⟨fun h => ⟨h, by omega⟩, fun h => h.1⟩
  | weekly =>
    dsimp only [Aware.add]
    split_ifs <;> simp

/-! ### When the next run is in the future -/

/-- Only the second pass through repeated hours is critical. A slot that `replace` reaches
keeps that pass, and must not fall into a gap that skips past it; any other slot is read with
fold 0, and must lie beyond the repeated hours. -/
def SlotAhead (zone : Zone) (job : Job) (fromTs : ℚ) : Prop :=
  let now := roundHalfEven fromTs
  let w := now + zone.offset now
  ∀ c ∈ zone.changes, c.SecondPass now → ∀ w', NextSlot job w w' →
    if ByReplace job w w' then ∀ g ∈ zone.changes, g.InGap w' → fromTs + g.after < w'
    else c.instant + c.before ≤ w'

/-- A reading of a later wall time, by the pass `now` is on. -/
theorem timestamp_future {zone : Zone} {now : ℤ} (slot : Aware)
    (hw : now + zone.offset now < slot.wall) :
    ((∀ c ∈ zone.changes, ¬c.SecondPass now) → slot.fold = false → now < zone.timestamp slot) ∧
    ∀ c ∈ zone.changes, c.SecondPass now →
      (slot.fold = false → (slot.wall < c.instant + c.before → zone.timestamp slot < now) ∧
        (c.instant + c.before ≤ slot.wall → now < zone.timestamp slot)) ∧
      (slot.fold = true →
        (∀ g ∈ zone.changes, g.InGap slot.wall → zone.timestamp slot = slot.wall - g.after) ∧
        ((∀ g ∈ zone.changes, ¬g.InGap slot.wall) → now < zone.timestamp slot)) := by
  unfold Zone.timestamp
  refine ⟨fun hfirst hf => ?_, fun c hc hpass => ⟨fun hf => ?_, fun hf => ⟨?_, ?_⟩⟩⟩
  · rw [hf]
    exact lt_first_reading zone.separated hfirst hw
  · rw [hf]
    exact second_pass_first_reading zone.separated hc hpass hw
  · intro g hg hin
    rw [hf, second_reading_of_gap zone.separated hg hin]
  · intro hgap
    rw [hf]
    exact lt_second_reading zone.separated hgap hw

theorem compute_next_run_future_iff (zone : Zone) (job : Job) (fromTs : ℚ) :
    fromTs < computeNextRun zone job fromTs ↔ SlotAhead zone job fromTs := by
  have hleast := nextSlot_isLeast job (zone.fromTimestamp (roundHalfEven fromTs))
  have hfold := nextSlot_fold job (zone.fromTimestamp (roundHalfEven fromTs))
  unfold SlotAhead computeNextRun
  dsimp only
  set now := roundHalfEven fromTs with hnow
  set slot := nextSlot job (zone.fromTimestamp now) with hslot
  obtain ⟨hfirst, hsecond⟩ := timestamp_future slot hleast.1.1
  have hslots : ∀ w', NextSlot job (now + zone.offset now) w' → w' = slot.wall :=
    fun w' h => h.unique hleast
  constructor
  · rintro hlt c hc hpass w' hw'
    obtain rfl := hslots w' hw'
    obtain ⟨hzero, hone⟩ := hsecond c hc hpass
    split_ifs with hby
    · intro g hg hin
      have hread := (hone (hfold.mpr ⟨Zone.fold_iff.mpr ⟨c, hc, hpass⟩, hby⟩)).1 g hg hin
      rw [hread] at hlt
      push_cast at hlt
      linarith
    · by_contra hin
      have hf := Bool.eq_false_iff.mpr fun hf => hby (hfold.mp hf).2
      exact absurd hlt (lt_of_lt_roundHalfEven ((hzero hf).1 (not_le.mp hin))).not_gt
  · intro hahead
    by_cases hpass : ∃ c ∈ zone.changes, c.SecondPass now
    · obtain ⟨c, hc, hpass⟩ := hpass
      have hslot' := hahead c hc hpass slot.wall hleast
      obtain ⟨hzero, hone⟩ := hsecond c hc hpass
      split_ifs at hslot' with hby
      · obtain ⟨hgap, hnogap⟩ := hone (hfold.mpr ⟨Zone.fold_iff.mpr ⟨c, hc, hpass⟩, hby⟩)
        by_cases hin : ∃ g ∈ zone.changes, g.InGap slot.wall
        · obtain ⟨g, hg, hin⟩ := hin
          rw [hgap g hg hin]
          push_cast
          linarith [hslot' g hg hin]
        · push Not at hin
          exact lt_of_roundHalfEven_lt (hnogap hin)
      · have hf := Bool.eq_false_iff.mpr fun hf => hby (hfold.mp hf).2
        exact lt_of_roundHalfEven_lt ((hzero hf).2 hslot')
    · push Not at hpass
      have hf := Bool.eq_false_iff.mpr fun hf => by
        obtain ⟨c, hc, hp⟩ := Zone.fold_iff.mp (hfold.mp hf).1
        exact hpass c hc hp
      exact lt_of_roundHalfEven_lt (hfirst hpass hf)

/-- New York in 2025, up to the end of summer time on Sunday, 2 November, 06:00 UTC. -/
def newYork2025 : Zone where
  base := -4 * hour
  shifts := [⟨1762063200 * 1000000, -5 * hour⟩]
  separated := by decide

/-- Ten minutes into the repeated hour, at 01:10 EST, a weekly job for Sundays at 01:30 gets
a next run at 01:30 EDT, forty minutes ago. -/
theorem weekly_next_run_in_past :
    computeNextRun newYork2025 ⟨.weekly, some "01:30", some 6⟩ ((1762063800 * 1000000 : ℤ) : ℚ) =
        1762061400 * 1000000 ∧
      ¬((1762063800 * 1000000 : ℤ) : ℚ) <
        computeNextRun newYork2025 ⟨.weekly, some "01:30", some 6⟩
          ((1762063800 * 1000000 : ℤ) : ℚ) := by
  have hrun : computeNextRun newYork2025 ⟨.weekly, some "01:30", some 6⟩
      ((1762063800 * 1000000 : ℤ) : ℚ) = 1762061400 * 1000000 := by
    rw [computeNextRun, roundHalfEven_intCast]
    decide
  refine ⟨hrun, ?_⟩
  rw [hrun]
  norm_num

end Schedules
