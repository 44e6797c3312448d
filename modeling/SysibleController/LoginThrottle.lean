import SysibleController.KeyedTable
import SysibleController.Interleaving
import Mathlib.Data.List.ReduceOption
import Mathlib.Data.Rat.Floor

/-! The login throttle: failures of a key are counted in a row, and the lock is a deadline in
the same row. A failure is recorded by a SELECT and an upsert that writes back the counted
failures and the deadline as the SELECT has read them. -/
namespace LoginThrottle

open KeyedTable TransitionSystem Interleaving

/-- `fails` is a JSON text: `none` if it is missing or does not parse, else the list of its
entries, each a number or something else. -/
structure Throttle where
  key : String
  fails : Option (List (Option ℚ))
  lockedUntil : Option ℚ
  deriving DecidableEq

abbrev ThrottleTable := Table Throttle.key

structure Settings where
  window : ℚ
  maxFailures : ℕ
  some_failure : 0 < maxFailures
  lockout : ℚ

/-- The constants of the admin login. -/
def adminLogin : Settings := ⟨15 * 60, 10, by decide, 10 * 60⟩

def deadline (row : Option Throttle) : ℚ := (row.bind Throttle.lockedUntil).getD 0

/-- `int(remaining)` cuts the fraction off, so the last second of a lock counts as none. -/
def lockedFor (s : ThrottleTable) (key : String) (now : ℚ) : ℤ :=
  if key = "" then 0
  else match s.find key with
    | none => 0
    | some row => if 0 < deadline (some row) - now then ⌊deadline (some row) - now⌋ else 0

inductive RecordPhase where
  | selecting
  | upserting (row : Option Throttle)
  deriving DecidableEq

/-- What a step shows: a returned `record_failure`, with whether it has set the lock and the
seconds it returns. -/
inductive ThrottleEvent where
  | silent
  | recorded (key : String) (now : ℚ) (lock : Bool) (locked : ℚ)
  | cleared (key : String)
  deriving DecidableEq

def failTimes (row : Option Throttle) : List ℚ := ((row.bind Throttle.fails).getD []).reduceOption

/-- The failures that count at `now`, this one included. -/
def counted (cfg : Settings) (now : ℚ) (row : Option Throttle) : List ℚ :=
  ((failTimes row).filter fun t => now - t < cfg.window) ++ [now]

def recordFailure (cfg : Settings) (s : ThrottleTable) (key : String) (now : ℚ) :
    RecordPhase → ThrottleTable × ThrottleEvent × Option RecordPhase
  | .selecting =>
    if key = "" then (s, .recorded key now false 0, none)
    else (s, .silent, some (.upserting (s.find key)))
  | .upserting row =>
    if cfg.maxFailures ≤ (counted cfg now row).length then
      (s.put ⟨key, some [], some (now + cfg.lockout)⟩, .recorded key now true cfg.lockout, none)
    else
      (s.put ⟨key, some ((counted cfg now row).map some), some (deadline row)⟩,
        .recorded key now false (if now < deadline row then (⌊deadline row - now⌋ : ℤ) else 0),
        none)

def clear (s : ThrottleTable) (key : String) : ThrottleTable :=
  if key = "" then s else s.deleteWhere fun r => r.key = key

/-- A call of `record_failure` has read the clock when it enters. -/
inductive ThrottleThread where
  | record (key : String) (now : ℚ) (phase : RecordPhase)
  | clear (key : String)
  deriving DecidableEq

def throttleStep (cfg : Settings) (s : ThrottleTable) :
    ThrottleThread → ThrottleTable × ThrottleEvent × Option ThrottleThread
  | .record key now phase =>
    ((recordFailure cfg s key now phase).1, (recordFailure cfg s key now phase).2.1,
      (recordFailure cfg s key now phase).2.2.map (.record key now))
  | .clear key => (LoginThrottle.clear s key, .cleared key, none)

def Entry : ThrottleThread → Prop
  | .record _ _ phase => phase = .selecting
  | .clear _ => True

def throttle (cfg : Settings) : Program ThrottleTable ThrottleThread ThrottleEvent :=
  ⟨Entry, fun s th e s' th' => throttleStep cfg s th = (s', e, th')⟩

abbrev ThrottlePool := Pool ThrottleTable ThrottleThread
abbrev ThrottleLog := List (Interleaving.Event ThrottleThread ThrottleEvent)

/-! ## The lock -/

def returnOf (k : String) : Interleaving.Event ThrottleThread ThrottleEvent → Option ℚ
  | .act _ (.recorded key now _ _) => if key = k then some now else none
  | _ => none

def lockOf (k : String) : Interleaving.Event ThrottleThread ThrottleEvent → Option ℚ
  | .act _ (.recorded key now true _) => if key = k then some now else none
  | _ => none

def completed (k : String) (log : ThrottleLog) : ℕ := (log.filterMap (returnOf k)).length

/-- The clock reading of the last call that has set the lock. -/
def lastLock (k : String) (log : ThrottleLog) : Option ℚ := (log.filterMap (lockOf k)).getLast?

/-- The calls for `k` are within one window, and none of them clears the key. -/
def OneWindow (cfg : Settings) (k : String) (start : ℚ) (log : ThrottleLog) : Prop :=
  (∀ now phase, .call (.record k now phase) ∈ log → start ≤ now ∧ now < start + cfg.window) ∧
    .call (.clear k) ∉ log

/-- Once enough calls have returned, one of them has set the lock, and the key is locked until
the lockout has passed; `M` restricts the moments looked at. -/
def LockoutLaw (cfg : Settings)
    (C : ThrottlePool → Interleaving.Event ThrottleThread ThrottleEvent → Prop)
    (M : ℚ → ℚ → Prop) : Prop :=
  ∀ s k start log p,
    (((throttle cfg).machine s).restrict C).Run ((throttle cfg).machine s).start log p →
    OneWindow cfg k start log → cfg.maxFailures ≤ completed k log →
    ∃ t, lastLock k log = some t ∧ ∀ now, now < t + cfg.lockout → M (t + cfg.lockout) now →
      0 < lockedFor p.shared k now

/-- The key is not empty, and an upsert replaces the row that its SELECT has read. -/
def ThrottleCondition (p : ThrottlePool) :
    Interleaving.Event ThrottleThread ThrottleEvent → Prop
  | .call (.record key _ _) => key ≠ ""
  | .act (.record key _ (.upserting row)) _ => p.shared.find key = row
  | _ => True

/-- Not the last second of the lock. -/
def Margin (lockEnd now : ℚ) : Prop := now + 1 ≤ lockEnd

/-! ## One call -/

variable {cfg : Settings} {s s' : ThrottleTable} {k key : String} {now start : ℚ}

theorem lockedFor_pos (hk : k ≠ "") :
    0 < lockedFor s k now ↔ now + 1 ≤ deadline (s.find k) ∧ (s.find k).isSome := by
  unfold lockedFor
  rw [if_neg hk]
  cases hrow : s.find k with
  | none => simp
  | some row =>
    simp only [Option.isSome_some, and_true]
    by_cases hpos : 0 < deadline (some row) - now
    · rw [if_pos hpos, Int.floor_pos]
      constructor <;> intro h <;> linarith
    · rw [if_neg hpos]
      constructor
      · intro h
        exact absurd h (lt_irrefl 0)
      · intro h
        exact absurd (by linarith) hpos

/-- Failures from inside the window all count. -/
theorem countP_counted (row : Option Throttle) (hstart : start ≤ now)
    (hnow : now < start + cfg.window) :
    (counted cfg now row).countP (start ≤ ·) = (failTimes row).countP (start ≤ ·) + 1 := by
  have hkept : ((failTimes row).filter fun t => now - t < cfg.window).countP (start ≤ ·) =
      (failTimes row).countP (start ≤ ·) := by
    rw [List.countP_filter]
    apply List.countP_congr
    intro t _
    simp only [Bool.and_eq_true, decide_eq_true_eq, and_iff_left_iff_imp]
    intro ht
    linarith
  simp [counted, hkept, hstart]

theorem failTimes_some (times : List ℚ) (lockEnd : Option ℚ) :
    failTimes (some ⟨key, some (times.map some), lockEnd⟩) = times := by
  simp [failTimes, List.reduceOption]

/-- What an upsert that finds its own row does. -/
theorem upsert_cases {row : Option Throttle} {e : ThrottleEvent} {next : Option RecordPhase}
    (h : recordFailure cfg s key now (.upserting row) = (s', e, next)) :
    next = none ∧
      ((e = .recorded key now true cfg.lockout ∧
          s'.find key = some ⟨key, some [], some (now + cfg.lockout)⟩) ∨
        ((counted cfg now row).length < cfg.maxFailures ∧
          (∃ locked, e = .recorded key now false locked) ∧
          s'.find key = some ⟨key, some ((counted cfg now row).map some), some (deadline row)⟩)) := by
  simp only [recordFailure] at h
  by_cases hmax : cfg.maxFailures ≤ (counted cfg now row).length
  · rw [if_pos hmax] at h
    simp only [Prod.mk.injEq] at h
    obtain ⟨rfl, rfl, rfl⟩ := h
    exact ⟨rfl, Or.inl ⟨rfl, by simp⟩⟩
  · rw [if_neg hmax] at h
    simp only [Prod.mk.injEq] at h
    obtain ⟨rfl, rfl, rfl⟩ := h
    exact ⟨rfl, Or.inr ⟨by omega, ⟨_, rfl⟩, by simp⟩⟩

/-- Only an upsert or a deletion for `k` touches its row. -/
theorem step_other {th : ThrottleThread}
    (hupsert : ∀ now row, th ≠ .record k now (.upserting row)) (hclear : th ≠ .clear k) :
    (throttleStep cfg s th).1.find k = s.find k := by
  cases th with
  | record key now phase =>
    cases phase with
    | selecting =>
      simp only [throttleStep, recordFailure]
      split <;> rfl
    | upserting row =>
      have hne : k ≠ key := by
        intro he
        exact hupsert now row (by rw [he])
      simp only [throttleStep, recordFailure]
      split <;> simp [hne]
  | clear key =>
    simp only [throttleStep, LoginThrottle.clear]
    split
    · rfl
    · rw [Table.find_deleteWhere]
      cases hrow : s.find k with
      | none => rfl
      | some row =>
        have hkey : row.key = k := Table.key_of_find hrow
        have hne : k ≠ key := by
          intro he
          exact hclear (by rw [he])
        simp [hkey, hne]

/-! ## Runs -/

/-- A call for `k` inside the window, or one of another key. -/
def Inside (cfg : Settings) (k : String) (start : ℚ) : ThrottleThread → Prop
  | .record key now _ => key = k → k ≠ "" ∧ start ≤ now ∧ now < start + cfg.window
  | .clear key => key ≠ k

/-- Until a call has set the lock, the row counts every call that has returned; from then on it
holds the deadline of the last lock. -/
structure Tracked (cfg : Settings) (k : String) (start : ℚ) (log : ThrottleLog)
    (p : ThrottlePool) : Prop where
  inside : ∀ th ∈ p.threads, Inside cfg k start th
  counts : lastLock k log = none → completed k log < cfg.maxFailures ∧
    completed k log ≤ (failTimes (p.shared.find k)).countP (start ≤ ·)
  locks : ∀ t, lastLock k log = some t → k ≠ "" ∧ (p.shared.find k).isSome ∧
    deadline (p.shared.find k) = t + cfg.lockout

section Logs

variable (log : ThrottleLog) (e : Interleaving.Event ThrottleThread ThrottleEvent)

theorem completed_snoc : completed k (log ++ [e]) = completed k log + (returnOf k e).toList.length := by
  cases h : returnOf k e <;> simp [completed, List.filterMap_append, h]

theorem lastLock_snoc : lastLock k (log ++ [e]) = (lockOf k e).or (lastLock k log) := by
  cases h : lockOf k e <;> simp [lastLock, List.filterMap_append, h]

end Logs

/-- A step that neither returns from a call for `k` nor touches its row. -/
theorem Tracked.quiet {log : ThrottleLog} {p q : ThrottlePool}
    {e : Interleaving.Event ThrottleThread ThrottleEvent} (h : Tracked cfg k start log p)
    (hinside : ∀ th ∈ q.threads, Inside cfg k start th) (hreturn : returnOf k e = none)
    (hfind : q.shared.find k = p.shared.find k) : Tracked cfg k start (log ++ [e]) q := by
  have hlock : lockOf k e = none := by
    unfold lockOf
    unfold returnOf at hreturn
    split <;> simp_all
  refine ⟨hinside, ?_, ?_⟩
  · rw [lastLock_snoc, hlock, Option.none_or, completed_snoc, hreturn, hfind]
    exact h.counts
  · rw [lastLock_snoc, hlock, Option.none_or, hfind]
    exact h.locks

theorem inside_next {th th' : ThrottleThread} {e : ThrottleEvent}
    (h : throttleStep cfg s th = (s', e, some th')) (hth : Inside cfg k start th) :
    Inside cfg k start th' := by
  cases th with
  | record key now phase =>
    simp only [throttleStep, Prod.mk.injEq, Option.map_eq_some_iff] at h
    obtain ⟨-, -, phase', -, rfl⟩ := h
    exact hth
  | clear key => cases h

/-- What a call of another key, or one that has not reached its upsert, returns for `k`. -/
theorem returnOf_act {th : ThrottleThread} {th' : Option ThrottleThread} {e : ThrottleEvent}
    (h : throttleStep cfg s th = (s', e, th')) (hth : Inside cfg k start th)
    (hupsert : ∀ now row, th ≠ .record k now (.upserting row)) : returnOf k (.act th e) = none := by
  cases th with
  | record key now phase =>
    simp only [throttleStep, Prod.mk.injEq] at h
    obtain ⟨-, he, -⟩ := h
    rw [← he]
    by_cases hkey : key = k
    · subst hkey
      cases phase with
      | selecting => simp [recordFailure, (hth rfl).1, returnOf]
      | upserting row => exact absurd rfl (hupsert now row)
    · cases phase with
      | selecting =>
        simp only [recordFailure]
        split <;> simp [returnOf, hkey]
      | upserting row =>
        simp only [recordFailure]
        split <;> simp [returnOf, hkey]
  | clear key =>
    simp only [throttleStep, Prod.mk.injEq] at h
    rw [← h.2.1]
    rfl

theorem step_tracked {log : ThrottleLog} {p q : ThrottlePool}
    {e : Interleaving.Event ThrottleThread ThrottleEvent} (st : Steps (throttle cfg) p e q)
    (hc : ThrottleCondition p e) (hcall : ∀ th, e = .call th → Inside cfg k start th)
    (h : Tracked cfg k start log p) : Tracked cfg k start (log ++ [e]) q := by
  cases st with
  | call hentry =>
    apply h.quiet
    · intro x hx
      rcases List.mem_cons.mp hx with rfl | hx
      · exact hcall x rfl
      · exact h.inside x hx
    · rfl
    · rfl
  | @act s s' pre post th th' e hact =>
    have hact : throttleStep cfg s th = (s', e, th') := hact
    have hth : Inside cfg k start th := h.inside th (by simp)
    have hinside : ∀ x ∈ pre ++ th'.toList ++ post, Inside cfg k start x := by
      intro x hx
      rcases mem_moved th hx with hx | hx
      · obtain rfl := Option.mem_def.mp hx
        exact inside_next hact hth
      · exact h.inside x hx
    by_cases hupsert : ∃ now row, th = .record k now (.upserting row)
    · obtain ⟨now, row, rfl⟩ := hupsert
      obtain ⟨hk, hstart, hnow⟩ := hth rfl
      have hrow : s.find k = row := hc
      have hs' : s' = (recordFailure cfg s k now (.upserting row)).1 := congrArg Prod.fst hact.symm
      have he : e = (recordFailure cfg s k now (.upserting row)).2.1 :=
        congrArg (fun r => r.2.1) hact.symm
      obtain ⟨-, ⟨hlocks, hfind⟩ | ⟨hmax, ⟨locked, hcounts⟩, hfind⟩⟩ :=
        @upsert_cases cfg s s' k now row e _ (by rw [hs', he])
      · subst hlocks
        refine ⟨hinside, ?_, ?_⟩
        · rw [lastLock_snoc]
          simp [lockOf]
        · rw [lastLock_snoc]
          rintro t ht
          obtain rfl : now = t := by simpa [lockOf] using ht
          exact ⟨hk, by rw [hfind]; rfl, by rw [hfind]; rfl⟩
      · subst hcounts
        refine ⟨hinside, ?_, ?_⟩
        · rw [lastLock_snoc]
          intro hnone
          obtain ⟨-, hcount⟩ := h.counts (by simpa [lockOf] using hnone)
          have hcompleted : completed k (log ++ [.act (.record k now (.upserting row))
              (.recorded k now false locked)]) = completed k log + 1 := by
            rw [completed_snoc]
            simp [returnOf]
          have hgrown := @countP_counted cfg now start row hstart hnow
          have hlength : (counted cfg now row).countP (start ≤ ·) ≤ (counted cfg now row).length :=
            List.countP_le_length
          rw [hcompleted, hfind, failTimes_some]
          rw [hrow] at hcount
          omega
        · rw [lastLock_snoc]
          intro t ht
          obtain ⟨-, -, hdeadline⟩ := h.locks t (by simpa [lockOf] using ht)
          rw [hrow] at hdeadline
          exact ⟨hk, by rw [hfind]; rfl, by rw [hfind]; exact hdeadline⟩
    · push Not at hupsert
      apply h.quiet hinside (returnOf_act hact hth hupsert)
      have hclear : th ≠ .clear k := by
        rintro rfl
        exact hth rfl
      have hfind := @step_other cfg s k th hupsert hclear
      rwa [hact] at hfind

/-- Concurrent failures lock the key, in runs whose steps meet the condition. -/
theorem lockout_holds (cfg : Settings) : LockoutLaw cfg ThrottleCondition Margin := by
  intro s k start log p run
  have htracked : OneWindow cfg k start log → Tracked cfg k start log p := by
    refine run.history (P := fun log p => OneWindow cfg k start log → Tracked cfg k start log p)
      ?_ ?_
    · intro _
      refine ⟨?_, ?_, ?_⟩
      · intro th hth
        cases hth
      · intro _
        exact ⟨cfg.some_failure, Nat.zero_le _⟩
      · intro t ht
        cases ht
    · rintro log p e q - ⟨hc, st⟩ ih ⟨hcalls, hclear⟩
      have hbefore : OneWindow cfg k start log :=
        ⟨fun now phase h => hcalls now phase (by simp [h]), fun h => hclear (by simp [h])⟩
      refine step_tracked st hc ?_ (ih hbefore)
      rintro th rfl
      cases th with
      | record key now phase =>
        intro hkey
        subst hkey
        exact ⟨hc, hcalls now phase (by simp)⟩
      | clear key =>
        intro hkey
        subst hkey
        exact hclear (by simp)
  intro hwindow hmax
  have h := htracked hwindow
  cases hlock : lastLock k log with
  | none =>
    obtain ⟨hfew, -⟩ := h.counts hlock
    omega
  | some t =>
    obtain ⟨hk, hrow, hdeadline⟩ := h.locks t hlock
    refine ⟨t, rfl, ?_⟩
    intro now _ hmargin
    rw [lockedFor_pos hk, hdeadline]
    exact ⟨hmargin, hrow⟩

/-! Ten failures, of which the first two overlap: both read an empty row, and one is lost. -/

def recordAt (now : ℚ) : ThrottleThread := .record "root" now .selecting

def tenFailures : List (Choice ThrottleThread Unit) :=
  [.call (recordAt 0), .call (recordAt 0), .act 0 (), .act 1 (), .act 0 (), .act 0 ()] ++
    (List.replicate 8 [.call (recordAt 1), .act 0 (), .act 0 ()]).flatten

theorem lost_failure_leaves_unlocked :
    ¬ LockoutLaw adminLogin (fun _ _ => True) fun _ _ => True := by
  intro hlaw
  have run := @plays_run _ _ _ (throttle adminLogin) _ (fun _ => throttleStep adminLogin)
    (fun _ _ _ => rfl) Table.empty tenFailures
    (by simp [tenFailures, recordAt, throttle, Entry]) ⟨Table.empty, []⟩
  have hwindow : OneWindow adminLogin "root" 0
      (plays (fun _ => throttleStep adminLogin) tenFailures ⟨Table.empty, []⟩).1 := by
    constructor
    · intro now phase h
      have hcall := call_of_plays h
      simp only [tenFailures, recordAt] at hcall
      have hnow : now = 0 ∨ now = 1 := by
        simp at hcall
        tauto
      rcases hnow with rfl | rfl <;> norm_num [adminLogin]
    · intro h
      have hcall := call_of_plays h
      simp [tenFailures, recordAt] at hcall
  obtain ⟨t, ht, -⟩ := hlaw _ "root" 0 _ _ (run.restrict fun _ _ => trivial) hwindow
    (by decide +kernel)
  have hnone : lastLock "root" (plays (fun _ => throttleStep adminLogin) tenFailures
      ⟨Table.empty, []⟩).1 = none := by decide +kernel
  rw [hnone] at ht
  cases ht

end LoginThrottle
