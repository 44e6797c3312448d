import SysibleController.CallMachine
import SysibleController.KeyedTable
import SysibleController.PythonInt
import Mathlib.Tactic.Linarith

/-! The flood guard of the enrollment route (`_enroll_rate_limited` in `backend/app.py`): for each
address the times of its recent requests, in a table that forgets idle addresses once it has grown
large. The clock does not go back. -/
namespace EnrollRate

open TransitionSystem KeyedTable PastTrace

structure Recent where
  ip : String
  hits : List ℚ
  deriving DecidableEq

abbrev Rates := Table Recent.ip

/-- `SYSIBLE_ENROLL_RATE_MAX` and `SYSIBLE_ENROLL_RATE_WINDOW`. -/
structure Settings where
  maxn : ℤ
  window : ℤ

def tableLimit : ℕ := 10000

def hitsOf (t : Rates) (ip : String) : List ℚ := ((t.find ip).map Recent.hits).getD []

/-- No recent request: an empty list, or a last entry before the cutoff. -/
def idle (cutoff : ℚ) (r : Recent) : Bool := r.hits.getLast?.all fun last => last < cutoff

def forgetIdle (cutoff : ℚ) (t : Rates) : Rates :=
  if tableLimit < t.rows.length then t.deleteWhere (idle cutoff) else t

/-- The seconds to wait, at least one, or 0 for a request let through. -/
def enrollRateLimited (cfg : Settings) (t : Rates) (ip : String) (now : ℚ) : ℤ × Rates :=
  if ip = "" ∨ cfg.maxn ≤ 0 ∨ cfg.window ≤ 0 then (0, t)
  else
    let cutoff := now - cfg.window
    let hits := (hitsOf t ip).filter fun h => cutoff ≤ h
    if cfg.maxn ≤ hits.length then
      (max 1 (PythonInt.truncated (hits.headD now + cfg.window - now)), t.put ⟨ip, hits⟩)
    else
      (0, forgetIdle cutoff (t.put ⟨ip, hits ++ [now]⟩))

structure Guard where
  clock : ℚ
  rates : Rates

/-- A request comes some time after the one before it. -/
structure Call where
  ip : String
  wait : ℚ
  nonneg : 0 ≤ wait

structure Event where
  ip : String
  now : ℚ
  retryAfter : ℤ
  deriving DecidableEq

def act (cfg : Settings) (g : Guard) (c : Call) : Event × Guard :=
  let now := g.clock + c.wait
  let r := enrollRateLimited cfg g.rates c.ip now
  (⟨c.ip, now, r.1⟩, ⟨now, r.2⟩)

def start : Guard := ⟨0, Table.empty⟩

/-- The times at which an address has been let through. -/
def admissions (ip : String) (es : List Event) : List ℚ :=
  es.filterMap fun e => if e.ip = ip ∧ e.retryAfter = 0 then some e.now else none

variable {cfg : Settings} {g : Guard} {es : List Event} {ip : String}

/-- Within the window the table remembers the admissions as they were. -/
structure Tracks (cfg : Settings) (ip : String) (es : List Event) (g : Guard) : Prop where
  recent : ∀ c, g.clock - cfg.window ≤ c →
    (hitsOf g.rates ip).filter (c ≤ ·) = (admissions ip es).filter (c ≤ ·)
  sorted : (hitsOf g.rates ip).Pairwise (· ≤ ·)
  past : ∀ h ∈ hitsOf g.rates ip, h ≤ g.clock
  admitted : ∀ h ∈ admissions ip es, h ≤ g.clock

theorem admissions_snoc (ip : String) (es : List Event) (e : Event) :
    admissions ip (es ++ [e]) =
      admissions ip es ++ if e.ip = ip ∧ e.retryAfter = 0 then [e.now] else [] := by
  unfold admissions
  rw [List.filterMap_append]
  by_cases h : e.ip = ip ∧ e.retryAfter = 0 <;> simp [h]

theorem hitsOf_put (t : Rates) (r : Recent) (ip : String) :
    hitsOf (t.put r) ip = if ip = r.ip then r.hits else hitsOf t ip := by
  unfold hitsOf
  rw [Table.find_put]
  split_ifs <;> rfl

/-- Forgetting idle addresses loses nothing inside the window. -/
theorem filter_deleteWhere {t : Rates} {cutoff c : ℚ} (hc : cutoff ≤ c)
    (hsorted : (hitsOf t ip).Pairwise (· ≤ ·)) :
    (hitsOf (t.deleteWhere (idle cutoff)) ip).filter (c ≤ ·) =
      (hitsOf t ip).filter (c ≤ ·) := by
  unfold hitsOf at hsorted ⊢
  rw [Table.find_deleteWhere]
  cases hr : t.find ip with
  | none => rfl
  | some r =>
    rw [hr] at hsorted
    by_cases hidle : idle cutoff r = true
    · have hold : ∀ h ∈ r.hits, h < cutoff := by
        intro h hh
        rcases List.eq_nil_or_concat r.hits with hnil | ⟨front, last, hlast⟩
        · simp [hnil] at hh
        · rw [List.concat_eq_append] at hlast
          have hlt : last < cutoff := by simpa [idle, hlast] using hidle
          have hle : h ≤ last := by
            have hp : (front ++ [last]).Pairwise (· ≤ ·) := by simpa [hlast] using hsorted
            rw [hlast] at hh
            rcases List.mem_append.mp hh with hh | hh
            · exact (List.pairwise_append.mp hp).2.2 h hh last (by simp)
            · exact (List.mem_singleton.mp hh).le
          exact lt_of_le_of_lt hle hlt
      have hnone : r.hits.filter (c ≤ ·) = [] := by
        refine List.filter_eq_nil_iff.mpr fun h hh => ?_
        have := hold h hh
        simpa using lt_of_lt_of_le this hc
      simp [Option.filter, hidle, hnone]
    · simp [Option.filter, hidle]

theorem filter_forgetIdle {t : Rates} {cutoff c : ℚ} (hc : cutoff ≤ c)
    (hsorted : (hitsOf t ip).Pairwise (· ≤ ·)) :
    (hitsOf (forgetIdle cutoff t) ip).filter (c ≤ ·) = (hitsOf t ip).filter (c ≤ ·) := by
  unfold forgetIdle
  split_ifs
  · exact filter_deleteWhere hc hsorted
  · rfl

theorem hitsOf_forgetIdle_sublist (cutoff : ℚ) (t : Rates) (ip : String) :
    (hitsOf (forgetIdle cutoff t) ip).Sublist (hitsOf t ip) := by
  unfold forgetIdle
  split_ifs
  · unfold hitsOf
    rw [Table.find_deleteWhere]
    cases t.find ip with
    | none => exact .refl _
    | some r => by_cases hidle : idle cutoff r = true <;> simp [Option.filter, hidle]
  · exact .refl _

/-- The hits of an address inside the window at `now`. -/
def live (cfg : Settings) (g : Guard) (ip : String) (now : ℚ) : List ℚ :=
  (hitsOf g.rates ip).filter fun h => now - cfg.window ≤ h

/-- A request of a guarded address is turned away with the window full, or let through. -/
theorem act_cases (hmax : 0 < cfg.maxn) (hwin : 0 < cfg.window) (c : Call) (hip : c.ip ≠ "") :
    ((cfg.maxn ≤ (live cfg g c.ip (g.clock + c.wait)).length ∧
        (act cfg g c).1.retryAfter ≠ 0 ∧
        (act cfg g c).2.rates =
          g.rates.put ⟨c.ip, live cfg g c.ip (g.clock + c.wait)⟩) ∨
      ((live cfg g c.ip (g.clock + c.wait)).length < cfg.maxn ∧
        (act cfg g c).1.retryAfter = 0 ∧
        (act cfg g c).2.rates = forgetIdle (g.clock + c.wait - cfg.window)
          (g.rates.put ⟨c.ip, live cfg g c.ip (g.clock + c.wait) ++ [g.clock + c.wait]⟩))) := by
  have hoff : ¬(c.ip = "" ∨ cfg.maxn ≤ 0 ∨ cfg.window ≤ 0) := by
    simp only [hip, false_or, not_or, not_le]
    exact ⟨hmax, hwin⟩
  simp only [act, enrollRateLimited, if_neg hoff]
  split_ifs with hfull
  · refine Or.inl ⟨hfull, ?_, rfl⟩
    have hone := le_max_left (1 : ℤ) (PythonInt.truncated
      ((live cfg g c.ip (g.clock + c.wait)).headD (g.clock + c.wait) + cfg.window -
        (g.clock + c.wait)))
    intro h0
    have : max (1 : ℤ) (PythonInt.truncated
      ((live cfg g c.ip (g.clock + c.wait)).headD (g.clock + c.wait) + cfg.window -
        (g.clock + c.wait))) = 0 := h0
    omega
  · exact Or.inr ⟨not_le.mp hfull, rfl, rfl⟩

theorem Tracks.live_eq (h : Tracks cfg ip es g) {wait : ℚ} (hw : 0 ≤ wait) :
    live cfg g ip (g.clock + wait) =
      (admissions ip es).filter (g.clock + wait - cfg.window ≤ ·) :=
  h.recent _ (by linarith)

/-- Time passing alone, and a table that says the same of the address. -/
theorem Tracks.frame (h : Tracks cfg ip es g) {g' : Guard} {e : Event} (hclock : g.clock ≤ g'.clock)
    (hadm : admissions ip (es ++ [e]) = admissions ip es)
    (hhits : (hitsOf g'.rates ip).Sublist (hitsOf g.rates ip))
    (hrecent : ∀ c, g'.clock - cfg.window ≤ c →
      (hitsOf g'.rates ip).filter (c ≤ ·) = (hitsOf g.rates ip).filter (c ≤ ·)) :
    Tracks cfg ip (es ++ [e]) g' := by
  refine ⟨fun c hc => ?_, h.sorted.sublist hhits, fun x hx => ?_, fun x hx => ?_⟩
  · rw [hrecent c hc, hadm]
    exact h.recent c (by linarith)
  · exact (h.past x (hhits.subset hx)).trans hclock
  · rw [hadm] at hx
    exact (h.admitted x hx).trans hclock

theorem tracks_act (hmax : 0 < cfg.maxn) (hwin : 0 < cfg.window) (hip : ip ≠ "")
    (h : Tracks cfg ip es g) (c : Call) :
    Tracks cfg ip (es ++ [(act cfg g c).1]) (act cfg g c).2 := by
  have hclock : g.clock ≤ (act cfg g c).2.clock := by
    show g.clock ≤ g.clock + c.wait
    linarith [c.nonneg]
  have hlive : (live cfg g c.ip (g.clock + c.wait)).Sublist (hitsOf g.rates c.ip) :=
    List.filter_sublist
  have hnow : (act cfg g c).1.now = g.clock + c.wait := rfl
  have hfilter : ∀ k, g.clock + c.wait - cfg.window ≤ k →
      (live cfg g c.ip (g.clock + c.wait)).filter (k ≤ ·) =
        (hitsOf g.rates c.ip).filter (k ≤ ·) := by
    intro k hk
    rw [live, List.filter_filter]
    refine List.filter_congr fun x _ => ?_
    by_cases hx : k ≤ x
    · simp [hx, hk.trans hx]
    · simp [hx]
  by_cases hcip : c.ip = ip
  · subst hcip
    rcases act_cases (g := g) hmax hwin c hip with ⟨-, hretry, hrates⟩ | ⟨-, hretry, hrates⟩
    · have hhits : hitsOf (act cfg g c).2.rates c.ip = live cfg g c.ip (g.clock + c.wait) := by
        rw [hrates, hitsOf_put, if_pos rfl]
      refine h.frame hclock ?_ (hhits ▸ hlive) fun k hk => ?_
      · rw [admissions_snoc, if_neg fun hboth => hretry hboth.2, List.append_nil]
      · rw [hhits, hfilter k hk]
    · have hput : hitsOf (g.rates.put ⟨c.ip, live cfg g c.ip (g.clock + c.wait) ++
          [g.clock + c.wait]⟩) c.ip = live cfg g c.ip (g.clock + c.wait) ++ [g.clock + c.wait] := by
        rw [hitsOf_put, if_pos rfl]
      have hsorted : (live cfg g c.ip (g.clock + c.wait) ++ [g.clock + c.wait]).Pairwise
          (· ≤ ·) := by
        refine List.pairwise_append.mpr ⟨h.sorted.sublist hlive, List.pairwise_singleton _ _, ?_⟩
        intro x hx y hy
        rw [List.mem_singleton.mp hy]
        exact (h.past x (hlive.subset hx)).trans hclock
      have hsub : (hitsOf (act cfg g c).2.rates c.ip).Sublist
          (live cfg g c.ip (g.clock + c.wait) ++ [g.clock + c.wait]) := by
        have hsub := hitsOf_forgetIdle_sublist (g.clock + c.wait - cfg.window)
          (g.rates.put ⟨c.ip, live cfg g c.ip (g.clock + c.wait) ++ [g.clock + c.wait]⟩) c.ip
        rwa [hput, ← hrates] at hsub
      have hadm : admissions c.ip (es ++ [(act cfg g c).1]) =
          admissions c.ip es ++ [g.clock + c.wait] := by
        rw [admissions_snoc, if_pos ⟨rfl, hretry⟩, hnow]
      refine ⟨fun k hk => ?_, hsorted.sublist hsub, fun x hx => ?_, fun x hx => ?_⟩
      · have hk' : g.clock + c.wait - cfg.window ≤ k := hk
        have hkept := filter_forgetIdle hk' (hput.symm ▸ hsorted)
        rw [hrates, hkept, hput, List.filter_append,
          hfilter k hk', hadm, List.filter_append, h.recent k (by linarith [c.nonneg])]
      · rcases List.mem_append.mp (hsub.subset hx) with hx | hx
        · exact (h.past x (hlive.subset hx)).trans hclock
        · exact (List.mem_singleton.mp hx).le
      · rw [hadm] at hx
        rcases List.mem_append.mp hx with hx | hx
        · exact (h.admitted x hx).trans hclock
        · exact (List.mem_singleton.mp hx).le
  · have hadm : admissions ip (es ++ [(act cfg g c).1]) = admissions ip es := by
      rw [admissions_snoc, if_neg fun hboth => hcip hboth.1, List.append_nil]
    by_cases hempty : c.ip = ""
    · have hrates : (act cfg g c).2.rates = g.rates := by
        simp [act, enrollRateLimited, hempty]
      exact h.frame hclock hadm (hrates ▸ .refl _) fun k _ => by rw [hrates]
    · have hother : ∀ r : Recent, r.ip = c.ip → hitsOf (g.rates.put r) ip = hitsOf g.rates ip := by
        intro r hr
        rw [hitsOf_put, if_neg (hr ▸ Ne.symm hcip)]
      rcases act_cases (g := g) hmax hwin c hempty with ⟨-, -, hrates⟩ | ⟨-, -, hrates⟩
      · have hhits : hitsOf (act cfg g c).2.rates ip = hitsOf g.rates ip :=
          hrates ▸ hother _ rfl
        exact h.frame hclock hadm (hhits ▸ .refl _) fun k _ => by rw [hhits]
      · have hhits := hother ⟨c.ip, live cfg g c.ip (g.clock + c.wait) ++ [g.clock + c.wait]⟩ rfl
        refine h.frame hclock hadm ?_ fun k hk => ?_
        · rw [hrates, ← hhits]
          exact hitsOf_forgetIdle_sublist _ _ _
        · have hk' : g.clock + c.wait - cfg.window ≤ k := hk
          rw [hrates, filter_forgetIdle hk' (hhits.symm ▸ h.sorted), hhits]

abbrev machine (cfg : Settings) : Machine Guard Event := ofCalls start (act cfg)

theorem tracks_run (hmax : 0 < cfg.maxn) (hwin : 0 < cfg.window) (hip : ip ≠ "")
    (h : (machine cfg).Run start es g) : Tracks cfg ip es g := by
  refine ofCalls_history (fun es g => Tracks cfg ip es g) h ?_ fun es g c _ ht =>
    tracks_act hmax hwin hip ht c
  constructor <;> simp [admissions, hitsOf, start, Table.empty, Table.find]

/-- The admissions of an address inside the window before a time. -/
def within (cfg : Settings) (ip : String) (es : List Event) (now : ℚ) : List ℚ :=
  (admissions ip es).filter (now - cfg.window ≤ ·)

theorem Tracks.decides {c : Call} (hmax : 0 < cfg.maxn) (hwin : 0 < cfg.window) (hip : c.ip ≠ "")
    (h : Tracks cfg c.ip es g) : (act cfg g c).1.retryAfter = 0 ↔
      ((within cfg c.ip es (act cfg g c).1.now).length : ℤ) < cfg.maxn := by
  show (act cfg g c).1.retryAfter = 0 ↔
    (((admissions c.ip es).filter (g.clock + c.wait - cfg.window ≤ ·)).length : ℤ) < cfg.maxn
  rw [← h.live_eq c.nonneg]
  rcases act_cases (g := g) hmax hwin c hip with ⟨hfull, hretry, -⟩ | ⟨hfree, hretry, -⟩
  · simp only [hretry, false_iff, not_lt]
    exact hfull
  · simp only [hretry, true_iff]
    exact hfree

theorem wait_nonneg (n : ℕ) : (0 : ℚ) ≤ n := Nat.cast_nonneg n

def Call.after (ip : String) (n : ℕ) : Call := ⟨ip, n, wait_nonneg n⟩

/-- Two requests a minute; the third comes too early, the fourth late enough. -/
def burst : List Call := [.after "a" 0, .after "a" 1, .after "a" 1, .after "a" 60]

/-- In no stretch of time as long as the window are more than the limit let through. -/
theorem flood_bounded (hmax : 0 < cfg.maxn) (hwin : 0 < cfg.window) (hip : ip ≠ "")
    (h : (machine cfg).Run start es g) (a : ℚ) :
    (((admissions ip es).filter fun t => a ≤ t ∧ t ≤ a + cfg.window).length : ℤ) ≤ cfg.maxn := by
  induction h with
  | nil => simpa [admissions] using hmax.le
  | @snoc g g' es e run st ih =>
    have hdec : e.ip = ip → (e.retryAfter = 0 ↔
        ((within cfg ip es e.now).length : ℤ) < cfg.maxn) := by
      obtain ⟨c, hc⟩ := st
      obtain ⟨rfl, rfl⟩ := Prod.mk.inj hc
      rintro rfl
      exact (tracks_run hmax hwin hip run).decides hmax hwin hip
    rw [admissions_snoc, List.filter_append, List.length_append]
    split_ifs with he
    · by_cases hin : a ≤ e.now ∧ e.now ≤ a + cfg.window
      · have hfew := (hdec he.1).mp he.2
        have hsub : ((admissions ip es).filter fun t => a ≤ t ∧ t ≤ a + cfg.window).length ≤
            (within cfg ip es e.now).length := by
          refine (List.monotone_filter_right _ fun t ht => ?_).length_le
          simp only [decide_eq_true_eq] at ht ⊢
          linarith [ht.1, hin.2]
        simp only [hin, List.filter_cons, List.filter_nil]
        simp only [and_self, decide_true, if_true, List.length_singleton]
        omega
      · simpa [hin] using ih
    · simpa using ih

theorem flood_bounded_burst :
    (((admissions "a" (perform (act ⟨2, 60⟩) start burst).1).filter
      fun t => (0 : ℚ) ≤ t ∧ t ≤ 0 + (60 : ℤ)).length : ℤ) ≤ 2 :=
  flood_bounded (by decide) (by decide) (by decide) (perform_run _ (act ⟨2, 60⟩) start burst) 0

end EnrollRate
