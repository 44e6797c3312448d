import SysibleController.ActivityLogVerify
import SysibleController.TransitionSystem

/-! Calls of `log_activity` that run at the same time, and a verifier between them.

The INSERT and the retention trim commit separately under the lock; the mark is bumped after
the lock is released, in any order and perhaps not at all. The verifier reads the hashed
rows in one step and the mark in a later one. -/
namespace ActivityLog

open TransitionSystem

/-- `inserted` is the call that holds the lock, between its two commits; `unlocked` are the
calls that still have their bump to do. -/
structure Writers where
  db : Database
  inserted : Option ActivityRow
  unlocked : List ActivityRow

def Writers.start : Writers := ⟨.empty, none, []⟩

inductive Commit where
  | insert (e : Entry)
  | trim
  | bump (row : ActivityRow) (stored : Bool)

inductive Commits (cfg : Config) : Writers → Commit → Writers → Prop where
  | insert {s db' row} (e : Entry) : s.inserted = none →
      ¬(!cfg.keyed && cfg.auditRequired) → appendRow cfg s.db e = some (db', row) →
      Commits cfg s (.insert e) ⟨db', some row, s.unlocked⟩
  | trim {s row} : s.inserted = some row →
      Commits cfg s .trim ⟨trimRows cfg s.db row.id, none, s.unlocked ++ [row]⟩
  | bump {s row} (stored : Bool) : row ∈ s.unlocked →
      Commits cfg s (.bump row stored)
        ⟨if stored then bumpChainHead s.db row.id (row.entryHash.getD "") else s.db,
          s.inserted, s.unlocked.erase row⟩

def logging (cfg : Config) : Machine Writers Commit := ⟨.start, Commits cfg⟩

/-- The counter is the id of the newest row, which no trim removes, and every call in
flight has written a row with an id the counter has reached. -/
structure WritersInvariant (cfg : Config) (s : Writers) : Prop where
  log : LogInvariant cfg s.db
  newest : lastId s.db.activityLog = s.db.activitySeq
  inserted : ∀ row ∈ s.inserted, 0 < row.id ∧ row.id ≤ s.db.activitySeq
  unlocked : ∀ row ∈ s.unlocked, 0 < row.id ∧ row.id ≤ s.db.activitySeq

theorem writers_start (cfg : Config) : WritersInvariant cfg .start :=
  ⟨empty_invariant cfg, rfl, by simp [Writers.start], by simp [Writers.start]⟩

theorem commit_preserves_invariant {cfg : Config} (s : Writers) (c : Commit) (t : Writers)
    (h : (logging cfg).step s c t) (hs : WritersInvariant cfg s) : WritersInvariant cfg t := by
  cases h with
  | @insert db' row e hfree haudit happ =>
    have ha := appendRow_cases happ
    have hseq := hs.log.seq
    refine ⟨append_invariant hs.log ha, ?_, ?_, ?_⟩
    · rw [ha.log, lastId_append, ha.id, ha.seq]
    · intro r hr
      obtain rfl := Option.some.inj hr
      rw [ha.id, ha.seq]
      omega
    · intro r hr
      have := hs.unlocked r hr
      dsimp only
      rw [ha.seq]
      omega
  | @trim row hrow =>
    obtain ⟨hpos, hle⟩ := hs.inserted row hrow
    refine ⟨trim_invariant hs.log _, ?_, by simp, ?_⟩
    · rw [trimRows_seq, trim_lastId cfg (hs.newest ▸ hle)]
      exact hs.newest
    · intro r hr
      rw [trimRows_seq]
      rcases List.mem_append.mp hr with hr | hr
      · exact hs.unlocked r hr
      · exact List.mem_singleton.mp hr ▸ ⟨hpos, hle⟩
  | @bump row stored hrow =>
    cases stored with
    | false =>
      exact ⟨hs.log, hs.newest, hs.inserted, fun r hr => hs.unlocked r (List.mem_of_mem_erase hr)⟩
    | true =>
      refine ⟨bump_invariant hs.log (hs.unlocked row hrow) _, ?_, ?_, ?_⟩
      · simpa using hs.newest
      · simpa using hs.inserted
      · intro r hr
        simpa using hs.unlocked r (List.mem_of_mem_erase hr)

theorem writers_invariant {cfg : Config} {s : Writers} {es : List Commit}
    (h : (logging cfg).Run .start es s) : WritersInvariant cfg s :=
  h.invariant commit_preserves_invariant (writers_start cfg)

/-- A bump raises the mark above a bound exactly if it carries an id above it. -/
theorem bump_head_le_iff (db : Database) (n bound : ℤ) (hash : String) :
    (∀ head ∈ (bumpChainHead db n hash).chainHead, head.lastId ≤ bound) ↔
      (∀ head ∈ db.chainHead, head.lastId ≤ bound) ∧ n ≤ bound := by
  unfold bumpChainHead
  split
  · rename_i head hhead
    split
    · rename_i hle
      simp only [Option.mem_def, Option.some.injEq, forall_eq', hhead]
      omega
    · rename_i hlt
      simp only [Option.mem_def, Option.some.injEq, forall_eq', hhead]
      omega
  · rename_i hnone
    simp [hnone]

/-- Over a whole run: the mark ends above a bound it started below exactly if some stored
bump on the way was above it. -/
theorem run_head_le_iff {cfg : Config} {s t : Writers} {fs : List Commit} {bound : ℤ}
    (h : (logging cfg).Run s fs t) (hs : ∀ head ∈ s.db.chainHead, head.lastId ≤ bound) :
    (∀ head ∈ t.db.chainHead, head.lastId ≤ bound) ↔
      ∀ row, Commit.bump row true ∈ fs → row.id ≤ bound := by
  refine h.history (P := fun fs t => (∀ head ∈ t.db.chainHead, head.lastId ≤ bound) ↔
    ∀ row, Commit.bump row true ∈ fs → row.id ≤ bound) (by simpa using hs) ?_
  intro fs t c u _ st ih
  cases st with
  | insert e _ _ happ =>
    rw [(appendRow_cases happ).head, ih]
    simp
  | trim _ =>
    rw [trimRows_head, ih]
    simp
  | @bump row stored _ =>
    cases stored with
    | false => simpa using ih
    | true =>
      have hmem : (∀ r, Commit.bump r true ∈ fs ++ [Commit.bump row true] → r.id ≤ bound) ↔
          (∀ r, Commit.bump r true ∈ fs → r.id ≤ bound) ∧ row.id ≤ bound := by
        simp [or_imp, forall_and]
      rw [hmem, ← ih]
      exact bump_head_le_iff t.db row.id bound _

/-- With the rows of an honest state, the verdict compares the mark read later with the
newest row read before. -/
theorem verdict_ok_iff_mark {cfg : Config} {s : Writers} {es : List Commit}
    (hs : (logging cfg).Run .start es s) (t : Writers) :
    (verdict cfg (hashedRows s.db) (chainHeadLastId t.db)).map Verdict.ok = some true ↔
      ∀ head ∈ t.db.chainHead, head.lastId ≤ lastId (hashedRows s.db) := by
  have hinv := (writers_invariant hs).log
  rw [hinv.hashedRows, (verdict_honest hinv.honest hinv.linked _).1]
  simp [chainHeadLastId]

theorem mark_below_snapshot {cfg : Config} {s : Writers} {es : List Commit}
    (hs : (logging cfg).Run .start es s) :
    ∀ head ∈ s.db.chainHead, head.lastId ≤ lastId (hashedRows s.db) := by
  have hinv := writers_invariant hs
  rw [hinv.log.hashedRows, hinv.newest]
  exact fun head hhead => (hinv.log.mark head hhead).2

/-- A verifier that reads the rows in one state of an honest run and the mark in a later
one answers ok exactly if no mark of a row newer than its snapshot was stored in between. -/
theorem verify_between_appends_iff {cfg : Config} {s t : Writers} {es fs : List Commit}
    (hs : (logging cfg).Run .start es s) (ht : (logging cfg).Run s fs t) :
    (verdict cfg (hashedRows s.db) (chainHeadLastId t.db)).map Verdict.ok = some true ↔
      ∀ row, Commit.bump row true ∈ fs → row.id ≤ lastId (hashedRows s.db) := by
  rw [verdict_ok_iff_mark hs, run_head_le_iff ht (mark_below_snapshot hs)]

/-- One whole call from the empty log. -/
theorem one_call_run : ∃ row t, row.id = 1 ∧ (logging sampleConfig).Run .start
    [.insert (sampleCall 1).1, .trim, .bump row true] t := by
  have hsome : (appendRow sampleConfig .empty (sampleCall 1).1).isSome := by decide +kernel
  obtain ⟨⟨db, row⟩, happ⟩ := Option.isSome_iff_exists.mp hsome
  exact ⟨row, _, (appendRow_cases happ).id,
    .cons (.insert _ rfl (by decide) happ) (.cons (.trim rfl)
      (.single (.bump true (List.mem_singleton_self row))))⟩

theorem verify_between_appends_sample : ∃ row t, (logging sampleConfig).Run .start
      [.insert (sampleCall 1).1, .trim, .bump row true] t ∧
    ((verdict sampleConfig (hashedRows .empty) (chainHeadLastId t.db)).map Verdict.ok = some true ↔
      ∀ r, Commit.bump r true ∈ [.insert (sampleCall 1).1, .trim, .bump row true] →
        r.id ≤ lastId (hashedRows .empty)) := by
  obtain ⟨row, t, _, hrun⟩ := one_call_run
  exact ⟨row, t, hrun, verify_between_appends_iff (.nil _) hrun⟩

/-- The rows are read from the empty log, one honest call runs to its end, the mark is read:
the verifier reports a truncation. -/
theorem false_alarm : ∃ row t, (logging sampleConfig).Run .start
      [.insert (sampleCall 1).1, .trim, .bump row true] t ∧
    (verdict sampleConfig (hashedRows .empty) (chainHeadLastId t.db)).map Verdict.ok ≠
      some true := by
  obtain ⟨row, t, hid, hrun⟩ := one_call_run
  refine ⟨row, t, hrun, fun hok => ?_⟩
  have hmark := (verdict_ok_iff_mark (.nil _) t).mp hok
  have hbelow := (run_head_le_iff hrun (by simp [Writers.start, Database.empty])).mp hmark
  have hrow := hbelow row (by simp)
  rw [hid] at hrow
  exact absurd hrow (by decide)

end ActivityLog
