import SysibleController.ActivityLogInterleaving

/-! The incremental activity feed: a poller that asks `get_activity_log` again and again from
the largest id it has received, while calls of `log_activity` insert and trim rows. -/
namespace ActivityLog

open TransitionSystem

/-- `written` is every row the table has held, `received` what the poller got, oldest first. -/
structure Poller where
  writers : Writers
  cursor : ℤ
  received : List FeedRow
  written : List ActivityRow

def Poller.start (w : Writers) (c : ℤ) : Poller := ⟨w, c, [], w.db.activityLog⟩

inductive FeedStep where
  | commit (c : Commit)
  | poll

/-- The cursor becomes the largest id received. -/
def advance (cursor : ℤ) (page : List FeedRow) : ℤ := page.foldl (fun c f => max c f.id) cursor

def Poller.poll (limit : ℤ) (source : Option String) (s : Poller) : Poller :=
  let page := getActivityLog s.writers.db limit s.cursor source
  { s with cursor := advance s.cursor page, received := s.received ++ page.reverse }

@[simp] theorem Poller.poll_writers (limit : ℤ) (source : Option String) (s : Poller) :
    (s.poll limit source).writers = s.writers := rfl

@[simp] theorem Poller.poll_written (limit : ℤ) (source : Option String) (s : Poller) :
    (s.poll limit source).written = s.written := rfl

/-- The row an INSERT has just written. -/
def newRows (c : Commit) (w : Writers) : List ActivityRow :=
  match c with
  | .insert _ => w.inserted.toList
  | _ => []

inductive Feeds (cfg : Config) (limit : ℤ) (source : Option String) :
    Poller → FeedStep → Poller → Prop where
  | commit {s c w} : Commits cfg s.writers c w → Feeds cfg limit source s (.commit c)
      { s with writers := w, written := s.written ++ newRows c w }
  | poll (s) : Feeds cfg limit source s .poll (s.poll limit source)

/-- Matching rows above a cursor. -/
def above (source : Option String) (c : ℤ) (rows : List ActivityRow) : List ActivityRow :=
  rows.filter fun r => sourceMatches source r ∧ c < r.id

def feedOf (source : Option String) (c : ℤ) (rows : List ActivityRow) : List FeedRow :=
  (above source c rows).map ActivityRow.feedRow

/-- Retention takes no matching row that the poller has not reached. -/
def SparesUnread (cfg : Config) (source : Option String) (s : Poller) : FeedStep → Prop
  | .commit .trim => ∀ row ∈ s.writers.inserted, ∀ r ∈ s.writers.db.activityLog,
      sourceMatches source r → r ∉ (trimRows cfg s.writers.db row.id).activityLog →
      r.id ≤ s.cursor
  | _ => True

def feed (cfg : Config) (limit : ℤ) (source : Option String) (w : Writers) (c : ℤ) :
    Machine Poller FeedStep :=
  Machine.restrict ⟨.start w c, Feeds cfg limit source⟩ (SparesUnread cfg source)

/-- The primary key of the table and its AUTOINCREMENT counter. -/
structure TableOrder (db : Database) : Prop where
  ascending : db.activityLog.Pairwise fun a b => a.id < b.id
  bounded : ∀ r ∈ db.activityLog, r.id ≤ db.activitySeq

/-! ### One page -/

variable {cfg : Config} {limit c c' : ℤ} {source : Option String} {rows rows' : List ActivityRow}
  {s t : Poller} {w : Writers} {e : FeedStep}

theorem mem_above {r : ActivityRow} :
    r ∈ above source c rows ↔ r ∈ rows ∧ sourceMatches source r ∧ c < r.id := by
  simp [above]

theorem above_append : above source c (rows ++ rows') = above source c rows ++ above source c rows' :=
  List.filter_append ..

theorem above_above (h : c ≤ c') : above source c' (above source c rows) = above source c' rows := by
  unfold above
  rw [List.filter_filter]
  refine List.filter_congr fun r _ => ?_
  have : c' < r.id → c < r.id := fun h' => lt_of_le_of_lt h h'
  simp only [← Bool.decide_and, decide_eq_decide]
  tauto

theorem le_advance (page : List FeedRow) : ∀ c, c ≤ advance c page ∧ ∀ f ∈ page, f.id ≤ advance c page := by
  induction page with
  | nil => simp [advance]
  | cons f page ih =>
    intro c
    obtain ⟨hc, hpage⟩ := ih (max c f.id)
    exact ⟨le_trans (le_max_left ..) hc,
      List.forall_mem_cons.mpr ⟨le_trans (le_max_right ..) hc, hpage⟩⟩

theorem advance_eq (page : List FeedRow) : ∀ c, advance c page = c ∨ ∃ f ∈ page, advance c page = f.id := by
  induction page with
  | nil => simp [advance]
  | cons f page ih =>
    intro c
    rcases ih (max c f.id) with h | ⟨g, hg, h⟩
    · rcases max_choice c f.id with hm | hm
      · exact .inl (h.trans hm)
      · exact .inr ⟨f, List.mem_cons_self .., h.trans hm⟩
    · exact .inr ⟨g, List.mem_cons_of_mem _ hg, h⟩

/-- A poll takes the oldest unread rows, `limit` of them if there are as many. -/
theorem page_eq (hlimit : 1 ≤ limit) (hc : 0 < c) (db : Database) :
    getActivityLog db limit c source =
      (((above source c db.activityLog).take limit.toNat).map ActivityRow.feedRow).reverse := by
  have hwindow : (db.activityLog.filter (sourceMatches source)).filter (fun r => c < r.id) =
      above source c db.activityLog := by
    unfold above
    rw [List.filter_filter]
    exact List.filter_congr fun r _ => by simp [Bool.and_comm]
  simp only [getActivityLog, sqlLimit]
  rw [if_pos hc, if_neg (by omega), hwindow]

/-- The cursor of a page splits what was unread where the page ended. -/
theorem above_advance {n : ℕ} (hasc : rows.Pairwise fun a b => a.id < b.id)
    (hc : ∀ r ∈ rows, sourceMatches source r ∧ c < r.id) :
    above source (advance c ((rows.take n).map ActivityRow.feedRow).reverse) rows = rows.drop n := by
  obtain ⟨-, hle⟩ := le_advance ((rows.take n).map ActivityRow.feedRow).reverse c
  have heq := advance_eq ((rows.take n).map ActivityRow.feedRow).reverse c
  generalize advance c ((rows.take n).map ActivityRow.feedRow).reverse = c' at hle heq ⊢
  have htaken : above source c' (rows.take n) = [] := by
    refine List.filter_eq_nil_iff.mpr fun r hr => ?_
    have : r.id ≤ c' := hle r.feedRow (List.mem_reverse.mpr (List.mem_map_of_mem hr))
    simp [this]
  have hleft : above source c' (rows.drop n) = rows.drop n := by
    refine List.filter_eq_self.mpr fun r hr => ?_
    obtain ⟨hmatch, hgt⟩ := hc r (List.mem_of_mem_drop hr)
    have : c' < r.id := by
      rcases heq with rfl | ⟨f, hf, rfl⟩
      · exact hgt
      · obtain ⟨q, hq, rfl⟩ := List.mem_map.mp (List.mem_reverse.mp hf)
        rw [← List.take_append_drop n rows] at hasc
        exact (List.pairwise_append.mp hasc).2.2 q hq r hr
    simp [hmatch, this]
  calc above source c' rows
      = above source c' (rows.take n ++ rows.drop n) := by rw [List.take_append_drop]
    _ = rows.drop n := by rw [above_append, htaken, hleft, List.nil_append]

/-! ### Steps and runs -/

/-- What the poller has, and what it still has to get, is the whole feed since it started. -/
structure Fed (source : Option String) (c : ℤ) (s : Poller) : Prop where
  ascending : s.written.Pairwise fun a b => a.id < b.id
  bounded : ∀ r ∈ s.written, r.id ≤ s.writers.db.activitySeq
  kept : above source s.cursor s.writers.db.activityLog = above source s.cursor s.written
  delivered : s.received ++ feedOf source s.cursor s.written = feedOf source c s.written
  started : c ≤ s.cursor
  cursor : s.cursor = c ∨ s.cursor ≤ s.writers.db.activitySeq

theorem start_fed (hdb : TableOrder w.db) : Fed source c (.start w c) :=
  ⟨hdb.ascending, hdb.bounded, rfl, rfl, le_rfl, .inl rfl⟩

theorem Fed.insert (h : Fed source c s) {e : Entry} {db : Database} {row : ActivityRow}
    (ha : Appended cfg s.writers.db e db row) {w : Writers} (hw : w.db = db) :
    Fed source c { s with writers := w, written := s.written ++ [row] } := by
  have hnew : ∀ r ∈ s.written, r.id < row.id := fun r hr => by
    have := h.bounded r hr
    rw [ha.id]
    omega
  -- the new row lies above the cursor exactly if it lies above the first one
  have hrow : feedOf source s.cursor [row] = feedOf source c [row] := by
    have : s.cursor < row.id ↔ c < row.id := by
      have := h.started
      have := ha.id
      rcases h.cursor with hc | hc <;> omega
    simp only [feedOf, above, List.filter_cons, List.filter_nil, this]
  subst hw
  refine ⟨?_, fun r hr => ?_, ?_, ?_, h.started, h.cursor.imp_right fun hc => ?_⟩
  · exact List.pairwise_append.mpr ⟨h.ascending, List.pairwise_singleton _ _, fun r hr q hq =>
      List.mem_singleton.mp hq ▸ hnew r hr⟩
  · rw [ha.seq]
    rcases List.mem_append.mp hr with hr | hr
    · have := h.bounded r hr
      omega
    · rw [List.mem_singleton.mp hr, ha.id]
  · rw [ha.log, above_append, above_append, h.kept]
  · rw [feedOf, feedOf, above_append, above_append, List.map_append, List.map_append,
      ← List.append_assoc]
    exact congrArg₂ (· ++ ·) h.delivered hrow
  · rw [ha.seq]
    exact le_trans hc (by omega)

theorem trimRows_log (cfg : Config) (db : Database) (n : ℤ) :
    ∃ keep : ActivityRow → Bool, (trimRows cfg db n).activityLog = db.activityLog.filter keep := by
  unfold trimRows
  dsimp only
  split_ifs
  · exact ⟨_, rfl⟩
  · exact ⟨fun _ => true, (List.filter_true _).symm⟩
  · exact ⟨fun _ => true, (List.filter_true _).symm⟩

theorem Fed.trim (h : Fed source c s) {row : ActivityRow}
    (hspare : ∀ r ∈ s.writers.db.activityLog, sourceMatches source r →
      r ∉ (trimRows cfg s.writers.db row.id).activityLog → r.id ≤ s.cursor)
    {w : Writers} (hw : w.db = trimRows cfg s.writers.db row.id) :
    Fed source c { s with writers := w } := by
  have hseq : w.db.activitySeq = s.writers.db.activitySeq := by rw [hw, trimRows_seq]
  refine ⟨h.ascending, hseq ▸ h.bounded, ?_, h.delivered, h.started, hseq ▸ h.cursor⟩
  rw [← h.kept]
  dsimp only
  rw [hw]
  obtain ⟨keep, hkeep⟩ := trimRows_log cfg s.writers.db row.id
  rw [hkeep] at hspare ⊢
  unfold above
  rw [List.filter_filter]
  refine List.filter_congr fun r hr => ?_
  by_cases hk : keep r
  · simp [hk]
  · have hle := fun hm => hspare r hr hm fun hmem => hk (List.mem_filter.mp hmem).2
    simp only [Bool.not_eq_true] at hk
    simp only [hk, Bool.and_false, Bool.false_eq, decide_eq_false_iff_not, not_and, not_lt]
    exact hle

theorem Fed.page_eq (h : Fed source c s) (hlimit : 1 ≤ limit) (hc : 0 < c) :
    getActivityLog s.writers.db limit s.cursor source =
      (((above source s.cursor s.written).take limit.toNat).map ActivityRow.feedRow).reverse := by
  rw [← h.kept]
  exact ActivityLog.page_eq hlimit (lt_of_lt_of_le hc h.started) _

/-- A poll hands over the first rows of what was left to get. -/
theorem Fed.poll_page (h : Fed source c s) (hlimit : 1 ≤ limit) (hc : 0 < c) :
    (s.poll limit source).received =
        s.received ++ ((above source s.cursor s.written).take limit.toNat).map ActivityRow.feedRow ∧
      above source (s.poll limit source).cursor s.written =
        (above source s.cursor s.written).drop limit.toNat := by
  unfold Poller.poll
  dsimp only
  rw [h.page_eq hlimit hc, List.reverse_reverse]
  refine ⟨rfl, ?_⟩
  rw [← above_above (le_advance _ s.cursor).1]
  exact above_advance (h.ascending.filter _) fun r hr => (mem_above.mp hr).2

theorem Fed.poll (h : Fed source c s) (hlimit : 1 ≤ limit) (hc : 0 < c) :
    Fed source c (s.poll limit source) := by
  obtain ⟨hreceived, hleft⟩ := h.poll_page hlimit hc
  have hle : s.cursor ≤ (s.poll limit source).cursor := (le_advance _ s.cursor).1
  refine ⟨h.ascending, h.bounded, ?_, ?_, le_trans h.started hle, ?_⟩
  · have hwritten : above source (s.poll limit source).cursor (above source s.cursor s.written) =
        above source (s.poll limit source).cursor (s.poll limit source).written := above_above hle
    rw [← above_above hle, ← hwritten]
    exact congrArg (above source _) h.kept
  · rw [hreceived, feedOf, Poller.poll_written, hleft, List.append_assoc, ← List.map_append,
      List.take_append_drop]
    exact h.delivered
  · have hnew := advance_eq (getActivityLog s.writers.db limit s.cursor source) s.cursor
    rcases hnew with heq | ⟨f, hf, heq⟩
    · exact h.cursor.imp heq.trans heq.trans_le
    · rw [h.page_eq hlimit hc] at hf
      obtain ⟨r, hr, rfl⟩ := List.mem_map.mp (List.mem_reverse.mp hf)
      exact .inr (heq.trans_le (h.bounded r (mem_above.mp (List.mem_of_mem_take hr)).1))

theorem fed_step (hlimit : 1 ≤ limit) (hc : 0 < c) {w : Writers} (s : Poller) (e : FeedStep)
    (t : Poller) (hst : (feed cfg limit source w c).step s e t) (h : Fed source c s) :
    Fed source c t := by
  obtain ⟨hspare, hst⟩ := hst
  cases hst with
  | poll => exact h.poll hlimit hc
  | commit hcommit =>
    cases hcommit with
    | insert e _ _ happ => exact h.insert (appendRow_cases happ) rfl
    | @trim row hrow =>
      have := h.trim (hspare row hrow) (w := ⟨trimRows cfg s.writers.db row.id, none,
        s.writers.unlocked ++ [row]⟩) rfl
      simpa [newRows] using this
    | @bump row stored _ =>
      have hlog : ∀ w : Writers, w.db.activityLog = s.writers.db.activityLog →
          w.db.activitySeq = s.writers.db.activitySeq →
          Fed source c { s with writers := w, written := s.written ++ [] } := by
        intro w hlog hseq
        rw [List.append_nil]
        exact ⟨h.ascending, hseq ▸ h.bounded, (congrArg _ hlog).trans h.kept, h.delivered,
          h.started, hseq ▸ h.cursor⟩
      cases stored with
      | false => exact hlog _ rfl rfl
      | true => exact hlog _ (bumpChainHead_log ..) (bumpChainHead_seq ..)

theorem fed_run (hlimit : 1 ≤ limit) (hc : 0 < c) (hdb : TableOrder w.db) {es : List FeedStep}
    (hrun : (feed cfg limit source w c).Run (.start w c) es s) : Fed source c s :=
  hrun.invariant (fed_step hlimit hc) (start_fed hdb)

def polls (es : List FeedStep) : ℕ := es.countP fun | .poll => true | .commit _ => false

/-- Rows that have been written stay in the feed, and come before later ones. -/
theorem feedOf_step {cfg : Config} (hst : (feed cfg limit source w c).step s e t) (c₀ : ℤ) :
    feedOf source c₀ s.written <+: feedOf source c₀ t.written := by
  cases hst.2 with
  | poll => exact List.prefix_rfl
  | commit =>
    rw [feedOf, feedOf, above_append, List.map_append]
    exact List.prefix_append _ _

/-- Until it has caught up with a feed that was there at the start of a run, each poll brings
the poller at least one row. -/
theorem polls_progress (hlimit : 1 ≤ limit) (hc : 0 < c) (hs : Fed source c s)
    {es : List FeedStep} (hrun : (feed cfg limit source w c).Run s es t) :
    feedOf source c s.written <+: feedOf source c t.written ∧
      ((feedOf source c s.written).length ≤ t.received.length ∨
        s.received.length + polls es ≤ t.received.length) := by
  refine hrun.history (P := fun es t => feedOf source c s.written <+: feedOf source c t.written ∧
    ((feedOf source c s.written).length ≤ t.received.length ∨
      s.received.length + polls es ≤ t.received.length)) ⟨List.prefix_rfl, .inr le_rfl⟩ ?_
  intro es t e u hrun hst ⟨hpre, hlen⟩
  have ht : Fed source c t := hrun.invariant (fed_step hlimit hc) hs
  have hu := feedOf_step hst c
  refine ⟨hpre.trans hu, ?_⟩
  cases hst.2 with
  | commit => simpa [polls, List.countP_append] using hlen
  | poll =>
    have hreceived := congrArg List.length (ht.poll_page hlimit hc).1
    have hdelivered := congrArg List.length ht.delivered
    have hle := hpre.length_le
    simp only [feedOf, List.length_append, List.length_map, List.length_take] at hreceived hdelivered hle ⊢ hlen
    simp only [polls, List.countP_append, List.countP_singleton, if_true] at hlen ⊢
    omega

/-- The feed loses nothing: after enough polls the poller has received every matching row above
its first cursor that was there before them, each once and in increasing order, and behind them
only rows that came later. -/
theorem feed_loses_nothing (hlimit : 1 ≤ limit) (hc : 0 < c) (hdb : TableOrder w.db)
    {es fs : List FeedStep} (hs : (feed cfg limit source w c).Run (.start w c) es s)
    (ht : (feed cfg limit source w c).Run s fs t)
    (hpolls : (above source s.cursor s.written).length ≤ polls fs) :
    feedOf source c s.written <+: t.received ∧ t.received <+: feedOf source c t.written ∧
      (t.received.map FeedRow.id).Pairwise (· < ·) := by
  have hfs := fed_run hlimit hc hdb hs
  have hft := fed_run hlimit hc hdb (hs.append ht)
  obtain ⟨hpre, hlen⟩ := polls_progress hlimit hc hfs ht
  have hreceived : t.received <+: feedOf source c t.written := ⟨_, hft.delivered⟩
  refine ⟨?_, hreceived, ?_⟩
  · refine List.prefix_of_prefix_length_le hpre hreceived ?_
    have hdelivered := congrArg List.length hfs.delivered
    simp only [feedOf, List.length_append, List.length_map] at hdelivered hlen ⊢
    omega
  · refine List.Pairwise.sublist (hreceived.sublist.map FeedRow.id) ?_
    rw [feedOf, List.map_map]
    exact List.pairwise_map.mpr (hft.ascending.filter _)

def sampleRow (id : ℤ) (source : Option String) : ActivityRow :=
  ⟨id, none, none, none, none, none, source, none, none, none⟩

/-- Three rows, one of them from before the column existed. -/
def sampleWriters : Writers :=
  ⟨⟨[sampleRow 1 none, sampleRow 2 (some "user"), sampleRow 3 none], 3, none⟩, none, []⟩

theorem feed_loses_nothing_sample : ∃ t,
    (feed sampleConfig 1 (some "api") sampleWriters 1).Run (.start sampleWriters 1) [.poll] t ∧
    feedOf (some "api") 1 sampleWriters.db.activityLog <+: t.received ∧
    t.received <+: feedOf (some "api") 1 t.written ∧
    (t.received.map FeedRow.id).Pairwise (· < ·) := by
  have hrun : (feed sampleConfig 1 (some "api") sampleWriters 1).Run (.start sampleWriters 1)
      [.poll] ((Poller.start sampleWriters 1).poll 1 (some "api")) := .single ⟨trivial, .poll _⟩
  exact ⟨_, hrun, feed_loses_nothing le_rfl Int.one_pos ⟨by decide, by decide⟩ (.nil _) hrun
    (by decide)⟩

end ActivityLog
