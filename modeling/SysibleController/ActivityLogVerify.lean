import SysibleController.ActivityLog

/-! What `verify_activity_chain` reports: on honest logs, on logs whose newest rows were
deleted, and on tables that somebody with write access rewrote. -/
namespace ActivityLog

open HashChain (Scheme)

/-! ### The walk over honest rows -/

def WalkState.next (cfg : Config) (w : WalkState) (r : ActivityRow) : WalkState :=
  ⟨w.checked + 1, r.entryHash, w.seenKeyed || cfg.keyed, w.allKeyed && cfg.keyed⟩

theorem algo_eq_hmac_iff (cfg : Config) : cfg.algo = "hmac-sha256" ↔ cfg.keyed = true := by
  cases h : cfg.keyed <;> simp [Config.algo, h]

theorem Honest.algo_eq {cfg : Config} {r : ActivityRow} (h : Honest cfg r) :
    r.algo = cfg.algo := by
  rw [ActivityRow.algo, h.algo]
  exact orDefault_some (algo_ne cfg) _

/-- An honest row that names the expected predecessor passes, whatever came before it under
the same key. -/
theorem checkRow_honest {cfg : Config} {w : WalkState} {r : ActivityRow} (h : Honest cfg r)
    (hprev : ∀ p ∈ w.expectedPrev, r.prevHash.getD "" = p)
    (hseen : w.seenKeyed = true → cfg.keyed = true) :
    checkRow cfg w r = some (.inr (w.next cfg r)) := by
  have hlink : w.expectedPrev.any (fun p => !decide (r.prevHash.getD "" = p)) = false := by
    cases hp : w.expectedPrev with
    | none => rfl
    | some p => simp [hprev p (by simp [hp])]
  have hdigest : r.digest cfg = some (r.entryHash.getD "") := h.genuine
  have hkeyed : (r.algo = "hmac-sha256") ↔ cfg.keyed = true := by
    rw [h.algo_eq]
    exact algo_eq_hmac_iff cfg
  cases hk : cfg.keyed with
  | true =>
    have halgo := hkeyed.mpr hk
    simp [checkRow, hlink, hdigest, halgo, hk, WalkState.next]
  | false =>
    have halgo : r.algo ≠ "hmac-sha256" := fun ha => by simp [hkeyed.mp ha] at hk
    have hsk : w.seenKeyed = false := by
      cases hs : w.seenKeyed with
      | false => rfl
      | true => exact absurd (hseen hs) (by simp [hk])
    simp [checkRow, hlink, hdigest, halgo, hk, hsk, WalkState.next]

theorem walk_honest {cfg : Config} : ∀ {rows : List ActivityRow} {w : WalkState},
    (∀ r ∈ rows, Honest cfg r) → (chain cfg).Linked rows →
    (∀ p ∈ w.expectedPrev, ∀ r ∈ rows.head?, r.prevHash.getD "" = p) →
    (w.seenKeyed = true → cfg.keyed = true) →
    walk cfg w rows = some (.inr (rows.foldl (WalkState.next cfg) w))
  | [], w, _, _, _, _ => rfl
  | r :: rows, w, hall, hlink, hprev, hseen => by
    have hr := hall r (List.mem_cons_self ..)
    rw [walk, checkRow_honest hr (fun p hp => hprev p hp r rfl) hseen]
    refine walk_honest (fun x hx => hall x (List.mem_cons_of_mem _ hx)) hlink.tail ?_ ?_
    · intro p hp x hx
      have hpr : r.entryHash = some p := hp
      cases rows with
      | nil => cases hx
      | cons y rows =>
        cases hx
        have := (List.isChain_cons_cons.mp hlink).1
        simpa [chain, hpr] using this
    · intro hs
      simp only [WalkState.next, Bool.or_eq_true] at hs
      exact hs.elim hseen id

theorem foldl_next_checked (cfg : Config) (rows : List ActivityRow) (w : WalkState) :
    (rows.foldl (WalkState.next cfg) w).checked = w.checked + rows.length ∧
    (rows.foldl (WalkState.next cfg) w).allKeyed = (w.allKeyed && (rows.isEmpty || cfg.keyed)) := by
  induction rows generalizing w with
  | nil => simp
  | cons r rows ih =>
    obtain ⟨h1, h2⟩ := ih (w.next cfg r)
    rw [List.foldl_cons, h1, h2]
    constructor
    · simp only [WalkState.next, List.length_cons]
      omega
    · cases hk : cfg.keyed <;> simp [WalkState.next, hk]

/-- On honest rows the verdict hangs on the high-water mark alone. -/
theorem verdict_honest {cfg : Config} {rows : List ActivityRow}
    (hall : ∀ r ∈ rows, Honest cfg r) (hlink : (chain cfg).Linked rows) (headId : Option ℤ) :
    (verdict cfg rows headId).map Verdict.ok =
        some (decide (∀ h ∈ headId, h ≤ lastId rows)) ∧
    (verdict cfg rows headId).map Verdict.keyed = some (!rows.isEmpty && cfg.keyed) := by
  have hwalk := walk_honest (w := .start) hall hlink (by simp [WalkState.start])
    (by simp [WalkState.start])
  obtain ⟨hchecked, hkeyed⟩ := foldl_next_checked cfg rows .start
  have hflag : ((rows.foldl (WalkState.next cfg) .start).checked ≠ 0 &&
      (rows.foldl (WalkState.next cfg) .start).allKeyed) = (!rows.isEmpty && cfg.keyed) := by
    rw [hchecked, hkeyed]
    cases rows <;> simp [WalkState.start]
  simp only [verdict, hwalk, Option.map_some, hflag]
  cases headId with
  | none => simp
  | some h =>
    by_cases hh : lastId rows < h
    · simp [hh]
    · simp [hh, not_lt.mp hh]

theorem verify_honest {cfg : Config} {db : Database} (h : LogInvariant cfg db) :
    (verifyActivityChain cfg db).map Verdict.ok =
      some (decide (∀ head ∈ db.chainHead, head.lastId ≤ lastId db.activityLog)) := by
  rw [verifyActivityChain, h.hashedRows, (verdict_honest h.honest h.linked _).1]
  simp [chainHeadLastId]

/-! ### Appending to a log -/

theorem lastId_append (rows : List ActivityRow) (r : ActivityRow) :
    lastId (rows ++ [r]) = r.id := by simp [lastId]

/-- A trim below a row that is still there keeps the newest row. -/
theorem trim_lastId (cfg : Config) {db : Database} {n : ℤ} (hn : n ≤ lastId db.activityLog) :
    lastId (trimRows cfg db n).activityLog = lastId db.activityLog := by
  unfold trimRows
  dsimp only
  split
  · split
    · rcases List.eq_nil_or_concat db.activityLog with hnil | ⟨rows, r, hr⟩
      · simp [hnil]
      · rw [List.concat_eq_append] at hr
        rw [hr, lastId_append] at hn
        have hkeep : decide (n - cfg.maxRows < r.id) = true := by simp; omega
        simp only [hr, List.filter_append, List.filter_singleton, hkeep]
        rw [lastId_append]
        exact lastId_append _ r
    · rfl
  · rfl

@[simp] theorem trimRows_seq (cfg : Config) (db : Database) (n : ℤ) :
    (trimRows cfg db n).activitySeq = db.activitySeq := by
  unfold trimRows; dsimp only; split_ifs <;> rfl

@[simp] theorem trimRows_head (cfg : Config) (db : Database) (n : ℤ) :
    (trimRows cfg db n).chainHead = db.chainHead := by
  unfold trimRows; dsimp only; split_ifs <;> rfl

@[simp] theorem bumpChainHead_log (db : Database) (n : ℤ) (hash : String) :
    (bumpChainHead db n hash).activityLog = db.activityLog := by
  unfold bumpChainHead; split <;> [split; skip] <;> rfl

@[simp] theorem bumpChainHead_seq (db : Database) (n : ℤ) (hash : String) :
    (bumpChainHead db n hash).activitySeq = db.activitySeq := by
  unfold bumpChainHead; split <;> [split; skip] <;> rfl

/-- A call that wrote its row leaves an honest log whose last row is the newest id. -/
theorem logActivity_cases {cfg : Config} {db db' : Database} {e : Entry} {stored : Bool}
    (h : LogInvariant cfg db) (hlog : logActivity cfg db e stored = some db') :
    LogInvariant cfg db' ∧ lastId db'.activityLog = db'.activitySeq := by
  unfold logActivity at hlog
  split at hlog
  · cases hlog
  obtain ⟨⟨db₁, row⟩, happ, heq⟩ := Option.map_eq_some_iff.mp hlog
  have ha := appendRow_cases happ
  have hinv := trim_invariant (append_invariant h ha) row.id
  have hnew : lastId db₁.activityLog = row.id := ha.log ▸ lastId_append _ row
  have hlast := (trim_lastId cfg hnew.ge).trans hnew
  have hseq : (trimRows cfg db₁ row.id).activitySeq = row.id := by
    rw [trimRows_seq, ha.seq, ha.id]
  dsimp only at heq
  cases stored with
  | false =>
    obtain rfl : trimRows cfg db₁ row.id = db' := by simpa using heq
    exact ⟨hinv, hlast.trans hseq.symm⟩
  | true =>
    obtain rfl : bumpChainHead (trimRows cfg db₁ row.id) row.id (row.entryHash.getD "") = db' := by
      simpa using heq
    refine ⟨bump_invariant hinv ⟨?_, hseq.ge⟩ _, ?_⟩
    · have := h.seq
      rw [ha.id]
      omega
    · rw [bumpChainHead_log, bumpChainHead_seq, hlast, hseq]

theorem logAll_cons {cfg : Config} {db db' : Database} {call : Entry × Bool}
    {calls : List (Entry × Bool)} (h : logAll cfg db (call :: calls) = some db') :
    ∃ db₁, logActivity cfg db call.1 call.2 = some db₁ ∧ logAll cfg db₁ calls = some db' := by
  simp only [logAll, List.foldlM_cons, Option.bind_eq_bind, Option.bind_eq_some_iff] at h
  exact h

theorem logAll_invariant {cfg : Config} {calls : List (Entry × Bool)} {db db' : Database}
    (h : LogInvariant cfg db) (hlog : logAll cfg db calls = some db') : LogInvariant cfg db' := by
  induction calls generalizing db with
  | nil => cases hlog; exact h
  | cons call calls ih =>
    obtain ⟨db₁, h1, h2⟩ := logAll_cons hlog
    exact ih (logActivity_cases h h1).1 h2

theorem logAll_lastId {cfg : Config} {calls : List (Entry × Bool)} {db db' : Database}
    (h : LogInvariant cfg db) (hlog : logAll cfg db calls = some db') (hne : calls ≠ []) :
    lastId db'.activityLog = db'.activitySeq := by
  induction calls generalizing db with
  | nil => exact absurd rfl hne
  | cons call calls ih =>
    obtain ⟨db₁, h1, h2⟩ := logAll_cons hlog
    obtain ⟨hinv, hlast⟩ := logActivity_cases h h1
    cases calls with
    | nil => cases h2; exact hlast
    | cons c cs => exact ih hinv h2 (by simp)

/-! ### Deleting the newest rows -/

/-- The newest rows are gone from the table; the mark and the id counter are untouched. -/
def cutTail (db : Database) (keep : ℕ) : Database :=
  { db with activityLog := db.activityLog.take keep }

theorem cut_invariant {cfg : Config} {db : Database} (h : LogInvariant cfg db) (keep : ℕ) :
    LogInvariant cfg (cutTail db keep) := h.segment (List.take_prefix _ _).isInfix

/-- One more honest append and the cut is invisible: the new row chains to whatever row is
now the last, and its own id is at least the mark. -/
theorem verify_after_append {cfg : Config} {db db' : Database} {calls : List (Entry × Bool)}
    (h : LogInvariant cfg db) (hlog : logAll cfg db calls = some db') (hne : calls ≠ []) :
    (verifyActivityChain cfg db').map Verdict.ok = some true := by
  have hinv := logAll_invariant h hlog
  rw [verify_honest hinv, logAll_lastId h hlog hne]
  simp only [Option.some.injEq, decide_eq_true_eq]
  exact fun head hhead => (hinv.mark head hhead).2

/-- A deletion of the newest rows is reported exactly while nothing has been appended since
and the mark stands above the last row left. -/
theorem tail_cut_reported_iff {cfg : Config} {calls later : List (Entry × Bool)}
    {db db' : Database} {keep : ℕ} (hlog : logAll cfg .empty calls = some db)
    (_hcut : keep < db.activityLog.length) (hlater : logAll cfg (cutTail db keep) later = some db') :
    (verifyActivityChain cfg db').map Verdict.ok = some false ↔
      later = [] ∧ ∃ head, db.chainHead = some head ∧
        lastId (db.activityLog.take keep) < head.lastId := by
  have hinv := cut_invariant (logAll_invariant (empty_invariant cfg) hlog) keep
  by_cases hne : later = []
  · subst hne
    cases hlater
    rw [verify_honest hinv]
    simp [cutTail]
  · rw [verify_after_append hinv hlater hne]
    simp [hne]

/-! ### A sample chain

Stand-ins for the hash functions that spell out what they are given, so that different
payloads have different digests. -/

def spell (tag : Char) (payload : Bytes) : String := String.ofList (tag :: payload.map Char.ofUInt8)

theorem spell_ne (tag : Char) (payload : Bytes) : spell tag payload ≠ "" := by simp [spell]

theorem spell_injective (tag : Char) : Function.Injective (spell tag) := by
  intro p q h
  have hmap := List.tail_eq_of_cons_eq (String.ofList_injective h)
  refine List.map_injective_iff.mpr (fun a b hab => ?_) hmap
  have hv : a.toUInt32.toNat = b.toUInt32.toNat := congrArg (fun c => c.val.toNat) hab
  rw [UInt8.toNat_toUInt32, UInt8.toNat_toUInt32] at hv
  exact UInt8.toNat_inj.mp hv

def sampleConfig : Config where
  hashes := ⟨spell '#', fun _ => spell '@', spell_ne '#', fun _ => spell_ne '@'⟩
  key := some [1]
  auditRequired := true
  maxRows := 500000
  redact := id

def sampleCall (ts : ℚ) : Entry × Bool :=
  (⟨ts, some "alice", some "web-1", some "reboot", none, some "user"⟩, true)

def sampleCalls : List (Entry × Bool) := [sampleCall 1, sampleCall 2]

def sampleLog : Database := (logAll sampleConfig .empty sampleCalls).getD .empty

theorem sampleLog_eq : logAll sampleConfig .empty sampleCalls = some sampleLog := by
  decide +kernel

/-- The newest of the two rows deleted, and one more honest call. -/
def resumedLog : Database :=
  (logAll sampleConfig (cutTail sampleLog 1) [sampleCall 3]).getD .empty

theorem resumedLog_eq :
    logAll sampleConfig (cutTail sampleLog 1) [sampleCall 3] = some resumedLog := by
  decide +kernel

theorem sampleLog_length : 1 < sampleLog.activityLog.length := by decide +kernel

theorem tail_cut_reported_sample :
    (verifyActivityChain sampleConfig resumedLog).map Verdict.ok = some false ↔
      [sampleCall 3] = [] ∧ ∃ head, sampleLog.chainHead = some head ∧
        lastId (sampleLog.activityLog.take 1) < head.lastId :=
  tail_cut_reported_iff sampleLog_eq sampleLog_length resumedLog_eq

/-- A row is missing and the verifier finds nothing wrong. -/
theorem tail_cut_forgotten :
    logAll sampleConfig .empty sampleCalls = some sampleLog ∧
    1 < sampleLog.activityLog.length ∧
    logAll sampleConfig (cutTail sampleLog 1) [sampleCall 3] = some resumedLog ∧
    (verifyActivityChain sampleConfig resumedLog).map Verdict.ok = some true :=
  ⟨sampleLog_eq, sampleLog_length, resumedLog_eq,
    verify_after_append (cut_invariant (logAll_invariant (empty_invariant _) sampleLog_eq) 1)
      resumedLog_eq (by simp)⟩

/-! ### Rewritten tables -/

theorem walk_inl_not_ok {cfg : Config} {v : Verdict} : ∀ {rows : List ActivityRow}
    {w : WalkState}, walk cfg w rows = some (.inl v) → v.ok = false
  | [], _, h => by cases h
  | r :: rows, w, h => by
    rw [walk] at h
    split at h
    · exact walk_inl_not_ok h
    · unfold checkRow at h
      split_ifs at h
      · cases h; rfl
      · cases h; rfl
      · cases h; rfl
      · obtain ⟨d, _, hd⟩ := Option.map_eq_some_iff.mp h
        split at hd
        · cases hd; rfl
        · cases hd

/-- A row the walk passes carries the digest of its own content, and under the keyed
algorithm only if there is a key. -/
theorem checkRow_passed {cfg : Config} {w w' : WalkState} {r : ActivityRow}
    (h : checkRow cfg w r = some (.inr w')) :
    (r.algo = "hmac-sha256" → cfg.keyed = true) ∧
    r.digest cfg = some (r.entryHash.getD "") ∧
    w'.allKeyed = (w.allKeyed && decide (r.algo = "hmac-sha256")) := by
  unfold checkRow at h
  split_ifs at h with _ hkey _
  · cases h
  · cases h
  · cases h
  · obtain ⟨d, hd, heq⟩ := Option.map_eq_some_iff.mp h
    split at heq
    · cases heq
    · rename_i hsame
      cases heq
      refine ⟨fun ha => ?_, ?_, rfl⟩
      · by_contra hk
        exact hkey ⟨ha, hk⟩
      · rw [hd, not_not.mp hsame]

theorem walk_passed {cfg : Config} {w' : WalkState} : ∀ {rows : List ActivityRow}
    {w : WalkState}, walk cfg w rows = some (.inr w') → w'.allKeyed = true →
    w.allKeyed = true ∧ ∀ r ∈ rows, r.algo = "hmac-sha256" ∧ cfg.keyed = true ∧
      r.digest cfg = some (r.entryHash.getD "")
  | [], _, h, hk => by cases h; exact ⟨hk, by simp⟩
  | r :: rows, w, h, hk => by
    rw [walk] at h
    split at h
    · rename_i w₁ hcheck
      obtain ⟨hkey, hdigest, hall⟩ := checkRow_passed hcheck
      obtain ⟨h1, hrows⟩ := walk_passed h hk
      rw [hall, Bool.and_eq_true, decide_eq_true_eq] at h1
      refine ⟨h1.1, fun x hx => ?_⟩
      rcases List.mem_cons.mp hx with rfl | hx
      · exact ⟨h1.2, hkey h1.2, hdigest⟩
      · exact hrows x hx
    · rename_i hstop
      exact absurd h (hstop w')

/-- A keyed verdict of ok vouches for every hashed row. -/
theorem keyed_ok_rows {cfg : Config} {db : Database} {v : Verdict}
    (hv : verifyActivityChain cfg db = some v) (hok : v.ok = true) (hkeyed : v.keyed = true) :
    ∀ r ∈ db.activityLog, r.entryHash.isSome → r.algo = "hmac-sha256" ∧ cfg.keyed = true ∧
      r.digest cfg = some (r.entryHash.getD "") := by
  obtain ⟨out, hwalk, heq⟩ := Option.map_eq_some_iff.mp hv
  cases out with
  | inl broken =>
    cases heq
    rw [walk_inl_not_ok hwalk] at hok
    cases hok
  | inr w =>
    have hall : w.allKeyed = true := by
      have hflag : (w.checked ≠ 0 && w.allKeyed) = true := by
        dsimp only at heq
        split at heq
        · split at heq <;> (rw [← heq] at hkeyed; exact hkeyed)
        · rw [← heq] at hkeyed; exact hkeyed
      exact (Bool.and_eq_true _ _ ▸ hflag).2
    intro r hr hsome
    exact (walk_passed hwalk hall).2 r (List.mem_filter.mpr ⟨hr, hsome⟩)

def ActivityRow.fields (r : ActivityRow) : List (Option String) :=
  [some r.algo, some (orDefault r.prevHash ""),
    some (DecimalRounding.toFixed 6 (r.timestamp.getD 0)), some (orDefault r.username ""),
    some (orDefault r.host ""), some (orDefault r.description ""),
    some (orDefault r.command "")]

theorem digest_keyed {cfg : Config} {k : Bytes} {r : ActivityRow} {d : String}
    (hkey : cfg.key = some k) (hk : cfg.keyed = true) (halgo : r.algo = "hmac-sha256")
    (h : r.digest cfg = some d) :
    ∃ p, digestPayload r.fields = some p ∧ d = cfg.hashes.hmacSha256 k p := by
  obtain ⟨p, hp, hd⟩ := Option.map_eq_some_iff.mp h
  refine ⟨p, hp, ?_⟩
  rw [hkey] at hd
  simpa [halgo, hk] using hd.symm

/-- Every row ever written by a sequence of calls, trimmed ones included. -/
def writtenRows (cfg : Config) : Database → List (Entry × Bool) → List ActivityRow
  | _, [] => []
  | db, call :: calls =>
    match logActivity cfg db call.1 call.2 with
    | some db' => ((appendRow cfg db call.1).map Prod.snd).toList ++ writtenRows cfg db' calls
    | none => writtenRows cfg db calls

theorem writtenRows_honest {cfg : Config} : ∀ {calls : List (Entry × Bool)} {db : Database},
    LogInvariant cfg db → ∀ r ∈ writtenRows cfg db calls, Honest cfg r
  | [], _, _, r, hr => by cases hr
  | call :: calls, db, hinv, r, hr => by
    rw [writtenRows] at hr
    split at hr
    · rename_i db' hlog
      rcases List.mem_append.mp hr with hr | hr
      · obtain ⟨⟨db₁, row⟩, happ, rfl⟩ := Option.map_eq_some_iff.mp (Option.mem_toList.mp hr)
        exact (appendRow_cases happ).honest
      · exact writtenRows_honest (logActivity_cases hinv hlog).1 r hr
    · exact writtenRows_honest hinv r hr

/-- What the digest pins down of a row: the time to the microsecond, and the texts with a
NULL read as empty. -/
structure SameContent (r s : ActivityRow) : Prop where
  timestamp : DecimalRounding.toFixed 6 (r.timestamp.getD 0) =
    DecimalRounding.toFixed 6 (s.timestamp.getD 0)
  username : r.username.getD "" = s.username.getD ""
  host : r.host.getD "" = s.host.getD ""
  description : r.description.getD "" = s.description.getD ""
  command : r.command.getD "" = s.command.getD ""

theorem sameContent_of_payload {r s : ActivityRow} {p : Bytes}
    (hr : digestPayload r.fields = some p) (hs : digestPayload s.fields = some p) :
    SameContent r s := by
  have h := digestPayload_inj hr hs
  simp only [ActivityRow.fields, List.map_cons, Option.getD_some, orDefault_empty,
    List.cons.injEq] at h
  obtain ⟨-, -, ht, hu, hh, hd, hc, -⟩ := h
  exact ⟨ht, hu, hh, hd, hc⟩

/-- No keyed digest stands in the table that was not stored by an honest row: what a
writer without the key can put there. -/
def Unforged (cfg : Config) (k : Bytes) (written table : List ActivityRow) : Prop :=
  ∀ r ∈ table, ∀ p, r.entryHash = some (cfg.hashes.hmacSha256 k p) →
    ∃ w ∈ written, w.entryHash = r.entryHash

/-- Whatever was done to the table, a keyed verdict of ok means that each row the feed can
show, if it carries a digest at all, has the content of an honestly written row. -/
theorem hashed_feed_rows_honest {cfg : Config} {k : Bytes} (hkey : cfg.key = some k)
    (hfree : Function.Injective (cfg.hashes.hmacSha256 k)) {calls : List (Entry × Bool)}
    {table : Database}
    (hforge : Unforged cfg k (writtenRows cfg .empty calls) table.activityLog) {v : Verdict}
    (hv : verifyActivityChain cfg table = some v) (hok : v.ok = true) (hkeyed : v.keyed = true)
    (limit sinceId : ℤ) (source : Option String) :
    ∀ f ∈ getActivityLog table limit sinceId source, ∃ r ∈ table.activityLog,
      r.feedRow = f ∧ (r.entryHash.isSome →
        ∃ w ∈ writtenRows cfg .empty calls, SameContent w r) := by
  intro f hf
  obtain ⟨r, hr, rfl⟩ := mem_getActivityLog hf
  refine ⟨r, hr, rfl, fun hsome => ?_⟩
  obtain ⟨halgo, hk, hdigest⟩ := keyed_ok_rows hv hok hkeyed r hr hsome
  obtain ⟨p, hp, hentry⟩ := digest_keyed hkey hk halgo hdigest
  have hrp : r.entryHash = some (cfg.hashes.hmacSha256 k p) := by
    rw [← hentry]
    exact (Option.getD_of_ne_none (Option.isSome_iff_ne_none.mp hsome) _).symm
  obtain ⟨w, hw, hwr⟩ := hforge r hr p hrp
  have hhonest := writtenRows_honest (empty_invariant cfg) w hw
  have hwalgo : w.algo = "hmac-sha256" := hhonest.algo_eq.trans ((algo_eq_hmac_iff cfg).mpr hk)
  obtain ⟨q, hq, hwentry⟩ := digest_keyed hkey hk hwalgo hhonest.genuine
  have hpq : p = q := by
    refine hfree ?_
    rw [← hwentry]
    simp [chain, hwr, hrp]
  exact ⟨w, hw, sameContent_of_payload hq (hpq ▸ hp)⟩

/-- Rewrites that no digest sees: the oldest row loses its digest and with it all cover; in
the newest the class of the caller, the digits of the time below a microsecond, and an
empty text are changed in place. -/
def rewrittenLog : Database :=
  { sampleLog with
    activityLog := match sampleLog.activityLog with
      | [a, b] => [{ a with entryHash := none, command := some "rm -rf /" },
          { b with
            source := some "automation", timestamp := b.timestamp.map (· + 1 / 10 ^ 7)
            command := none }]
      | rows => rows }

theorem rewrittenLog_unforged :
    Unforged sampleConfig [1] (writtenRows sampleConfig .empty sampleCalls)
      rewrittenLog.activityLog := by
  have h : ∀ r ∈ rewrittenLog.activityLog, r.entryHash.isSome →
      ∃ w ∈ writtenRows sampleConfig .empty sampleCalls, w.entryHash = r.entryHash := by
    decide +kernel
  intro r hr p hp
  exact h r hr (by rw [hp]; rfl)

theorem rewrittenLog_verdict : verifyActivityChain sampleConfig rewrittenLog =
    some ⟨true, 1, none, true, false, none⟩ := by decide +kernel

theorem hashed_feed_rows_honest_sample :
    (getActivityLog rewrittenLog 200 0 none).length = 2 ∧
    ∀ f ∈ getActivityLog rewrittenLog 200 0 none, ∃ r ∈ rewrittenLog.activityLog,
      r.feedRow = f ∧ (r.entryHash.isSome →
        ∃ w ∈ writtenRows sampleConfig .empty sampleCalls, SameContent w r) :=
  ⟨by decide +kernel, hashed_feed_rows_honest rfl (spell_injective '@') rewrittenLog_unforged
    rewrittenLog_verdict rfl rfl 200 0 none⟩

/-- The verdict is ok and keyed, yet the feed shows a caller class, a time, a NULL and a
whole command that no call of `log_activity` ever wrote. -/
theorem rewrites_beside_the_digest_pass :
    Function.Injective (sampleConfig.hashes.hmacSha256 [1]) ∧
    Unforged sampleConfig [1] (writtenRows sampleConfig .empty sampleCalls)
      rewrittenLog.activityLog ∧
    verifyActivityChain sampleConfig rewrittenLog = some ⟨true, 1, none, true, false, none⟩ ∧
    (∃ f ∈ getActivityLog rewrittenLog 200 0 none,
      ∀ w ∈ writtenRows sampleConfig .empty sampleCalls,
        w.feedRow.source ≠ f.source ∧ w.timestamp ≠ f.timestamp ∧ w.command ≠ f.command) ∧
    (∃ f ∈ getActivityLog rewrittenLog 200 0 none, f.command = some "rm -rf /" ∧
      ∀ w ∈ writtenRows sampleConfig .empty sampleCalls, w.command ≠ f.command) :=
  ⟨spell_injective '@', rewrittenLog_unforged, rewrittenLog_verdict,
    by decide +kernel, by decide +kernel⟩

end ActivityLog
