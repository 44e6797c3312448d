import SysibleController.ActivityLogVerify

/-! The one-time chaining of an activity log from before the chain (`_backfill_audit_chains` and
`_seed_chain_head` in `backend/db.py`), and what the verifier makes of it. -/
namespace ActivityLog

/-- The row with its place in the chain filled in. -/
def chainRow (cfg : Config) (prev : String) (r : ActivityRow) : Option ActivityRow :=
  (activityDigest cfg (some prev) r.timestamp r.username r.host r.description r.command
    cfg.algo).map fun entry =>
      { r with prevHash := some prev, entryHash := some entry, hashAlgo := some cfg.algo }

/-- The loop in id order, with the digest of its last row. -/
def chainRows (cfg : Config) : String → List ActivityRow → Option (List ActivityRow × String)
  | prev, [] => some ([], prev)
  | prev, r :: rows =>
    (chainRow cfg prev r).bind fun r' =>
      (chainRows cfg (r'.entryHash.getD "") rows).map fun rest => (r' :: rest.1, rest.2)

/-- Unlike the bump of a write, the seed sets the mark back as well as forward. -/
def seedChainHead (db : Database) (lastId : ℤ) (lastEntryHash : String) : Database :=
  { db with chainHead := some ⟨lastId, lastEntryHash⟩ }

/-- The part of `_backfill_audit_chains` on `activity_log`; `stored` says whether the best-effort
seed went through. -/
def backfillActivity (cfg : Config) (db : Database) (stored : Bool) : Option Database :=
  if db.activityLog ≠ [] ∧ hashedRows db = [] then
    (chainRows cfg genesis db.activityLog).map fun r =>
      let chained := { db with activityLog := r.1 }
      if stored then seedChainHead chained (lastId r.1) r.2 else chained
  else some db

/-- What a row says, its place in the chain aside. -/
def ActivityRow.content (r : ActivityRow) : ActivityRow :=
  { r with prevHash := none, entryHash := none, hashAlgo := none }

/-- A table without a single digest. Nothing is asked of what its rows say or of the mark. -/
structure Unhashed (db : Database) : Prop where
  some_row : db.activityLog ≠ []
  none_hashed : hashedRows db = []
  ascending : db.activityLog.Pairwise fun a b => a.id < b.id
  bounded : ∀ r ∈ db.activityLog, 0 < r.id ∧ r.id ≤ db.activitySeq

variable {cfg : Config} {db db' : Database} {prev : String} {r r' : ActivityRow}
  {rows chained : List ActivityRow} {last : String}

theorem chainRow_cases (h : chainRow cfg prev r = some r') :
    Honest cfg r' ∧ r'.prevHash.getD "" = prev ∧ r'.content = r.content ∧ r'.id = r.id := by
  obtain ⟨entry, hentry, rfl⟩ := Option.map_eq_some_iff.mp h
  refine ⟨⟨rfl, rfl, ?_⟩, rfl, rfl, rfl⟩
  simp only [HashChain.Scheme.Genuine, chain, ActivityRow.digest, ActivityRow.algo,
    orDefault_some (algo_ne cfg)]
  exact hentry

/-- What the loop makes of the rows, whatever they say. -/
structure Chained (cfg : Config) (prev : String) (rows chained : List ActivityRow) : Prop where
  honest : ∀ r ∈ chained, Honest cfg r
  linked : (chain cfg).Linked chained
  first : ∀ r ∈ chained.head?, r.prevHash.getD "" = prev
  content : chained.map ActivityRow.content = rows.map ActivityRow.content
  ids : chained.map ActivityRow.id = rows.map ActivityRow.id

theorem chainRows_chained (h : chainRows cfg prev rows = some (chained, last)) :
    Chained cfg prev rows chained := by
  induction rows generalizing prev chained last with
  | nil =>
    obtain ⟨rfl, rfl⟩ := Prod.mk.inj (Option.some.inj h)
    constructor <;> simp [HashChain.Scheme.Linked]
  | cons r rows ih =>
    obtain ⟨r', hr', h⟩ := Option.bind_eq_some_iff.mp h
    obtain ⟨⟨rest, last'⟩, hrest, heq⟩ := Option.map_eq_some_iff.mp h
    obtain ⟨rfl, rfl⟩ := Prod.mk.inj heq
    obtain ⟨hhonest, hprev, hcontent, hid⟩ := chainRow_cases hr'
    have hih := ih hrest
    constructor
    · exact List.forall_mem_cons.mpr ⟨hhonest, hih.honest⟩
    · refine List.isChain_cons.mpr ⟨fun y hy => ?_, hih.linked⟩
      exact hih.first y hy
    · rintro x hx
      obtain rfl : r' = x := by simpa using hx
      exact hprev
    · simp [hcontent, hih.content]
    · simp [hid, hih.ids]

theorem lastId_of_ids (h : chained.map ActivityRow.id = rows.map ActivityRow.id) :
    lastId chained = lastId rows := by
  have hlast := congrArg List.getLast? h
  rw [List.getLast?_map, List.getLast?_map] at hlast
  rw [lastId, lastId, hlast]

/-- The log after a seeded backfill is one that `log_activity` might have written. -/
theorem backfill_invariant (h : Unhashed db) (hb : backfillActivity cfg db true = some db') :
    LogInvariant cfg db' ∧ (∀ head ∈ db'.chainHead, head.lastId ≤ lastId db'.activityLog) ∧
      db'.activityLog ≠ [] ∧
      db'.activityLog.map ActivityRow.content = db.activityLog.map ActivityRow.content := by
  rw [backfillActivity, if_pos ⟨h.some_row, h.none_hashed⟩] at hb
  obtain ⟨⟨chained, last⟩, hrows, rfl⟩ := Option.map_eq_some_iff.mp hb
  have hc := chainRows_chained hrows
  have hne : chained ≠ [] := fun hnil => h.some_row (by simpa [hnil] using hc.ids)
  have hmem : ∀ x ∈ chained, 0 < x.id ∧ x.id ≤ db.activitySeq := by
    intro x hx
    have : x.id ∈ db.activityLog.map ActivityRow.id :=
      hc.ids ▸ List.mem_map_of_mem hx
    obtain ⟨y, hy, hxy⟩ := List.mem_map.mp this
    exact hxy ▸ h.bounded y hy
  have hlast : 0 < lastId chained ∧ lastId chained ≤ db.activitySeq := by
    obtain ⟨front, x, rfl⟩ := List.eq_nil_or_concat chained |>.resolve_left hne
    rw [List.concat_eq_append] at hmem ⊢
    rw [lastId_append]
    exact hmem x (by simp)
  refine ⟨⟨hc.honest, hc.linked, ?_, hmem, ?_, ?_⟩, ?_, hne, hc.content⟩
  · have hpair : (chained.map ActivityRow.id).Pairwise (· < ·) :=
      hc.ids ▸ List.pairwise_map.mpr h.ascending
    exact List.pairwise_map.mp hpair
  · intro head hhead
    cases hhead
    exact hlast
  · exact Int.le_of_lt (Int.lt_of_lt_of_le hlast.1 hlast.2)
  · intro head hhead
    cases hhead
    exact le_refl _

/-- Chaining an unhashed table: the verifier then finds nothing wrong and, with a key, calls the
log keyed; the rows say what they said before; another run changes nothing under any key; and
every call of `log_activity` that follows keeps the log verifying. Nothing is asked of what the
rows say, so a table whose digests have all been cleared passes just the same, however it was
rewritten and wherever its mark stood. -/
theorem backfill_verifies (h : Unhashed db) (hb : backfillActivity cfg db true = some db') :
    (verifyActivityChain cfg db').map Verdict.ok = some true ∧
    (verifyActivityChain cfg db').map Verdict.keyed = some cfg.keyed ∧
    db'.activityLog.map ActivityRow.content = db.activityLog.map ActivityRow.content ∧
    (∀ cfg' stored, backfillActivity cfg' db' stored = some db') ∧
    ∀ calls db'', logAll cfg db' calls = some db'' →
      (verifyActivityChain cfg db'').map Verdict.ok = some true := by
  obtain ⟨hinv, hmark, hne, hcontent⟩ := backfill_invariant h hb
  have hok : (verifyActivityChain cfg db').map Verdict.ok = some true := by
    rw [verify_honest hinv]
    simpa using hmark
  refine ⟨hok, ?_, hcontent, fun cfg' stored => ?_, fun calls db'' hlog => ?_⟩
  · rw [verifyActivityChain, hinv.hashedRows, (verdict_honest hinv.honest hinv.linked _).2]
    have hfalse : db'.activityLog.isEmpty = false := by simpa using hne
    simp [hfalse]
  · rw [backfillActivity, if_neg]
    rw [hinv.hashedRows]
    exact fun hboth => hne hboth.2
  · by_cases hcalls : calls = []
    · subst hcalls
      cases hlog
      exact hok
    · exact verify_after_append hinv hlog hcalls

/-- A log of two calls with its newest row cut, the other one rewritten and its digest cleared,
below a mark that remembers both. -/
def clearedLog : Database :=
  { sampleLog with
    activityLog := (sampleLog.activityLog.take 1).map fun r =>
      { r.content with description := some "nothing to see" } }

def backfilledLog : Database := (backfillActivity sampleConfig clearedLog true).getD .empty

theorem clearedLog_unhashed : Unhashed clearedLog := by
  constructor <;> decide +kernel

theorem backfill_verifies_cleared :
    clearedLog.chainHead.map ChainHead.lastId = some 2 ∧
    (verifyActivityChain sampleConfig backfilledLog).map Verdict.ok = some true ∧
    (verifyActivityChain sampleConfig backfilledLog).map Verdict.keyed = some true := by
  have hb : backfillActivity sampleConfig clearedLog true = some backfilledLog := by
    decide +kernel
  obtain ⟨hok, hkeyed, -⟩ := backfill_verifies clearedLog_unhashed hb
  exact ⟨by decide +kernel, hok, hkeyed⟩

end ActivityLog
