import SysibleController.DecimalRounding
import SysibleController.HashChain
import SysibleController.LengthPrefix
import Mathlib.Data.List.Infix

/-! The tamper-evident activity log of the backend database: `log_activity`, the chain
high-water mark, `verify_activity_chain` and the feed `get_activity_log`.

A nullable TEXT column is an `Option String` and a REAL one an `Option ℚ`, the exact value
of the stored double. The two hash functions and the redaction of commands are arbitrary;
`none` stands for a raised exception. The `updated_at` of the mark is read by nothing. -/
namespace ActivityLog

open DecimalRounding

abbrev Bytes := List UInt8

/-- `hashlib.sha256(payload).hexdigest()` and `hmac.new(key, payload, sha256).hexdigest()`.
A hex digest is never the empty string. -/
structure Hashes where
  sha256 : Bytes → String
  hmacSha256 : Bytes → Bytes → String
  sha256_ne : ∀ payload, sha256 payload ≠ ""
  hmacSha256_ne : ∀ key payload, hmacSha256 key payload ≠ ""

structure Config where
  hashes : Hashes
  key : Option Bytes
  auditRequired : Bool
  maxRows : ℤ
  redact : String → String

/-- Python's `value or default` on a text that may be missing. -/
def orDefault (value : Option String) (default : String) : String :=
  match value with
  | none => default
  | some s => if s = "" then default else s

@[simp] theorem orDefault_empty (value : Option String) : orDefault value "" = value.getD "" := by
  cases value with
  | none => rfl
  | some s => by_cases h : s = "" <;> simp [orDefault, h]

theorem orDefault_some {s : String} (h : s ≠ "") (default : String) :
    orDefault (some s) default = s := by simp [orDefault, h]

section Payload

/-- `struct.pack(">I", n)`, which refuses what four bytes cannot hold. -/
def beUInt32 (n : ℕ) : Bytes :=
  [UInt8.ofNat (n / 2 ^ 24), UInt8.ofNat (n / 2 ^ 16), UInt8.ofNat (n / 2 ^ 8), UInt8.ofNat n]

theorem beUInt32_inj {m n : ℕ} (hm : m < 2 ^ 32) (hn : n < 2 ^ 32)
    (h : beUInt32 m = beUInt32 n) : m = n := by
  simp only [beUInt32, List.cons.injEq, and_true] at h
  obtain ⟨h1, h2, h3, h4⟩ := h
  have e1 := congrArg UInt8.toNat h1
  have e2 := congrArg UInt8.toNat h2
  have e3 := congrArg UInt8.toNat h3
  have e4 := congrArg UInt8.toNat h4
  simp only [UInt8.toNat_ofNat'] at e1 e2 e3 e4
  omega

/-- The encoded text of one field, short enough for its length prefix. -/
def Field := { b : Bytes // b.length < 2 ^ 32 }

def Field.ofText? (text : Option String) : Option Field :=
  let b := (orDefault text "").toUTF8.data.toList
  if h : b.length < 2 ^ 32 then some ⟨b, h⟩ else none

def Field.block (f : Field) : Bytes := beUInt32 f.1.length ++ f.1

/-- Every field is preceded by its length, so no value can pass for a field boundary. -/
def digestPayload (fields : List (Option String)) : Option Bytes :=
  (fields.mapM Field.ofText?).map fun bs => bs.flatMap Field.block

theorem Field.block_prefixFree : LengthPrefix.PrefixFree Field.block :=
  LengthPrefix.prefixFree_of_header (fun f => beUInt32 f.1.length) (fun f => f.1) 4
    (fun _ => rfl) (fun _ => rfl) fun a b h => beUInt32_inj a.2 b.2 h

theorem Field.block_inj {a b : Field} (h : a.block = b.block) : a = b := by
  obtain ⟨hlen, hbody⟩ := List.append_inj h rfl
  exact Subtype.ext hbody

theorem Field.ofText?_inj {s t : Option String} {f : Field} (hs : Field.ofText? s = some f)
    (ht : Field.ofText? t = some f) : s.getD "" = t.getD "" := by
  have key : ∀ u, Field.ofText? u = some f → (u.getD "").toUTF8.data.toList = f.1 := by
    intro u hu
    simp only [Field.ofText?, orDefault_empty] at hu
    split at hu
    · exact congrArg Subtype.val (Option.some.inj hu)
    · cases hu
  have h := (key s hs).trans (key t ht).symm
  exact String.toByteArray_inj.mp (ByteArray.ext (Array.ext' h))

theorem mapM_ofText?_inj : ∀ {xs ys : List (Option String)} {fs : List Field},
    xs.mapM Field.ofText? = some fs → ys.mapM Field.ofText? = some fs →
    xs.map (·.getD "") = ys.map (·.getD "")
  | [], [], _, _, _ => rfl
  | [], y :: ys, fs, hx, hy => by
    cases Option.some.inj hx
    simp [List.mapM_cons, Option.bind_eq_some_iff] at hy
  | x :: xs, [], fs, hx, hy => by
    cases Option.some.inj hy
    simp [List.mapM_cons, Option.bind_eq_some_iff] at hx
  | x :: xs, y :: ys, fs, hx, hy => by
    simp only [List.mapM_cons, Option.bind_eq_bind, Option.bind_eq_some_iff,
      Option.pure_def, Option.some.injEq] at hx hy
    obtain ⟨f, hf, fs', hfs, rfl⟩ := hx
    obtain ⟨g, hg, gs', hgs, heq⟩ := hy
    obtain ⟨rfl, rfl⟩ := List.cons_eq_cons.mp heq
    rw [List.map_cons, List.map_cons, Field.ofText?_inj hf hg, mapM_ofText?_inj hfs hgs]

/-- Equal payloads come from equally many fields that agree one by one, `None` read as the
empty text. -/
theorem digestPayload_inj {xs ys : List (Option String)} {p : Bytes}
    (hx : digestPayload xs = some p) (hy : digestPayload ys = some p) :
    xs.map (·.getD "") = ys.map (·.getD "") := by
  obtain ⟨fs, hfs, rfl⟩ := Option.map_eq_some_iff.mp hx
  obtain ⟨gs, hgs, hp⟩ := Option.map_eq_some_iff.mp hy
  have hmap := LengthPrefix.flatMap_inj Field.block_prefixFree
    (fun f => by simp [Field.block, beUInt32]) gs fs hp
  have heq : gs = fs := List.map_injective_iff.mpr (fun _ _ => Field.block_inj) hmap
  exact mapM_ofText?_inj hfs (heq ▸ hgs)

end Payload

def genesis : String := "sysible-activity-genesis-v1"

def Config.keyed (cfg : Config) : Bool := cfg.key.any fun k => !k.isEmpty

def Config.algo (cfg : Config) : String := if cfg.keyed then "hmac-sha256" else "sha256"

/-- `_activity_digest`. The algorithm is part of the payload, and the key counts only for
the keyed one. -/
def activityDigest (cfg : Config) (prevHash : Option String) (timestamp : Option ℚ)
    (username host description command : Option String) (algo : String) : Option String :=
  (digestPayload [some algo, some (orDefault prevHash ""),
    some (toFixed 6 (timestamp.getD 0)), some (orDefault username ""),
    some (orDefault host ""), some (orDefault description ""),
    some (orDefault command "")]).map fun payload =>
      match cfg.key with
      | some k => if algo = "hmac-sha256" ∧ cfg.keyed then cfg.hashes.hmacSha256 k payload
          else cfg.hashes.sha256 payload
      | none => cfg.hashes.sha256 payload

theorem activityDigest_ne {cfg : Config} {prevHash : Option String} {timestamp : Option ℚ}
    {username host description command : Option String} {algo d : String}
    (h : activityDigest cfg prevHash timestamp username host description command algo = some d) :
    d ≠ "" := by
  obtain ⟨payload, _, rfl⟩ := Option.map_eq_some_iff.mp h
  split
  · split
    · exact cfg.hashes.hmacSha256_ne _ _
    · exact cfg.hashes.sha256_ne _
  · exact cfg.hashes.sha256_ne _

structure ActivityRow where
  id : ℤ
  timestamp : Option ℚ
  username : Option String
  host : Option String
  description : Option String
  command : Option String
  source : Option String
  prevHash : Option String
  entryHash : Option String
  hashAlgo : Option String
  deriving DecidableEq

structure ChainHead where
  lastId : ℤ
  lastEntryHash : String
  deriving DecidableEq

/-- `activity_log` in id order with its AUTOINCREMENT counter, and the row of
`audit_chain_head` for this chain. -/
structure Database where
  activityLog : List ActivityRow
  activitySeq : ℤ
  chainHead : Option ChainHead
  deriving DecidableEq

def Database.empty : Database := ⟨[], 0, none⟩

/-- The arguments of one `log_activity` call, with the time it reads. -/
structure Entry where
  ts : ℚ
  username : Option String
  host : Option String
  description : Option String
  command : Option String
  source : Option String
  deriving DecidableEq

/-- Chain to the most recent row, or to the genesis text for the first. -/
def Database.lastHash (db : Database) : String :=
  match db.activityLog.getLast? with
  | some r => orDefault r.entryHash genesis
  | none => genesis

/-- The first transaction of `log_activity`: SELECT, digest, INSERT. -/
def appendRow (cfg : Config) (db : Database) (e : Entry) : Option (Database × ActivityRow) :=
  let username := orDefault e.username "(unknown)"
  let host := orDefault e.host ""
  let description := orDefault e.description ""
  let command := cfg.redact (orDefault e.command "")
  let prev := db.lastHash
  (activityDigest cfg (some prev) (some e.ts) (some username) (some host) (some description)
    (some command) cfg.algo).map fun entry =>
      let row : ActivityRow := ⟨db.activitySeq + 1, some e.ts, some username, some host,
        some description, some command, some (orDefault e.source "api"), some prev,
        some entry, some cfg.algo⟩
      ({ db with activityLog := db.activityLog ++ [row], activitySeq := db.activitySeq + 1 }, row)

/-- The retention trim: everything at or below the cutoff goes. -/
def trimRows (cfg : Config) (db : Database) (lastrowid : ℤ) : Database :=
  if cfg.maxRows > 0 then
    let cutoff := lastrowid - cfg.maxRows
    if cutoff > 0 then
      { db with activityLog := db.activityLog.filter fun r => cutoff < r.id }
    else db
  else db

/-- `_bump_chain_head`. A mark that is already further stays: the UPDATE matches nothing
and the INSERT that follows runs into the primary key. -/
def bumpChainHead (db : Database) (lastId : ℤ) (lastEntryHash : String) : Database :=
  match db.chainHead with
  | some head =>
    if head.lastId ≤ lastId then { db with chainHead := some ⟨lastId, lastEntryHash⟩ } else db
  | none => { db with chainHead := some ⟨lastId, lastEntryHash⟩ }

/-- A whole call with nothing in between. `stored` says whether the best-effort bump went
through; an exception before the INSERT leaves no trace. -/
def logActivity (cfg : Config) (db : Database) (e : Entry) (stored : Bool) : Option Database :=
  if !cfg.keyed && cfg.auditRequired then none
  else (appendRow cfg db e).map fun (db', row) =>
    let trimmed := trimRows cfg db' row.id
    if stored then bumpChainHead trimmed row.id (row.entryHash.getD "") else trimmed

def logAll (cfg : Config) (db : Database) (calls : List (Entry × Bool)) : Option Database :=
  calls.foldlM (fun db call => logActivity cfg db call.1 call.2) db

structure Verdict where
  ok : Bool
  checked : ℕ
  brokenAt : Option ℤ
  keyed : Bool
  truncated : Bool
  recordedHeadId : Option ℤ
  deriving DecidableEq

structure WalkState where
  checked : ℕ
  expectedPrev : Option String
  seenKeyed : Bool
  allKeyed : Bool
  deriving DecidableEq

def WalkState.start : WalkState := ⟨0, none, false, true⟩

def WalkState.brokenAt (w : WalkState) (r : ActivityRow) : Verdict :=
  ⟨false, w.checked, some r.id, false, false, none⟩

def ActivityRow.algo (r : ActivityRow) : String := orDefault r.hashAlgo "sha256"

def ActivityRow.digest (cfg : Config) (r : ActivityRow) : Option String :=
  activityDigest cfg r.prevHash r.timestamp r.username r.host r.description r.command r.algo

/-- The loop body of `verify_activity_chain`: the first break found, or the next state. -/
def checkRow (cfg : Config) (w : WalkState) (r : ActivityRow) : Option (Verdict ⊕ WalkState) :=
  if w.expectedPrev.any (r.prevHash.getD "" ≠ ·) then some (.inl (w.brokenAt r))
  else if r.algo = "hmac-sha256" ∧ ¬cfg.keyed then some (.inl (w.brokenAt r))
  else if r.algo ≠ "hmac-sha256" ∧ w.seenKeyed then some (.inl (w.brokenAt r))
  else (r.digest cfg).map fun recomputed =>
    if recomputed ≠ r.entryHash.getD "" then .inl (w.brokenAt r)
    else .inr ⟨w.checked + 1, r.entryHash, w.seenKeyed || r.algo = "hmac-sha256",
      w.allKeyed && r.algo = "hmac-sha256"⟩

def walk (cfg : Config) (w : WalkState) : List ActivityRow → Option (Verdict ⊕ WalkState)
  | [] => some (.inr w)
  | r :: rows =>
    match checkRow cfg w r with
    | some (.inr w') => walk cfg w' rows
    | stopped => stopped

def hashedRows (db : Database) : List ActivityRow :=
  db.activityLog.filter fun r => r.entryHash.isSome

def chainHeadLastId (db : Database) : Option ℤ := db.chainHead.map ChainHead.lastId

def lastId (rows : List ActivityRow) : ℤ := (rows.getLast?.map ActivityRow.id).getD 0

/-- The verdict from the two reads: the hashed rows, and later the high-water mark. -/
def verdict (cfg : Config) (rows : List ActivityRow) (headId : Option ℤ) : Option Verdict :=
  (walk cfg .start rows).map fun
    | .inl broken => broken
    | .inr w =>
      let result : Verdict := ⟨true, w.checked, none, w.checked ≠ 0 && w.allKeyed, false, none⟩
      match headId with
      | some h =>
        if lastId rows < h then
          { result with
            ok := false, truncated := true, brokenAt := some (lastId rows)
            recordedHeadId := some h }
        else result
      | none => result

def verifyActivityChain (cfg : Config) (db : Database) : Option Verdict :=
  verdict cfg (hashedRows db) (chainHeadLastId db)

structure FeedRow where
  id : ℤ
  timestamp : Option ℚ
  username : Option String
  host : Option String
  description : Option String
  command : Option String
  source : String
  deriving DecidableEq

def ActivityRow.feedRow (r : ActivityRow) : FeedRow :=
  ⟨r.id, r.timestamp, r.username, r.host, r.description, r.command, r.source.getD "api"⟩

/-- SQLite reads a negative LIMIT as none. -/
def sqlLimit {α : Type} (limit : ℤ) (rows : List α) : List α :=
  if limit < 0 then rows else rows.take limit.toNat

def sourceMatches (source : Option String) (r : ActivityRow) : Bool :=
  match source with
  | some s => if s = "user" ∨ s = "api" ∨ s = "automation" then r.source.getD "api" = s else true
  | none => true

/-- `get_activity_log`: the oldest unseen window above a cursor, or the newest rows; newest
first either way. -/
def getActivityLog (db : Database) (limit sinceId : ℤ) (source : Option String) :
    List FeedRow :=
  let rows := db.activityLog.filter (sourceMatches source)
  if sinceId > 0 then
    ((sqlLimit limit (rows.filter fun r => sinceId < r.id)).map ActivityRow.feedRow).reverse
  else (sqlLimit limit rows.reverse).map ActivityRow.feedRow

theorem sqlLimit_sublist {α : Type} (limit : ℤ) (rows : List α) :
    (sqlLimit limit rows).Sublist rows := by
  unfold sqlLimit
  split
  · exact .refl _
  · exact List.take_sublist _ _

/-- The feed shows rows of the table. -/
theorem mem_getActivityLog {db : Database} {limit sinceId : ℤ} {source : Option String}
    {f : FeedRow} (h : f ∈ getActivityLog db limit sinceId source) :
    ∃ r ∈ db.activityLog, r.feedRow = f := by
  simp only [getActivityLog] at h
  split at h
  · obtain ⟨r, hr, rfl⟩ := List.mem_map.mp (List.mem_reverse.mp h)
    exact ⟨r, List.mem_of_mem_filter
      (List.mem_of_mem_filter ((sqlLimit_sublist _ _).subset hr)), rfl⟩
  · obtain ⟨r, hr, rfl⟩ := List.mem_map.mp h
    exact ⟨r, List.mem_of_mem_filter
      (List.mem_reverse.mp ((sqlLimit_sublist _ _).subset hr)), rfl⟩

/-! ### Honest logs -/

/-- The chain as the verifier reads it. -/
def chain (cfg : Config) : HashChain.Scheme ActivityRow String where
  prev r := r.prevHash.getD ""
  entry r := r.entryHash.getD ""
  digest r := r.digest cfg

/-- A row as `log_activity` writes it: hashed, under the algorithm the key implies. -/
structure Honest (cfg : Config) (r : ActivityRow) : Prop where
  hashed : r.entryHash.isSome
  algo : r.hashAlgo = some cfg.algo
  genuine : (chain cfg).Genuine r

structure LogInvariant (cfg : Config) (db : Database) : Prop where
  honest : ∀ r ∈ db.activityLog, Honest cfg r
  linked : (chain cfg).Linked db.activityLog
  ascending : db.activityLog.Pairwise fun a b => a.id < b.id
  bounded : ∀ r ∈ db.activityLog, 0 < r.id ∧ r.id ≤ db.activitySeq
  mark : ∀ head ∈ db.chainHead, 0 < head.lastId ∧ head.lastId ≤ db.activitySeq
  seq : 0 ≤ db.activitySeq

theorem LogInvariant.sound {cfg : Config} {db : Database} (h : LogInvariant cfg db) :
    (chain cfg).Sound db.activityLog :=
  ⟨fun r hr => (h.honest r hr).genuine, h.linked⟩

theorem empty_invariant (cfg : Config) : LogInvariant cfg .empty := by
  constructor <;> simp [Database.empty, HashChain.Scheme.Linked]

theorem LogInvariant.hashedRows {cfg : Config} {db : Database} (h : LogInvariant cfg db) :
    hashedRows db = db.activityLog :=
  List.filter_eq_self.mpr fun r hr => (h.honest r hr).hashed

/-- Dropping rows at either end keeps a log honest; only the mark remembers them. -/
theorem LogInvariant.segment {cfg : Config} {db : Database} (h : LogInvariant cfg db)
    {rows : List ActivityRow} (hp : rows <:+: db.activityLog) :
    LogInvariant cfg { db with activityLog := rows } :=
  ⟨fun r hr => h.honest r (hp.subset hr), (h.sound.segment hp).linked,
    h.ascending.sublist hp.sublist, fun r hr => h.bounded r (hp.subset hr), h.mark, h.seq⟩

theorem Honest.entry_ne {cfg : Config} {r : ActivityRow} (h : Honest cfg r) :
    r.entryHash.getD "" ≠ "" := activityDigest_ne h.genuine

/-- What the next row will name: the digest of the last one, if there is a last one. -/
theorem LogInvariant.lastHash {cfg : Config} {db : Database} (h : LogInvariant cfg db) :
    ∀ last ∈ db.activityLog.getLast?, db.lastHash = (chain cfg).entry last := by
  intro last hlast
  have hne := (h.honest last (List.mem_of_getLast? hlast)).entry_ne
  rw [Option.mem_def] at hlast
  simp only [Database.lastHash, hlast, chain]
  cases he : last.entryHash with
  | none => rw [he] at hne; exact absurd rfl hne
  | some d => rw [he] at hne; exact orDefault_some hne _

theorem algo_ne (cfg : Config) : cfg.algo ≠ "" := by
  unfold Config.algo; split <;> decide

structure Appended (cfg : Config) (db : Database) (e : Entry) (db' : Database)
    (row : ActivityRow) : Prop where
  log : db'.activityLog = db.activityLog ++ [row]
  seq : db'.activitySeq = db.activitySeq + 1
  head : db'.chainHead = db.chainHead
  id : row.id = db.activitySeq + 1
  honest : Honest cfg row
  link : row.prevHash.getD "" = db.lastHash

/-- Everything an INSERT of `log_activity` does. -/
theorem appendRow_cases {cfg : Config} {db : Database} {e : Entry} {db' : Database}
    {row : ActivityRow} (h : appendRow cfg db e = some (db', row)) :
    Appended cfg db e db' row := by
  obtain ⟨entry, hentry, heq⟩ := Option.map_eq_some_iff.mp h
  obtain ⟨rfl, rfl⟩ := Prod.mk.inj heq
  refine ⟨rfl, rfl, rfl, rfl, ⟨rfl, rfl, ?_⟩, rfl⟩
  simp only [HashChain.Scheme.Genuine, chain, ActivityRow.digest, ActivityRow.algo,
    orDefault_some (algo_ne cfg)]
  exact hentry

theorem append_invariant {cfg : Config} {db db' : Database} {e : Entry} {row : ActivityRow}
    (h : LogInvariant cfg db) (ha : Appended cfg db e db' row) : LogInvariant cfg db' := by
  have hsound := h.sound.snoc ha.honest.genuine fun last hlast => by
    rw [← h.lastHash last hlast]
    exact ha.link
  obtain ⟨log, seq, head⟩ := db'
  obtain ⟨rfl, rfl, rfl, hid, hhonest, -⟩ := ha
  constructor
  · intro r hr
    rcases List.mem_append.mp hr with hr | hr
    · exact h.honest r hr
    · exact List.mem_singleton.mp hr ▸ hhonest
  · exact hsound.linked
  · refine List.pairwise_append.mpr ⟨h.ascending, List.pairwise_singleton _ _, ?_⟩
    intro a ha b hb
    have := (h.bounded a ha).2
    rw [List.mem_singleton.mp hb, hid]
    omega
  · intro r hr
    have hseq := h.seq
    rcases List.mem_append.mp hr with hr | hr
    · have := h.bounded r hr
      dsimp only
      omega
    · rw [List.mem_singleton.mp hr, hid]
      dsimp only
      omega
  · intro hd hhd
    have := h.mark hd hhd
    dsimp only
    omega
  · have := h.seq
    dsimp only
    omega

theorem trim_invariant {cfg : Config} {db : Database} (h : LogInvariant cfg db)
    (lastrowid : ℤ) : LogInvariant cfg (trimRows cfg db lastrowid) := by
  unfold trimRows
  dsimp only
  split
  · split
    · exact h.segment (HashChain.filter_above_suffix ActivityRow.id _ h.ascending).isInfix
    · exact h
  · exact h

theorem bump_invariant {cfg : Config} {db : Database} (h : LogInvariant cfg db) {lastId : ℤ}
    (hid : 0 < lastId ∧ lastId ≤ db.activitySeq) (hash : String) :
    LogInvariant cfg (bumpChainHead db lastId hash) := by
  have hset : LogInvariant cfg { db with chainHead := some ⟨lastId, hash⟩ } :=
    ⟨h.honest, h.linked, h.ascending, h.bounded, by
      intro hd hhd; cases hhd; exact hid, h.seq⟩
  unfold bumpChainHead
  split
  · split
    · exact hset
    · exact h
  · exact hset

end ActivityLog
