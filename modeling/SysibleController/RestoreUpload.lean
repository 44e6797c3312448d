import SysibleController.AtomicSteps
import SysibleController.Base64
import SysibleController.RestorePoint
import Mathlib.Data.List.Flatten

/-! The upload of a restore point (`_rp_capture` in `host_agent/agent.py`): describe everything,
be told which contents the fleet has never seen, send those in batches, seal. The relay behind the
requests is any machine; it may also refuse a request or break off an exchange. -/
namespace RestorePoint

open AtomicSteps Prog PosixTree

structure Blob where
  sha256 : String
  contentB64 : List Char
  deriving DecidableEq

inductive Request where
  | «open» (label roots : String)
  | manifest (point : Option ℤ) (entries : List Entry)
  | blobs (point : Option ℤ) (blobs : List Blob)
  | seal (point : Option ℤ)
  deriving DecidableEq

structure Reply where
  statusCode : ℕ
  point : Option ℤ
  missing : List String
  stored : ℤ
  detail : String
  deriving DecidableEq

/-- `none` is an exchange that raises: no answer, or an answer that is no JSON. -/
abbrev Relay (σ : Type) := σ → Request → Option Reply × σ

abbrev Exchange := Request × Option Reply

structure World (σ : Type) where
  relay : σ
  sent : List Exchange

/-- A capture ends early with a text for the log or with an exception. -/
inductive Stop where
  | refused (why : String)
  | raised
  deriving DecidableEq

structure Limits where
  manifestChunk : ℤ
  blobBatchBytes : ℤ

variable {σ : Type} (relay : Relay σ)

def post (r : Request) : Prog (World σ) Stop Reply := fun w =>
  let a := relay w.relay r
  let w' : World σ := ⟨a.2, w.sent ++ [(r, a.1)]⟩
  match a.1 with
  | some reply => ⟨[w'], w', .ok reply⟩
  | none => ⟨[w'], w', .error .raised⟩

/-- A request that must be accepted. -/
def demand (r : Request) (why : ℕ → String) : Prog (World σ) Stop Reply := do
  let reply ← post relay r
  if 400 ≤ reply.statusCode then raise (.refused (why reply.statusCode)) else pure reply

/-- The slices `l[i:i + n]` for `i` in `range(0, len(l), n)`; a step of zero is refused and a
negative one leaves the range empty. -/
def chunks {α : Type} (n : ℤ) (l : List α) : Except Stop (List (List α)) :=
  if n = 0 then .error .raised
  else if n < 0 then .ok []
  else .ok ((List.range ((l.length + n.toNat - 1) / n.toNat)).map fun i =>
    (l.drop (i * n.toNat)).take n.toNat)

/-- `want.setdefault(sha, path)` on a dict in insertion order. -/
def setdefault (want : List (String × Path)) (sha : String) (path : Path) :
    List (String × Path) :=
  if sha ∈ want.map Prod.fst then want else want ++ [(sha, path)]

/-- The first path of every missing content. -/
def wanted (entries : List Entry) (missing : List String) : List (String × Path) :=
  entries.foldl (fun want e =>
    match e.payload with
    | .file _ sha => if sha ∈ missing then setdefault want sha e.path else want
    | _ => want) []

structure Upload where
  batch : List Blob
  size : ℕ
  sent : ℤ

def contentRefused (code : ℕ) : String := "content refused (HTTP " ++ toString code ++ ")"

def flush (point : Option ℤ) (u : Upload) : Prog (World σ) Stop Upload :=
  if u.batch = [] then pure u
  else do
    let reply ← demand relay (.blobs point u.batch) contentRefused
    pure ⟨[], 0, u.sent + reply.stored⟩

/-- A file is read when its turn comes; one that cannot be read is passed over. -/
def upload (limits : Limits) (read : Path → Option (List UInt8)) (point : Option ℤ) (u : Upload)
    (want : String × Path) : Prog (World σ) Stop Upload :=
  match read want.2 with
  | none => pure u
  | some body => do
    let enc := Base64.encode body
    let u ← if limits.blobBatchBytes < u.size + enc.length then flush relay point u else pure u
    pure ⟨u.batch ++ [⟨want.1, enc⟩], u.size + enc.length, u.sent⟩

def pointText (point : Option ℤ) : String :=
  match point with
  | some id => toString id
  | none => "None"

/-- The answers to the manifest, taken together. -/
def describe (point : Option ℤ) (parts : List (List Entry)) :
    Prog (World σ) Stop (List String) :=
  parts.foldlM (fun missing part => do
    let reply ← demand relay (.manifest point part) fun code =>
      "manifest refused (HTTP " ++ toString code ++ ")"
    pure (missing ++ reply.missing)) []

def sealPoint (point : Option ℤ) (count : ℕ) (sent : ℤ) : Prog (World σ) Stop String := do
  let reply ← post relay (.seal point)
  if 400 ≤ reply.statusCode then raise (.refused ("could not seal: " ++ reply.detail))
  else pure ("restore point #" ++ pointText point ++ ": " ++ toString count ++ " entries, " ++
    toString sent ++ " new file(s) uploaded")

def rpCapture (limits : Limits) (entries : List Entry) (read : Path → Option (List UInt8))
    (label roots : String) : Prog (World σ) Stop String :=
  if entries = [] then raise (.refused "nothing to capture")
  else do
    let opened ← demand relay (.open label roots) fun code =>
      "refused (HTTP " ++ toString code ++ ")"
    let parts ← query fun _ => chunks limits.manifestChunk entries
    let missing ← describe relay opened.point parts
    let u ← (wanted entries missing).foldlM (upload relay limits read opened.point) ⟨[], 0, 0⟩
    let u ← flush relay opened.point u
    sealPoint relay opened.point entries.length u.sent

/-! ### What the relay has been told -/

def described : Exchange → List Entry
  | (.manifest _ entries, _) => entries
  | _ => []

def answered : Exchange → List String
  | (.manifest _ _, some reply) => reply.missing
  | _ => []

def carried : Exchange → List Blob
  | (.blobs _ blobs, _) => blobs
  | _ => []

def total (blobs : List Blob) : ℕ := (blobs.map fun b => b.contentB64.length).sum

/-- The request is no seal, and it names the point that has been opened. -/
def Names (point : Option ℤ) : Exchange → Prop
  | (.open _ _, _) => True
  | (.manifest p _, _) => p = point
  | (.blobs p _, _) => p = point
  | (.seal _, _) => False

def Accepted (x : Exchange) : Prop := ∃ reply, x.2 = some reply ∧ reply.statusCode < 400

/-- A batch above the limit is a single content. -/
def Small (limits : Limits) (blobs : List Blob) : Prop :=
  total blobs ≤ limits.blobBatchBytes ∨ blobs.length ≤ 1

def blobOf (read : Path → Option (List UInt8)) (want : String × Path) : Option Blob :=
  (read want.2).map fun body => ⟨want.1, Base64.encode body⟩

/-- Exchanges after which a restore point may be sealed: all accepted, every entry described
once and in order, and each content that an answer has called missing sent once, from the first
path that has it, unless that could not be read. -/
structure Complete (entries : List Entry) (read : Path → Option (List UInt8))
    (point : Option ℤ) (log : List Exchange) : Prop where
  accepted : ∀ x ∈ log, Accepted x
  names : ∀ x ∈ log, Names point x
  described : log.flatMap described = entries
  carried : log.flatMap RestorePoint.carried =
    (wanted entries (log.flatMap answered)).filterMap (blobOf read)
  once : ((log.flatMap RestorePoint.carried).map Blob.sha256).Nodup
  needed : ∀ e ∈ entries, ∀ n c, e.payload = .file n c → c ∈ log.flatMap answered →
    ∃ q, (c, q) ∈ wanted entries (log.flatMap answered) ∧
      ∀ body, read q = some body →
        ⟨c, Base64.encode body⟩ ∈ log.flatMap RestorePoint.carried

variable {relay} {limits : Limits} {entries : List Entry} {read : Path → Option (List UInt8)}
  {w w' : World σ} {point : Option ℤ} {r : Request}

theorem sat_post (w : World σ) (r : Request) :
    Sat (post relay r) w (fun reply w' => w'.sent = w.sent ++ [(r, some reply)])
      fun _ w' => w'.sent = w.sent ++ [(r, none)] := by
  unfold Sat Prog.run post
  cases h : (relay w.relay r).1 <;> simp [h]

theorem sat_demand (w : World σ) (r : Request) (why : ℕ → String) :
    Sat (demand relay r why) w
      (fun reply w' => w'.sent = w.sent ++ [(r, some reply)] ∧ reply.statusCode < 400)
      fun _ w' => ∃ a, w'.sent = w.sent ++ [(r, a)] := by
  refine Sat.bind ((sat_post w r).mono (fun _ _ h => h) fun _ _ h => ⟨none, h⟩)
    fun reply w' h => ?_
  by_cases hs : 400 ≤ reply.statusCode
  · rw [if_pos hs, sat_raise]
    exact ⟨some reply, h⟩
  · rw [if_neg hs, sat_pure]
    exact ⟨h, not_le.mp hs⟩

theorem flatten_slices {α : Type} (l : List α) (n k : ℕ) :
    ((List.range k).map fun i => (l.drop (i * n)).take n).flatten = l.take (k * n) := by
  induction k with
  | zero => simp
  | succ k ih =>
    rw [List.range_succ, List.map_append, List.flatten_append, ih, Nat.succ_mul, List.take_add]
    simp

/-- The slices cover the list. -/
theorem chunks_flatten {α : Type} {n : ℤ} (hn : 0 < n) (l : List α) :
    ∃ parts, chunks n l = .ok parts ∧ parts.flatten = l := by
  refine ⟨_, by rw [chunks, if_neg (by omega), if_neg (by omega)], ?_⟩
  rw [flatten_slices]
  refine List.take_of_length_le ?_
  obtain ⟨m, rfl⟩ := Int.eq_ofNat_of_zero_le (Int.le_of_lt hn)
  have hm : 0 < m := by exact_mod_cast hn
  have := Nat.div_add_mod (l.length + m - 1) m
  have hmod := Nat.mod_lt (l.length + m - 1) hm
  rw [Int.toNat_natCast, Nat.mul_comm]
  omega

/-- Everything before the seal: no request of another kind, and no batch too large. -/
structure Sound (limits : Limits) (point : Option ℤ) (log : List Exchange) : Prop where
  accepted : ∀ x ∈ log, Accepted x
  names : ∀ x ∈ log, Names point x
  small : ∀ x ∈ log, Small limits (carried x)

theorem Sound.snoc {log : List Exchange} {reply : Reply} (h : Sound limits point log)
    (hok : reply.statusCode < 400) (hn : Names point (r, some reply))
    (hs : Small limits (carried (r, some reply))) :
    Sound limits point (log ++ [(r, some reply)]) := by
  constructor
  · intro x hx
    rcases List.mem_append.mp hx with hx | hx
    · exact h.accepted x hx
    · exact List.mem_singleton.mp hx ▸ ⟨reply, rfl, hok⟩
  · intro x hx
    rcases List.mem_append.mp hx with hx | hx
    · exact h.names x hx
    · exact List.mem_singleton.mp hx ▸ hn
  · intro x hx
    rcases List.mem_append.mp hx with hx | hx
    · exact h.small x hx
    · exact List.mem_singleton.mp hx ▸ hs

/-- Nothing has been sealed, and no batch was too large. -/
def Unsealed (limits : Limits) (log : List Exchange) : Prop :=
  ∀ x ∈ log, (∀ p, x.1 ≠ .seal p) ∧ Small limits (carried x)

theorem Names.not_seal {x : Exchange} (h : Names point x) (p : Option ℤ) : x.1 ≠ .seal p := by
  obtain ⟨r, a⟩ := x
  rintro rfl
  exact h

theorem Sound.unsealed {log : List Exchange} (h : Sound limits point log) {a : Option Reply}
    (hr : ∀ p, r ≠ .seal p) (hs : Small limits (carried (r, a))) :
    Unsealed limits (log ++ [(r, a)]) := by
  intro x hx
  rcases List.mem_append.mp hx with hx | hx
  · exact ⟨(h.names x hx).not_seal, h.small x hx⟩
  · exact List.mem_singleton.mp hx ▸ ⟨hr, hs⟩

theorem small_nil (limits : Limits) : Small limits [] := Or.inr (Nat.zero_le 1)

/-- Between two requests of the upload: what has been sent and what waits in the batch. -/
structure Uploading (limits : Limits) (entries : List Entry) (read : Path → Option (List UInt8))
    (point : Option ℤ) (missing : List String) (done : List (String × Path)) (u : Upload)
    (log : List Exchange) : Prop where
  sound : Sound limits point log
  described : log.flatMap RestorePoint.described = entries
  answered : log.flatMap RestorePoint.answered = missing
  carried : log.flatMap RestorePoint.carried ++ u.batch = done.filterMap (blobOf read)
  size : u.size = total u.batch
  small : Small limits u.batch

variable {missing : List String} {done : List (String × Path)} {u : Upload}

theorem sat_flush (h : Uploading limits entries read point missing done u w.sent) :
    Sat (flush relay point u) w
      (fun u' w' => u'.batch = [] ∧ Uploading limits entries read point missing done u' w'.sent)
      fun _ w' => Unsealed limits w'.sent := by
  unfold flush
  split_ifs with hb
  · exact (sat_pure u).mpr ⟨hb, h⟩
  · refine Sat.bind ((sat_demand w _ _).mono (fun _ _ hq => hq) ?_) fun reply w' hsent => ?_
    · rintro e w' ⟨a, ha⟩
      rw [ha]
      exact h.sound.unsealed (fun _ h => by cases h) h.small
    · rw [sat_pure]
      obtain ⟨hsent, hok⟩ := hsent
      rw [hsent]
      exact ⟨rfl, h.sound.snoc hok rfl h.small, by simp [h.described, RestorePoint.described],
        by simp [h.answered, RestorePoint.answered],
        by simpa [RestorePoint.carried] using h.carried, rfl, small_nil limits⟩

theorem Uploading.add (h : Uploading limits entries read point missing done u w.sent)
    {want : String × Path} {body : List UInt8} (hread : read want.2 = some body)
    (hfit : u.size + (Base64.encode body).length ≤ limits.blobBatchBytes ∨ u.batch = []) :
    Uploading limits entries read point missing (done ++ [want])
      ⟨u.batch ++ [⟨want.1, Base64.encode body⟩], u.size + (Base64.encode body).length, u.sent⟩
      w.sent := by
  refine ⟨h.sound, h.described, h.answered, ?_, by simp [h.size, total], ?_⟩
  · rw [List.filterMap_append, ← h.carried]
    simp [blobOf, hread]
  · rcases hfit with hfit | hnil
    · refine Or.inl ?_
      have hsize := h.size
      simp only [total, List.map_append, List.sum_append, List.map_cons, List.map_nil,
        List.sum_singleton] at hsize ⊢
      omega
    · exact Or.inr (by simp [hnil])

theorem sat_upload (h : Uploading limits entries read point missing done u w.sent)
    (want : String × Path) :
    Sat (upload relay limits read point u want) w
      (fun u' w' => Uploading limits entries read point missing (done ++ [want]) u' w'.sent)
      fun _ w' => Unsealed limits w'.sent := by
  unfold upload
  cases hread : read want.2 with
  | none =>
    refine (sat_pure u).mpr ⟨h.sound, h.described, h.answered, ?_, h.size, h.small⟩
    simpa [blobOf, hread] using h.carried
  | some body =>
    dsimp only
    split_ifs with hover
    · refine (sat_flush h).bind fun u' w' hu => ?_
      exact (sat_pure _).mpr (hu.2.add hread (Or.inr hu.1))
    · exact (sat_pure _).mpr (h.add hread (Or.inl (Int.not_lt.mp hover)))

/-! ### The first path of every missing content -/

theorem mem_setdefault {want : List (String × Path)} {sha c : String} {path q : Path} :
    (c, q) ∈ setdefault want sha path ↔
      (c, q) ∈ want ∨ (c = sha ∧ q = path ∧ sha ∉ want.map Prod.fst) := by
  unfold setdefault
  split_ifs with h
  · simp [h]
  · simp only [List.mem_append, List.mem_singleton, Prod.mk.injEq]
    tauto

theorem nodup_setdefault {want : List (String × Path)} (h : (want.map Prod.fst).Nodup)
    (sha : String) (path : Path) : ((setdefault want sha path).map Prod.fst).Nodup := by
  unfold setdefault
  split_ifs with hin
  · exact h
  · rw [List.map_append, List.nodup_append]
    refine ⟨h, by simp, fun a ha b hb => ?_⟩
    obtain rfl : b = sha := by simpa using hb
    rintro rfl
    exact hin ha

/-- Each missing content of a file entry is wanted, once, under the path of such an entry. -/
theorem wanted_spec (entries : List Entry) (missing : List String) :
    ((wanted entries missing).map Prod.fst).Nodup ∧
    (∀ c q, (c, q) ∈ wanted entries missing → c ∈ missing ∧
      ∃ e ∈ entries, e.path = q ∧ ∃ n, e.payload = .file n c) ∧
    ∀ e ∈ entries, ∀ n c, e.payload = .file n c → c ∈ missing →
      c ∈ (wanted entries missing).map Prod.fst := by
  induction entries using List.reverseRecOn with
  | nil => simp [wanted]
  | append_singleton es e ih =>
    obtain ⟨hnd, hfrom, hall⟩ := ih
    have hkeep : ∀ c q, (c, q) ∈ wanted es missing → c ∈ missing ∧
        ∃ e' ∈ es ++ [e], e'.path = q ∧ ∃ n, e'.payload = .file n c := by
      intro c q hc
      obtain ⟨hm, e', he', hp⟩ := hfrom c q hc
      exact ⟨hm, e', List.mem_append_left _ he', hp⟩
    have hstep : wanted (es ++ [e]) missing = match e.payload with
        | .file _ sha =>
          if sha ∈ missing then setdefault (wanted es missing) sha e.path else wanted es missing
        | _ => wanted es missing := by
      simp only [wanted, List.foldl_append, List.foldl_cons, List.foldl_nil]
    rw [hstep]
    cases hpay : e.payload with
    | dir =>
      refine ⟨hnd, hkeep, fun e' he' n c hc hm => ?_⟩
      rcases List.mem_append.mp he' with he' | he'
      · exact hall e' he' n c hc hm
      · simp [List.mem_singleton.mp he', hpay] at hc
    | link target =>
      refine ⟨hnd, hkeep, fun e' he' n c hc hm => ?_⟩
      rcases List.mem_append.mp he' with he' | he'
      · exact hall e' he' n c hc hm
      · simp [List.mem_singleton.mp he', hpay] at hc
    | file size sha =>
      dsimp only
      split_ifs with hmiss
      · refine ⟨nodup_setdefault hnd sha e.path, fun c q hc => ?_, fun e' he' n c hc hm => ?_⟩
        · rcases mem_setdefault.mp hc with hc | ⟨rfl, rfl, -⟩
          · exact hkeep c q hc
          · exact ⟨hmiss, e, by simp, rfl, size, hpay⟩
        · have hsub : c ∈ (wanted es missing).map Prod.fst ∨ c = sha := by
            rcases List.mem_append.mp he' with he' | he'
            · exact Or.inl (hall e' he' n c hc hm)
            · rw [List.mem_singleton.mp he', hpay] at hc
              exact Or.inr (Payload.file.inj hc).2.symm
          unfold setdefault
          split_ifs with hin
          · rcases hsub with h | rfl
            · exact h
            · exact hin
          · rcases hsub with h | rfl <;> simp_all
      · refine ⟨hnd, hkeep, fun e' he' n c hc hm => ?_⟩
        rcases List.mem_append.mp he' with he' | he'
        · exact hall e' he' n c hc hm
        · rw [List.mem_singleton.mp he', hpay] at hc
          exact absurd ((Payload.file.inj hc).2 ▸ hm) hmiss

theorem filterMap_blobOf_sublist (read : Path → Option (List UInt8))
    (want : List (String × Path)) :
    ((want.filterMap (blobOf read)).map Blob.sha256).Sublist (want.map Prod.fst) := by
  induction want with
  | nil => simp
  | cons x want ih =>
    cases hread : read x.2 with
    | none => simpa [blobOf, hread] using ih.cons x.1
    | some body => simpa [blobOf, hread] using ih.cons_cons x.1

theorem complete_of {log : List Exchange} (hs : Sound limits point log)
    (hd : log.flatMap described = entries)
    (hc : log.flatMap carried =
      (wanted entries (log.flatMap answered)).filterMap (blobOf read)) :
    Complete entries read point log := by
  obtain ⟨hnd, -, hall⟩ := wanted_spec entries (log.flatMap answered)
  refine ⟨hs.accepted, hs.names, hd, hc, ?_, fun e he n c hpay hm => ?_⟩
  · rw [hc]
    exact hnd.sublist (filterMap_blobOf_sublist read _)
  · obtain ⟨⟨c', q⟩, hq, rfl⟩ := List.mem_map.mp (hall e he n c hpay hm)
    refine ⟨q, hq, fun body hbody => ?_⟩
    rw [hc]
    exact List.mem_filterMap.mpr ⟨_, hq, by simp [blobOf, hbody]⟩

/-! ### A whole capture -/

/-- How a capture leaves the relay: nothing sealed, or the seal as the last request, after
exchanges that allow it. -/
def SealedComplete (limits : Limits) (entries : List Entry) (read : Path → Option (List UInt8))
    (log : List Exchange) : Prop :=
  (∀ x ∈ log, Small limits (carried x)) ∧
  ((∀ x ∈ log, ∀ p, x.1 ≠ .seal p) ∨
    ∃ before point a, log = before ++ [(.seal point, a)] ∧ Complete entries read point before)

theorem Unsealed.sealedComplete {log : List Exchange} (h : Unsealed limits log) :
    SealedComplete limits entries read log :=
  ⟨fun x hx => (h x hx).2, Or.inl fun x hx => (h x hx).1⟩

/-- Between two parts of the manifest. -/
structure Described (limits : Limits) (point : Option ℤ) (parts : List (List Entry))
    (missing : List String) (log : List Exchange) : Prop where
  sound : Sound limits point log
  described : log.flatMap RestorePoint.described = parts.flatten
  answered : log.flatMap RestorePoint.answered = missing
  carried : log.flatMap RestorePoint.carried = []

theorem sat_describe (h : Described limits point [] [] w.sent) (parts : List (List Entry)) :
    Sat (describe relay point parts) w
      (fun missing w' => Described limits point parts missing w'.sent)
      fun _ w' => Unsealed limits w'.sent := by
  refine Sat.foldlM (I := fun done _ missing w => Described limits point done missing w.sent)
    (fun done part todo missing w hd => ?_) parts [] [] w h
  refine Sat.bind ((sat_demand w _ _).mono (fun _ _ hq => hq) ?_) fun reply w' hsent => ?_
  · rintro e w' ⟨a, ha⟩
    rw [ha]
    exact hd.sound.unsealed (fun _ h => by cases h) (small_nil limits)
  · rw [sat_pure]
    obtain ⟨hsent, hok⟩ := hsent
    rw [hsent]
    exact ⟨hd.sound.snoc hok rfl (small_nil limits),
      by simp [hd.described, RestorePoint.described],
      by simp [hd.answered, RestorePoint.answered],
      by simp [hd.carried, RestorePoint.carried]⟩

theorem sat_sealPoint (h : Uploading limits entries read point missing
      (wanted entries missing) u w.sent) (hb : u.batch = []) (count : ℕ) (sent : ℤ) :
    Sat (sealPoint relay point count sent) w
      (fun _ w' => SealedComplete limits entries read w'.sent ∧
        ∃ before point reply, w'.sent = before ++ [(.seal point, some reply)] ∧
          reply.statusCode < 400)
      fun _ w' => SealedComplete limits entries read w'.sent := by
  have hcarried : w.sent.flatMap carried = (wanted entries missing).filterMap (blobOf read) := by
    simpa [hb] using h.carried
  have hend : ∀ a, SealedComplete limits entries read (w.sent ++ [(.seal point, a)]) := by
    refine fun a => ⟨fun x hx => ?_, Or.inr ⟨w.sent, point, a, rfl,
      complete_of h.sound h.described (by rw [hcarried, h.answered])⟩⟩
    rcases List.mem_append.mp hx with hx | hx
    · exact h.sound.small x hx
    · exact List.mem_singleton.mp hx ▸ small_nil limits
  refine Sat.bind ((sat_post w _).mono (fun _ _ hq => hq) fun e w' hw' => hw' ▸ hend none)
    fun reply w' hw' => ?_
  split_ifs with hs
  · exact (sat_raise _).mpr (hw' ▸ hend _)
  · exact (sat_pure _).mpr ⟨hw' ▸ hend _, w.sent, point, reply, hw', not_le.mp hs⟩

/-- A relay that calls every content of a part missing and accepts everything. -/
def eager : Relay Unit := fun s r =>
  let missing := match r with
    | .manifest _ part => part.filterMap fun e => match e.payload with
      | .file _ sha => some sha
      | _ => none
    | _ => []
  (some ⟨200, some 7, missing, 1, ""⟩, s)

/-- A directory with three files, two of them alike. -/
def copies : List Entry :=
  [⟨["etc"], 0o755, 0, 0, .dir⟩, ⟨["etc", "a"], 0o644, 0, 0, .file 2 "aa"⟩,
   ⟨["etc", "b"], 0o644, 0, 0, .file 2 "bb"⟩, ⟨["etc", "c"], 0o644, 0, 0, .file 2 "aa"⟩]

end RestorePoint
