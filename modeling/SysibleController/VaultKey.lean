import SysibleController.PythonText
import SysibleController.Interleaving
import Mathlib.Data.List.Count

/-! The vault's key on first use (`secret_vault.py`), resolved by each process on its own: the
key file and the salt file come to be by an exclusive create and one write, and a process that
finds one reads it. Fernet and PBKDF2 are parameters. A process may die between any two steps,
and another starts without anything cached. -/
namespace VaultKey

open PythonText TransitionSystem Interleaving

abbrev Bytes := List UInt8

/-- `bytes.strip()` -/
def isSpace (b : UInt8) : Bool := b = 32 || (9 ≤ b && b ≤ 13)

def stripBytes (bs : Bytes) : Bytes :=
  ((bs.dropWhile isSpace).reverse.dropWhile isSpace).reverse

/-- Fernet and the key derivation. A token is read back under the key it was made with, and what
is derived, the base64 text of 32 bytes, is a Fernet key. -/
structure Crypto where
  valid : Bytes → Bool
  encrypt : Bytes → String → ℕ → String
  decrypt : Bytes → String → Option String
  derive : Bytes → Bytes → Bytes
  decrypt_encrypt : ∀ k x n, valid k = true → decrypt k (encrypt k x n) = some x
  derive_valid : ∀ passphrase salt, valid (derive passphrase salt) = true

/-- A key as `Fernet.generate_key` draws it: 44 characters, none of them white. -/
structure Generated (v : Crypto) (key : Bytes) : Prop where
  valid : v.valid key = true
  length : key.length = 44
  stripped : stripBytes key = key

/-- What a process is asked to do. -/
inductive Job where
  | encrypt (plaintext : String)
  | decrypt (stored : String)
  deriving DecidableEq

/-- `SYSIBLE_SECRET_KEY`, empty where it is not set, and `SYSIBLE_SECRET_REQUIRED`. -/
structure Config where
  secretKey : String
  strict : Bool

/-- What a step takes from outside. -/
structure Env (v : Crypto) where
  job : Job
  key : Bytes
  generated : Generated v key
  salt : Bytes
  saltLength : salt.length = 16
  nonce : ℕ

structure Files where
  key : Option Bytes
  salt : Option Bytes
  deriving DecidableEq

/-- How far a process has come: it waits for a call, or is in the middle of resolving its key for
one. At `ready`, `_fernet` has its answer. -/
inductive Phase where
  | idle
  | createKey (j : Job)
  | writeKey (j : Job) (key : Bytes)
  | openKey (j : Job)
  | readKey (j : Job)
  | createSalt (j : Job) (raw : Bytes)
  | writeSalt (j : Job) (raw salt : Bytes)
  | openSalt (j : Job) (raw : Bytes)
  | readSalt (j : Job) (raw : Bytes)
  | ready (j : Job) (key : Option Bytes)
  deriving DecidableEq

structure Process where
  pid : ℕ
  cachedKey : Option Bytes
  phase : Phase
  deriving DecidableEq

inductive Outcome where
  | silent
  | crashed
  | encrypted (plaintext stored : String)
  | decrypted (stored plaintext : String)
  | unavailable
  deriving DecidableEq

def keyPrefix : String := "v1:"

def isEncrypted (stored : String) : Bool := keyPrefix.toList.isPrefixOf stored.toList

def token (stored : String) : String := String.ofList (stored.toList.drop 3)

def fallbackSalt : Bytes := "sysible-secret-vault-kdf-v1".toUTF8.data.toList

def Config.raw (cfg : Config) : Bytes := (strip cfg.secretKey).toUTF8.data.toList

def Process.at (p : Process) (phase : Phase) : Process := { p with phase := phase }

variable (v : Crypto) (cfg : Config)

/-- `_coerce_to_fernet_key`, up to the salt. -/
def coerce (p : Process) (j : Job) (raw : Bytes) : Process :=
  if raw = [] then p.at (.ready j none)
  else if v.valid raw then p.at (.ready j (some raw))
  else p.at (.createSalt j raw)

/-- `_load_or_create_key`, up to the key file. -/
def loadOrCreateKey (p : Process) (j : Job) : Process :=
  match p.cachedKey with
  | some key => coerce v p j key
  | none =>
    if cfg.secretKey = "" then p.at (.createKey j)
    else coerce v { p with cachedKey := some cfg.raw } j cfg.raw

/-- The end of `encrypt` and `decrypt`, with the key that was resolved. -/
def finish (nonce : ℕ) : Job → Option Bytes → Outcome
  | .encrypt x, none => if cfg.strict then .unavailable else .encrypted x x
  | .encrypt x, some key => .encrypted x (keyPrefix ++ v.encrypt key x nonce)
  | .decrypt c, none => .decrypted c c
  | .decrypt c, some key => .decrypted c ((v.decrypt key (token c)).getD c)

/-- One step of a process that lives. -/
def vaultStep (env : Env v) (s : Files) (p : Process) : Files × Outcome × Process :=
  match p.phase with
  | .idle =>
    match env.job with
    | .encrypt x => (s, .silent, loadOrCreateKey v cfg p (.encrypt x))
    | .decrypt c =>
      if isEncrypted c then (s, .silent, loadOrCreateKey v cfg p (.decrypt c))
      else (s, .decrypted c c, p)
  | .createKey j =>
    match s.key with
    | none => ({ s with key := some [] }, .silent, p.at (.writeKey j env.key))
    | some _ => (s, .silent, p.at (.openKey j))
  | .writeKey j key =>
    ({ s with key := some key }, .silent, coerce v { p with cachedKey := some key } j key)
  | .openKey j => (s, .silent, p.at (.readKey j))
  | .readKey j =>
    let key := stripBytes ((s.key.getD []).take 4096)
    (s, .silent, coerce v { p with cachedKey := some key } j key)
  | .createSalt j raw =>
    match s.salt with
    | none => ({ s with salt := some [] }, .silent, p.at (.writeSalt j raw env.salt))
    | some _ => (s, .silent, p.at (.openSalt j raw))
  | .writeSalt j raw salt =>
    ({ s with salt := some salt }, .silent, p.at (.ready j (some (v.derive raw salt))))
  | .openSalt j raw => (s, .silent, p.at (.readSalt j raw))
  | .readSalt j raw =>
    let data := (s.salt.getD []).take 4096
    (s, .silent,
      p.at (.ready j (some (v.derive raw (if data = [] then fallbackSalt else data)))))
  | .ready j key => (s, finish v cfg env.nonce j key, p.at .idle)

/-- Processes start with an empty cache, and each of them may die at any time. -/
def vault : Program Files Process Outcome where
  entry p := p.cachedKey = none ∧ p.phase = .idle
  act s p e s' p' := (e = .crashed ∧ s' = s ∧ p' = none) ∨
    ∃ env : Env v, ∃ q, p' = some q ∧ vaultStep v cfg env s p = (s', e, q)

abbrev Log := List (Event Process Outcome)

/-- Neither file is there. -/
def noFiles : Files := ⟨none, none⟩

/-! ## The claim of one key -/

/-- A value that one process has encrypted is decrypted to what it was by any process that is
started later. -/
def ReadBack (log : Log) : Prop :=
  ∀ before after p q x c y, log = before ++ .act p (.encrypted x c) :: after →
    .act q (.decrypted c y) ∈ after → (∀ e ∈ before, ∀ r o, e = .act r o → r.pid ≠ q.pid) → y = x

/-- The process has come out of its resolution without a key. -/
def Process.Keyless (p : Process) : Prop := ∃ j, p.phase = .ready j none

def writesKey (p : Process) : Bool :=
  match p.phase with
  | .writeKey .. => true
  | _ => false

def writesSalt (p : Process) : Bool :=
  match p.phase with
  | .writeSalt .. => true
  | _ => false

/-- The key file is read with its content, and so is the salt file unless its creator has died
before the write. -/
def Filled (pool : Pool Files Process) : Event Process Outcome → Prop
  | .act ⟨_, _, .readKey _⟩ o => o = .crashed ∨ pool.shared.key ≠ some []
  | .act ⟨_, _, .readSalt ..⟩ o =>
    o = .crashed ∨ (pool.shared.salt = some [] → pool.threads.countP writesSalt = 0)
  | _ => True

/-! ## A file that is created exclusively and written once -/

/-- How many processes are between the create and the write of a file in this state. -/
def Sound : Option Bytes → ℕ → Prop
  | none, writers => writers = 0
  | some [], writers => writers ≤ 1
  | some (_ :: _), writers => writers = 0

theorem Sound.create {n : ℕ} (h : Sound none n) : Sound (some []) (n + 1) := by
  obtain rfl : n = 0 := h
  exact le_refl 1

theorem Sound.of_writer {file : Option Bytes} {n : ℕ} (h : Sound file (n + 1)) :
    file = some [] ∧ n = 0 := by
  match file with
  | none => cases h
  | some [] => exact ⟨rfl, by simpa [Sound] using h⟩
  | some (_ :: _) => cases h

theorem Sound.write {file : Option Bytes} {n : ℕ} (h : Sound file (n + 1)) (data : Bytes) :
    Sound (some data) n := by
  obtain ⟨-, rfl⟩ := h.of_writer
  cases data with
  | nil => exact Nat.zero_le 1
  | cons b bs => rfl

theorem Sound.die {file : Option Bytes} {n : ℕ} (h : Sound file (n + 1)) : Sound file n := by
  obtain ⟨rfl, rfl⟩ := h.of_writer
  exact Nat.zero_le 1

/-! ## What is settled about the key -/

/-- The files, and how many processes are about to write either. -/
structure View where
  files : Files
  keyWriters : ℕ
  saltWriters : ℕ

def saltOf (data : Bytes) : Bytes :=
  if data.take 4096 = [] then fallbackSalt else data.take 4096

/-- Every resolution from here on has this key for its result. -/
def Settled (w : View) (key : Bytes) : Prop :=
  if cfg.secretKey = "" then w.files.key = some key ∧ key ≠ []
  else if v.valid cfg.raw then key = cfg.raw
  else ∃ data, w.files.salt = some data ∧ (data = [] → w.saltWriters = 0) ∧
    key = v.derive cfg.raw (saltOf data)

/-- The files have kept what was settled. -/
structure Later (w w' : View) : Prop where
  key : ∀ k, k ≠ [] → w.files.key = some k → w'.files.key = some k
  keyThere : w.files.key ≠ none → w'.files.key ≠ none
  salt : ∀ d, w.files.salt = some d → (d = [] → w.saltWriters = 0) →
    w'.files.salt = some d ∧ (d = [] → w'.saltWriters = 0)
  saltThere : w.files.salt ≠ none → w'.files.salt ≠ none

/-- What holds of a process wherever it stands. -/
def AtPhase (w : View) : Phase → Prop
  | .idle => True
  | .createKey _ => cfg.secretKey = ""
  | .writeKey _ key => cfg.secretKey = "" ∧ Generated v key
  | .openKey _ | .readKey _ => cfg.secretKey = "" ∧ w.files.key ≠ none
  | .createSalt _ raw => cfg.secretKey ≠ "" ∧ raw = cfg.raw ∧ v.valid raw = false
  | .writeSalt _ raw salt =>
    (cfg.secretKey ≠ "" ∧ raw = cfg.raw ∧ v.valid raw = false) ∧ salt.length = 16
  | .openSalt _ raw | .readSalt _ raw =>
    (cfg.secretKey ≠ "" ∧ raw = cfg.raw ∧ v.valid raw = false) ∧ w.files.salt ≠ none
  | .ready _ key => ∃ k, key = some k ∧ Settled v cfg w k ∧ v.valid k = true

def Cached (w : View) (p : Process) : Prop :=
  ∀ k, p.cachedKey = some k → if cfg.secretKey = "" then Settled v cfg w k else k = cfg.raw

def Placed (w : View) (p : Process) : Prop := Cached v cfg w p ∧ AtPhase v cfg w p.phase

/-- The key is one that was drawn. -/
def Content (w : View) : Prop := ∀ k, w.files.key = some k → k ≠ [] → Generated v k

/-- The passphrase, if there is one, is more than white space. -/
def Config.Usable : Prop := cfg.secretKey = "" ∨ strip cfg.secretKey ≠ ""

variable {v cfg} {w w' : View} {p : Process} {k k' : Bytes}

theorem Settled.unique (h : Settled v cfg w k) (h' : Settled v cfg w k') : k = k' := by
  unfold Settled at h h'
  split_ifs at h h'
  · exact Option.some.inj (h.1.symm.trans h'.1)
  · rw [h, h']
  · obtain ⟨d, hd, -, rfl⟩ := h
    obtain ⟨d', hd', -, rfl⟩ := h'
    obtain rfl := Option.some.inj (hd.symm.trans hd')
    rfl

theorem Settled.later (h : Settled v cfg w k) (hl : Later w w') : Settled v cfg w' k := by
  unfold Settled at h ⊢
  split_ifs at h ⊢
  · exact ⟨hl.key k h.2 h.1, h.2⟩
  · exact h
  · obtain ⟨d, hd, hw, rfl⟩ := h
    obtain ⟨hd', hw'⟩ := hl.salt d hd hw
    exact ⟨d, hd', hw', rfl⟩

theorem AtPhase.later {phase : Phase} (h : AtPhase v cfg w phase) (hl : Later w w') :
    AtPhase v cfg w' phase := by
  cases phase with
  | openKey j => exact ⟨h.1, hl.keyThere h.2⟩
  | readKey j => exact ⟨h.1, hl.keyThere h.2⟩
  | openSalt j raw => exact ⟨h.1, hl.saltThere h.2⟩
  | readSalt j raw => exact ⟨h.1, hl.saltThere h.2⟩
  | ready j key =>
    obtain ⟨k, rfl, hk, hv⟩ := h
    exact ⟨k, rfl, hk.later hl, hv⟩
  | _ => exact h

theorem Placed.later (h : Placed v cfg w p) (hl : Later w w') : Placed v cfg w' p := by
  refine ⟨fun k hk => ?_, h.2.later hl⟩
  have := h.1 k hk
  split_ifs at this ⊢
  · exact this.later hl
  · exact this

theorem raw_ne_nil (hcfg : cfg.Usable) (h : cfg.secretKey ≠ "") : cfg.raw ≠ [] := by
  intro hraw
  refine hcfg.resolve_left h ?_
  have hsize : (strip cfg.secretKey).toUTF8.data.toList.length = 0 := by
    rw [Config.raw] at hraw
    rw [hraw]
    rfl
  have hbytes : (strip cfg.secretKey).utf8ByteSize = 0 := by simpa using hsize
  exact String.utf8ByteSize_eq_zero_iff.mp hbytes

/-! ## One step -/

theorem Later.refl (w : View) : Later w w :=
  ⟨fun _ _ h => h, id, fun _ hd hw => ⟨hd, hw⟩, id⟩

theorem Cached.later (h : Cached v cfg w p) (hl : Later w w') : Cached v cfg w' p := by
  intro k hk
  have := h k hk
  split_ifs at this ⊢
  · exact this.later hl
  · exact this

theorem writes_coerce (p : Process) (j : Job) (raw : Bytes) :
    writesKey (coerce v p j raw) = false ∧ writesSalt (coerce v p j raw) = false := by
  unfold coerce
  split_ifs <;> exact ⟨rfl, rfl⟩

theorem writes_load (p : Process) (j : Job) :
    writesKey (loadOrCreateKey v cfg p j) = false ∧
      writesSalt (loadOrCreateKey v cfg p j) = false := by
  unfold loadOrCreateKey
  split
  · exact writes_coerce p j _
  · split_ifs
    · exact ⟨rfl, rfl⟩
    · exact writes_coerce _ j _

/-- A key file's key is used as it is. -/
theorem coerce_local {j : Job} (hlocal : cfg.secretKey = "") (hp : Cached v cfg w p)
    (hk : Settled v cfg w k) (hgen : Generated v k) : Placed v cfg w (coerce v p j k) := by
  have hne : k ≠ [] := by
    rintro rfl
    exact absurd hgen.length (by simp)
  rw [coerce, if_neg hne, if_pos hgen.valid]
  exact ⟨hp, k, rfl, hk, hgen.valid⟩

/-- A passphrase is stretched, unless it is a Fernet key. -/
theorem coerce_passphrase {j : Job} (hcfg : cfg.Usable) (hset : cfg.secretKey ≠ "")
    (hp : Cached v cfg w p) : Placed v cfg w (coerce v p j cfg.raw) := by
  rw [coerce, if_neg (raw_ne_nil hcfg hset)]
  split_ifs with hvalid
  · exact ⟨hp, cfg.raw, rfl, by rw [Settled, if_neg hset, if_pos hvalid], hvalid⟩
  · exact ⟨hp, hset, rfl, by simpa using hvalid⟩

theorem load_placed {j : Job} (hcfg : cfg.Usable) (hc : Content v w) (hp : Cached v cfg w p) :
    Placed v cfg w (loadOrCreateKey v cfg p j) := by
  unfold loadOrCreateKey
  split
  · next k hk =>
    have hcached := hp k hk
    split_ifs at hcached with hlocal
    · have hkey := hcached
      rw [Settled, if_pos hlocal] at hkey
      exact coerce_local hlocal hp hcached (hc k hkey.1 hkey.2)
    · rw [hcached]
      exact coerce_passphrase hcfg hlocal hp
  · split_ifs with hlocal
    · exact ⟨hp, hlocal⟩
    · refine coerce_passphrase hcfg hlocal ?_
      intro k hk
      rw [if_neg hlocal]
      exact (Option.some.inj hk).symm

/-- The files and their writers, `bk` and `bs` of them besides the process. -/
def viewOf (s : Files) (bk bs : ℕ) (p : Process) : View :=
  ⟨s, bk + (writesKey p).toNat, bs + (writesSalt p).toNat⟩

theorem viewOf_coerce (s : Files) (bk bs : ℕ) (p : Process) (j : Job) (raw : Bytes) :
    viewOf s bk bs (coerce v p j raw) = ⟨s, bk, bs⟩ := by
  simp [viewOf, writes_coerce]

theorem viewOf_load (s : Files) (bk bs : ℕ) (p : Process) (j : Job) :
    viewOf s bk bs (loadOrCreateKey v cfg p j) = ⟨s, bk, bs⟩ := by
  simp [viewOf, writes_load]

structure Good (v : Crypto) (w : View) : Prop where
  key : Sound w.files.key w.keyWriters
  salt : Sound w.files.salt w.saltWriters
  content : Content v w

/-- What a step must keep: the files are in order and still say what they said, and the process
is in its place. -/
def Kept (v : Crypto) (cfg : Config) (w w' : View) (q : Process) : Prop :=
  Good v w' ∧ Later w w' ∧ Placed v cfg w' q

theorem Kept.same {q : Process} (hw : w' = w) (hg : Good v w) (hq : Placed v cfg w q) :
    Kept v cfg w w' q := by
  subst hw
  exact ⟨hg, .refl _, hq⟩

theorem generated_read (h : Generated v k) : stripBytes (k.take 4096) = k := by
  rw [List.take_of_length_le (by rw [h.length]; decide), h.stripped]

theorem saltOf_drawn {salt : Bytes} (h : salt.length = 16) : saltOf salt = salt ∧ salt ≠ [] := by
  have hne : salt ≠ [] := by
    rintro rfl
    exact absurd h (by simp)
  have htake : salt.take 4096 = salt := List.take_of_length_le (by rw [h]; decide)
  rw [saltOf, htake, if_neg hne]
  exact ⟨rfl, hne⟩

variable {env : Env v} {s : Files} {bk bs : ℕ} {pid : ℕ} {cache : Option Bytes} {j : Job}

theorem createKey_kept (hg : Good v (viewOf s bk bs ⟨pid, cache, .createKey j⟩))
    (hp : Placed v cfg (viewOf s bk bs ⟨pid, cache, .createKey j⟩) ⟨pid, cache, .createKey j⟩) :
    Kept v cfg (viewOf s bk bs ⟨pid, cache, .createKey j⟩)
      (viewOf (vaultStep v cfg env s ⟨pid, cache, .createKey j⟩).1 bk bs
        (vaultStep v cfg env s ⟨pid, cache, .createKey j⟩).2.2)
      (vaultStep v cfg env s ⟨pid, cache, .createKey j⟩).2.2 := by
  cases hkey : s.key with
  | none =>
    have hstep : vaultStep v cfg env s ⟨pid, cache, .createKey j⟩ =
        ({ s with key := some [] }, .silent, ⟨pid, cache, .writeKey j env.key⟩) := by
      simp [vaultStep, hkey, Process.at]
    rw [hstep]
    have hlater : Later (viewOf s bk bs ⟨pid, cache, .createKey j⟩)
        (viewOf { s with key := some [] } bk bs ⟨pid, cache, .writeKey j env.key⟩) := by
      refine ⟨fun k _ hk => ?_, fun _ => nofun, fun _ hd hw => ⟨hd, hw⟩, id⟩
      rw [viewOf, hkey] at hk
      cases hk
    refine ⟨⟨?_, hg.salt, ?_⟩, hlater, hp.1.later hlater, hp.2, env.generated⟩
    · have hsound := hg.key
      rw [viewOf, hkey] at hsound
      exact hsound.create
    · intro k hk hne
      exact absurd (Option.some.inj hk).symm hne
  | some data =>
    have hstep : vaultStep v cfg env s ⟨pid, cache, .createKey j⟩ =
        (s, .silent, ⟨pid, cache, .openKey j⟩) := by
      simp [vaultStep, hkey, Process.at]
    rw [hstep]
    exact .same rfl hg ⟨hp.1, hp.2, by simp [viewOf, hkey]⟩

theorem writeKey_kept {key : Bytes} (hg : Good v (viewOf s bk bs ⟨pid, cache, .writeKey j key⟩))
    (hp : Placed v cfg (viewOf s bk bs ⟨pid, cache, .writeKey j key⟩)
      ⟨pid, cache, .writeKey j key⟩) :
    Kept v cfg (viewOf s bk bs ⟨pid, cache, .writeKey j key⟩)
      (viewOf (vaultStep v cfg env s ⟨pid, cache, .writeKey j key⟩).1 bk bs
        (vaultStep v cfg env s ⟨pid, cache, .writeKey j key⟩).2.2)
      (vaultStep v cfg env s ⟨pid, cache, .writeKey j key⟩).2.2 := by
  obtain ⟨-, hlocal, hgen⟩ := hp
  obtain ⟨hempty, -⟩ := hg.key.of_writer
  have hstep : vaultStep v cfg env s ⟨pid, cache, .writeKey j key⟩ =
      ({ s with key := some key }, .silent, coerce v ⟨pid, some key, .writeKey j key⟩ j key) := rfl
  rw [hstep, viewOf_coerce]
  have hne : key ≠ [] := by
    rintro rfl
    exact absurd hgen.length (by simp)
  have hsettled : Settled v cfg ⟨{ s with key := some key }, bk, bs⟩ key := by
    rw [Settled, if_pos hlocal]
    exact ⟨rfl, hne⟩
  refine ⟨⟨hg.key.write key, hg.salt, ?_⟩, ?_, coerce_local hlocal ?_ hsettled hgen⟩
  · rintro k hk -
    obtain rfl := Option.some.inj hk
    exact hgen
  · refine ⟨fun k hne' hk => ?_, fun _ => nofun, fun _ hd hw => ⟨hd, hw⟩, id⟩
    exact absurd (Option.some.inj (hempty.symm.trans hk)).symm hne'
  · intro k hk
    obtain rfl := Option.some.inj hk
    rw [if_pos hlocal]
    exact hsettled

theorem readKey_kept (hg : Good v (viewOf s bk bs ⟨pid, cache, .readKey j⟩))
    (hp : Placed v cfg (viewOf s bk bs ⟨pid, cache, .readKey j⟩) ⟨pid, cache, .readKey j⟩)
    (hfilled : s.key ≠ some []) :
    Kept v cfg (viewOf s bk bs ⟨pid, cache, .readKey j⟩)
      (viewOf (vaultStep v cfg env s ⟨pid, cache, .readKey j⟩).1 bk bs
        (vaultStep v cfg env s ⟨pid, cache, .readKey j⟩).2.2)
      (vaultStep v cfg env s ⟨pid, cache, .readKey j⟩).2.2 := by
  obtain ⟨-, hlocal, hthere⟩ := hp
  obtain ⟨key, hkey⟩ := Option.ne_none_iff_exists'.mp hthere
  have hne : key ≠ [] := by
    rintro rfl
    exact hfilled hkey
  have hgen : Generated v key := hg.content key hkey hne
  have hdata : stripBytes ((s.key.getD []).take 4096) = key := by
    rw [show s.key = some key from hkey]
    exact generated_read hgen
  have hstep : vaultStep v cfg env s ⟨pid, cache, .readKey j⟩ =
      (s, .silent, coerce v ⟨pid, some key, .readKey j⟩ j key) := by
    simp only [vaultStep, hdata]
  rw [hstep]
  have hsettled : Settled v cfg (viewOf s bk bs ⟨pid, cache, .readKey j⟩) key := by
    rw [Settled, if_pos hlocal]
    exact ⟨hkey, hne⟩
  refine .same (viewOf_coerce ..) hg (coerce_local hlocal ?_ hsettled hgen)
  intro k hk
  obtain rfl := Option.some.inj hk
  rw [if_pos hlocal]
  exact hsettled

variable {raw : Bytes}

theorem createSalt_kept (hg : Good v (viewOf s bk bs ⟨pid, cache, .createSalt j raw⟩))
    (hp : Placed v cfg (viewOf s bk bs ⟨pid, cache, .createSalt j raw⟩)
      ⟨pid, cache, .createSalt j raw⟩) :
    Kept v cfg (viewOf s bk bs ⟨pid, cache, .createSalt j raw⟩)
      (viewOf (vaultStep v cfg env s ⟨pid, cache, .createSalt j raw⟩).1 bk bs
        (vaultStep v cfg env s ⟨pid, cache, .createSalt j raw⟩).2.2)
      (vaultStep v cfg env s ⟨pid, cache, .createSalt j raw⟩).2.2 := by
  cases hsalt : s.salt with
  | none =>
    have hstep : vaultStep v cfg env s ⟨pid, cache, .createSalt j raw⟩ =
        ({ s with salt := some [] }, .silent, ⟨pid, cache, .writeSalt j raw env.salt⟩) := by
      simp [vaultStep, hsalt, Process.at]
    rw [hstep]
    have hlater : Later (viewOf s bk bs ⟨pid, cache, .createSalt j raw⟩)
        (viewOf { s with salt := some [] } bk bs ⟨pid, cache, .writeSalt j raw env.salt⟩) := by
      refine ⟨fun _ _ hk => hk, id, fun d hd => ?_, fun _ => nofun⟩
      rw [viewOf, hsalt] at hd
      cases hd
    refine ⟨⟨hg.key, ?_, hg.content⟩, hlater, hp.1.later hlater, hp.2, env.saltLength⟩
    have hsound := hg.salt
    rw [viewOf, hsalt] at hsound
    exact hsound.create
  | some data =>
    have hstep : vaultStep v cfg env s ⟨pid, cache, .createSalt j raw⟩ =
        (s, .silent, ⟨pid, cache, .openSalt j raw⟩) := by
      simp [vaultStep, hsalt, Process.at]
    rw [hstep]
    exact .same rfl hg ⟨hp.1, hp.2, by simp [viewOf, hsalt]⟩

theorem settled_salt {data : Bytes} (hset : cfg.secretKey ≠ "") (hvalid : v.valid cfg.raw = false)
    (hsalt : w.files.salt = some data) (hwrite : data = [] → w.saltWriters = 0) :
    Settled v cfg w (v.derive cfg.raw (saltOf data)) := by
  rw [Settled, if_neg hset, if_neg (by simp [hvalid])]
  exact ⟨data, hsalt, hwrite, rfl⟩

theorem writeSalt_kept {salt : Bytes}
    (hg : Good v (viewOf s bk bs ⟨pid, cache, .writeSalt j raw salt⟩))
    (hp : Placed v cfg (viewOf s bk bs ⟨pid, cache, .writeSalt j raw salt⟩)
      ⟨pid, cache, .writeSalt j raw salt⟩) :
    Kept v cfg (viewOf s bk bs ⟨pid, cache, .writeSalt j raw salt⟩)
      (viewOf (vaultStep v cfg env s ⟨pid, cache, .writeSalt j raw salt⟩).1 bk bs
        (vaultStep v cfg env s ⟨pid, cache, .writeSalt j raw salt⟩).2.2)
      (vaultStep v cfg env s ⟨pid, cache, .writeSalt j raw salt⟩).2.2 := by
  obtain ⟨hcached, ⟨hset, hraw, hvalid⟩, hlength⟩ := hp
  obtain ⟨hempty, -⟩ := hg.salt.of_writer
  obtain ⟨hsame, hne⟩ := saltOf_drawn hlength
  have hlater : Later (viewOf s bk bs ⟨pid, cache, .writeSalt j raw salt⟩)
      ⟨{ s with salt := some salt }, bk, bs⟩ := by
    refine ⟨fun _ _ hk => hk, id, fun d hd hw => ?_, fun _ => nofun⟩
    have hd' : d = [] := (Option.some.inj (hempty.symm.trans hd)).symm
    exact absurd (hw hd') (Nat.succ_ne_zero bs)
  refine ⟨⟨hg.key, hg.salt.write salt, hg.content⟩, hlater, hcached.later hlater, _, rfl, ?_,
    v.derive_valid _ _⟩
  subst hraw
  have hsettled := @settled_salt v cfg ⟨{ s with salt := some salt }, bk, bs⟩ salt hset hvalid rfl
    fun h => absurd h hne
  rw [hsame] at hsettled
  exact hsettled

theorem readSalt_kept (hg : Good v (viewOf s bk bs ⟨pid, cache, .readSalt j raw⟩))
    (hp : Placed v cfg (viewOf s bk bs ⟨pid, cache, .readSalt j raw⟩) ⟨pid, cache, .readSalt j raw⟩)
    (hfilled : s.salt = some [] → bs = 0) :
    Kept v cfg (viewOf s bk bs ⟨pid, cache, .readSalt j raw⟩)
      (viewOf (vaultStep v cfg env s ⟨pid, cache, .readSalt j raw⟩).1 bk bs
        (vaultStep v cfg env s ⟨pid, cache, .readSalt j raw⟩).2.2)
      (vaultStep v cfg env s ⟨pid, cache, .readSalt j raw⟩).2.2 := by
  obtain ⟨hcached, ⟨hset, hraw, hvalid⟩, hthere⟩ := hp
  obtain ⟨data, hdata⟩ := Option.ne_none_iff_exists'.mp hthere
  have hstep : vaultStep v cfg env s ⟨pid, cache, .readSalt j raw⟩ =
      (s, .silent, ⟨pid, cache, .ready j (some (v.derive raw (saltOf data)))⟩) := by
    simp only [vaultStep, show s.salt = some data from hdata]
    rfl
  rw [hstep]
  subst hraw
  refine .same rfl hg ⟨hcached, _, rfl, settled_salt hset hvalid hdata ?_, v.derive_valid _ _⟩
  rintro rfl
  exact hfilled hdata

/-- A read that may be made. -/
def MayRead (s : Files) (bs : ℕ) : Phase → Prop
  | .readKey _ => s.key ≠ some []
  | .readSalt .. => s.salt = some [] → bs = 0
  | _ => True

theorem vaultStep_kept (hcfg : cfg.Usable) (hg : Good v (viewOf s bk bs p))
    (hp : Placed v cfg (viewOf s bk bs p) p) (hread : MayRead s bs p.phase) :
    Kept v cfg (viewOf s bk bs p)
      (viewOf (vaultStep v cfg env s p).1 bk bs (vaultStep v cfg env s p).2.2)
      (vaultStep v cfg env s p).2.2 := by
  obtain ⟨pid, cache, phase⟩ := p
  cases phase with
  | idle =>
    have hload := fun j => @load_placed v cfg _ _ j hcfg hg.content hp.1
    simp only [vaultStep]
    split
    · exact .same (viewOf_load ..) hg (hload _)
    · split_ifs
      · exact .same (viewOf_load ..) hg (hload _)
      · exact .same rfl hg hp
  | createKey j => exact createKey_kept hg hp
  | writeKey j key => exact writeKey_kept hg hp
  | openKey j => exact .same rfl hg hp
  | readKey j => exact readKey_kept hg hp hread
  | createSalt j raw => exact createSalt_kept hg hp
  | writeSalt j raw salt => exact writeSalt_kept hg hp
  | openSalt j raw => exact .same rfl hg hp
  | readSalt j raw => exact readSalt_kept hg hp hread
  | ready j key => exact .same rfl hg ⟨hp.1, trivial⟩

/-- What is shown of a call was made with the settled key. -/
def Shown (v : Crypto) (cfg : Config) (w : View) : Outcome → Prop
  | .encrypted x c => ∃ k n, Settled v cfg w k ∧ v.valid k = true ∧ c = keyPrefix ++ v.encrypt k x n
  | .decrypted c y => isEncrypted c = true →
    ∃ k, Settled v cfg w k ∧ y = (v.decrypt k (token c)).getD c
  | _ => True

theorem Shown.later {o : Outcome} (h : Shown v cfg w o) (hl : Later w w') : Shown v cfg w' o := by
  cases o with
  | encrypted x c =>
    obtain ⟨k, n, hk, hrest⟩ := h
    exact ⟨k, n, hk.later hl, hrest⟩
  | decrypted c y =>
    intro hc
    obtain ⟨k, hk, hy⟩ := h hc
    exact ⟨k, hk.later hl, hy⟩
  | _ => trivial

theorem vaultStep_shown (hp : Placed v cfg w p) : Shown v cfg w (vaultStep v cfg env s p).2.1 := by
  obtain ⟨pid, cache, phase⟩ := p
  cases phase with
  | idle =>
    simp only [vaultStep]
    split
    · trivial
    · split_ifs with hc
      · trivial
      · exact fun hc' => absurd hc' hc
  | createKey j =>
    simp only [vaultStep]
    split <;> trivial
  | createSalt j raw =>
    simp only [vaultStep]
    split <;> trivial
  | ready j key =>
    obtain ⟨-, k, rfl, hk, hvalid⟩ := hp
    cases j with
    | encrypt x => exact ⟨k, env.nonce, hk, hvalid, rfl⟩
    | decrypt c => exact fun _ => ⟨k, hk, rfl⟩
  | _ => trivial

/-! ## Every run -/

def poolView (pool : Pool Files Process) : View :=
  ⟨pool.shared, pool.threads.countP writesKey, pool.threads.countP writesSalt⟩

theorem poolView_split (s : Files) (pre post : List Process) (p : Process) :
    poolView ⟨s, pre ++ p :: post⟩ =
      viewOf s ((pre ++ post).countP writesKey) ((pre ++ post).countP writesSalt) p := by
  have hcount : ∀ f : Process → Bool, (pre ++ p :: post).countP f =
      (pre ++ post).countP f + (f p).toNat := by
    intro f
    cases hf : f p <;> simp [List.countP_append, hf] <;> omega
  rw [poolView, viewOf, hcount, hcount]

/-- One that dies leaves the files as they are. -/
theorem die_kept (hg : Good v (viewOf s bk bs p)) :
    Good v ⟨s, bk, bs⟩ ∧ Later (viewOf s bk bs p) ⟨s, bk, bs⟩ := by
  refine ⟨⟨?_, ?_, hg.content⟩, fun _ _ h => h, id, fun d hd hw => ⟨hd, fun hd' => ?_⟩, id⟩
  · have hkey := hg.key
    cases hf : writesKey p with
    | true =>
      simp only [viewOf, hf] at hkey
      exact hkey.die
    | false => simpa [viewOf, hf] using hkey
  · have hsalt := hg.salt
    cases hf : writesSalt p with
    | true =>
      simp only [viewOf, hf] at hsalt
      exact hsalt.die
    | false => simpa [viewOf, hf] using hsalt
  · exact Nat.eq_zero_of_add_eq_zero_right (hw hd')

structure Inv (v : Crypto) (cfg : Config) (log : Log) (pool : Pool Files Process) : Prop where
  good : Good v (poolView pool)
  placed : ∀ p ∈ pool.threads, Placed v cfg (poolView pool) p
  shown : ∀ p o, .act p o ∈ log → Shown v cfg (poolView pool) o

variable {log : Log} {pool q : Pool Files Process} {e : Event Process Outcome}

theorem mayRead_of_filled {pre post : List Process} {o : Outcome}
    (h : Filled ⟨s, pre ++ p :: post⟩ (.act p o)) (ho : o ≠ .crashed) :
    MayRead s ((pre ++ post).countP writesSalt) p.phase := by
  obtain ⟨pid, cache, phase⟩ := p
  cases phase with
  | readKey j => exact h.resolve_left ho
  | readSalt j raw =>
    intro hempty
    simpa [List.countP_append, List.countP_cons, writesSalt] using h.resolve_left ho hempty
  | _ => trivial

theorem vaultStep_not_crashed : (vaultStep v cfg env s p).2.1 ≠ .crashed := by
  obtain ⟨pid, cache, phase⟩ := p
  cases phase with
  | idle =>
    simp only [vaultStep]
    split
    · nofun
    · split_ifs <;> nofun
  | createKey j =>
    simp only [vaultStep]
    split <;> nofun
  | createSalt j raw =>
    simp only [vaultStep]
    split <;> nofun
  | ready j key =>
    cases j <;> cases key <;> simp only [vaultStep, finish]
    · split_ifs <;> nofun
    all_goals nofun
  | _ => nofun

theorem inv_step (hcfg : cfg.Usable) (h : Inv v cfg log pool) (hfilled : Filled pool e)
    (st : Steps (vault v cfg) pool e q) : Inv v cfg (log ++ [e]) q := by
  cases st with
  | @call s ts p hentry =>
    obtain ⟨hcache, hidle⟩ := hentry
    have hview : poolView ⟨s, p :: ts⟩ = poolView ⟨s, ts⟩ := by
      simp [poolView, writesKey, writesSalt, hidle]
    refine ⟨hview ▸ h.good, ?_, ?_⟩
    · intro x hx
      rw [hview]
      rcases List.mem_cons.mp hx with rfl | hx
      · refine ⟨fun k hk => ?_, by rw [hidle]; trivial⟩
        rw [hcache] at hk
        cases hk
      · exact h.placed x hx
    · intro x o hmem
      rw [hview]
      exact h.shown x o (by simpa using hmem)
  | @act s s' pre post p p' o hact =>
    have hgood := h.good
    have hplaced := h.placed
    have hshown := h.shown
    rw [poolView_split] at hgood hplaced hshown
    rcases hact with ⟨rfl, rfl, rfl⟩ | ⟨env, r, rfl, hstep⟩
    · obtain ⟨hgood', hlater⟩ := die_kept hgood
      have hview : poolView ⟨s', pre ++ (none : Option Process).toList ++ post⟩ =
          ⟨s', (pre ++ post).countP writesKey, (pre ++ post).countP writesSalt⟩ := by
        simp [poolView]
      refine ⟨hview ▸ hgood', ?_, ?_⟩
      · intro x hx
        rw [hview]
        refine (hplaced x ?_).later hlater
        rcases mem_moved p hx with hx | hx
        · cases hx
        · exact hx
      · intro x o hmem
        rw [hview]
        rcases List.mem_append.mp hmem with hmem | hmem
        · exact (hshown x o hmem).later hlater
        · obtain ⟨-, rfl⟩ : x = p ∧ o = .crashed := by simpa using hmem
          trivial
    · have ho : (vaultStep v cfg env s p).2.1 = o := by rw [hstep]
      have hread := mayRead_of_filled hfilled (ho ▸ vaultStep_not_crashed)
      have hown := hplaced p (by simp)
      obtain ⟨hgood', hlater, hnext⟩ := @vaultStep_kept v cfg p env s _ _ hcfg hgood hown hread
      rw [hstep] at hgood' hlater hnext
      have hview : poolView ⟨s', pre ++ (some r).toList ++ post⟩ =
          viewOf s' ((pre ++ post).countP writesKey) ((pre ++ post).countP writesSalt) r := by
        rw [← poolView_split]
        simp
      refine ⟨hview ▸ hgood', ?_, ?_⟩
      · intro x hx
        rw [hview]
        rcases mem_moved p hx with hx | hx
        · obtain rfl := Option.some.inj hx
          exact hnext
        · exact (hplaced x hx).later hlater
      · intro x o' hmem
        rw [hview]
        rcases List.mem_append.mp hmem with hmem | hmem
        · exact (hshown x o' hmem).later hlater
        · obtain ⟨-, rfl⟩ : x = p ∧ o' = o := by simpa using hmem
          rw [← ho]
          exact (vaultStep_shown hown).later hlater

theorem run_inv (hcfg : cfg.Usable)
    (h : (((vault v cfg).machine noFiles).restrict Filled).Run
      ((vault v cfg).machine noFiles).start log pool) : Inv v cfg log pool := by
  have hgood : Good v (poolView ((vault v cfg).machine noFiles).start) :=
    ⟨by exact rfl, by exact rfl, by intro k hk; cases hk⟩
  refine h.history (P := Inv v cfg) ⟨hgood, by simp [Program.machine], by simp⟩ ?_
  intro es p e q _ st hp
  exact inv_step hcfg hp st.1 st.2

theorem isEncrypted_token (text : String) :
    isEncrypted (keyPrefix ++ text) = true ∧ token (keyPrefix ++ text) = text := by
  have htext : (keyPrefix ++ text).toList = 'v' :: '1' :: ':' :: text.toList := by
    simp [keyPrefix]
  rw [isEncrypted, token, htext]
  simp [keyPrefix, List.isPrefixOf]

/-- A token that shows its key, and is only read under it. -/
def plainToken (key : Bytes) (plaintext : String) : String :=
  String.ofList (key.map (fun b => Char.ofNat b.toNat)) ++ plaintext

def readToken (key : Bytes) (text : String) : Option String :=
  if (key.map fun b => Char.ofNat b.toNat).isPrefixOf text.toList then
    some (String.ofList (text.toList.drop key.length))
  else none

theorem readToken_plainToken (key : Bytes) (x : String) :
    readToken key (plainToken key x) = some x := by
  have htext : (plainToken key x).toList = key.map (fun b => Char.ofNat b.toNat) ++ x.toList := by
    simp [plainToken]
  rw [readToken, htext, if_pos (by simp)]
  congr 1
  rw [List.drop_left' (by simp)]
  exact String.ofList_toList

/-- Keys begin with a zero byte here, and a derived one shows what it is derived from. -/
def openCrypto : Crypto where
  valid key := key.head? = some 0
  encrypt key x _ := plainToken key x
  decrypt := readToken
  derive passphrase salt := 0 :: (passphrase ++ salt)
  decrypt_encrypt key x _ _ := readToken_plainToken key x
  derive_valid _ _ := by simp

def drawnKey : Bytes := 0 :: List.replicate 43 65

theorem drawnKey_generated : Generated openCrypto drawnKey := ⟨by decide, by decide, by decide⟩

def envFor (job : Job) : Env openCrypto :=
  ⟨job, drawnKey, drawnKey_generated, List.replicate 16 7, by decide, 0⟩

def started (pid : ℕ) : Process := ⟨pid, none, .idle⟩

/-- One process uses the key it has drawn. -/
def firstUse : Log :=
  [.call (started 1), .act (started 1) .silent,
    .act ⟨1, none, .createKey (.encrypt "s3cret")⟩ .silent,
    .act ⟨1, none, .writeKey (.encrypt "s3cret") drawnKey⟩ .silent,
    .act ⟨1, some drawnKey, .ready (.encrypt "s3cret") (some drawnKey)⟩
      (.encrypted "s3cret" (keyPrefix ++ plainToken drawnKey "s3cret"))]

def passphrase : Config := ⟨"correct horse", true⟩

/-- What a process makes that has found an empty salt file. -/
def strayStored : String :=
  keyPrefix ++ plainToken (openCrypto.derive passphrase.raw fallbackSalt) "s3cret"

deriving instance DecidableEq for Interleaving.Event

/-- The first process has created the salt file; the second one reads it before it is written,
and the third one after. -/
def schedule : List (Choice Process (Env openCrypto)) :=
  let secret := envFor (.encrypt "s3cret")
  [.call (started 1), .act 0 (envFor (.encrypt "other")), .act 0 secret,
    .call (started 2), .act 0 secret, .act 0 secret, .act 0 secret, .act 0 secret, .act 0 secret,
    .act 1 secret,
    .call (started 3), .act 0 (envFor (.decrypt strayStored)), .act 0 secret, .act 0 secret,
    .act 0 secret, .act 0 secret]

def nextStep (env : Env openCrypto) (s : Files) (p : Process) : Files × Outcome × Option Process :=
  ((vaultStep openCrypto passphrase env s p).1, (vaultStep openCrypto passphrase env s p).2.1,
    some (vaultStep openCrypto passphrase env s p).2.2)

def played : Log × Pool Files Process := plays nextStep schedule ⟨noFiles, []⟩

theorem played_run : ((vault openCrypto passphrase).machine noFiles).Run
    ((vault openCrypto passphrase).machine noFiles).start played.1 played.2 := by
  have hact : ∀ env s p, (vault openCrypto passphrase).act s p (nextStep env s p).2.1
      (nextStep env s p).1 (nextStep env s p).2.2 := fun env s p => Or.inr ⟨env, _, rfl, rfl⟩
  refine plays_run hact ?_ ⟨noFiles, []⟩
  intro p hp
  have hstart : p ∈ [started 1, started 2, started 3] := by simpa [schedule] using hp
  simp only [List.mem_cons, List.not_mem_nil, or_false] at hstart
  rcases hstart with rfl | rfl | rfl <;> exact ⟨rfl, rfl⟩

end VaultKey
