import SysibleController.KeyedTable
import SysibleController.PythonText
import SysibleController.TransitionSystem
import Mathlib.Data.List.Sort
import Mathlib.Data.Rat.Defs
import Mathlib.Algebra.Order.Ring.Rat

/-! Enrollment of agent hosts: the `agents` and `enroll_tokens` tables, the statements of
`db.py` on them, and `enroll` cut at its database steps, so that the same code can be run in
one piece or with other requests between its steps. SHA-256 and the letters and digits of
Unicode are parameters, and the guards before the token check are an answer given from
outside. -/
namespace Enrollment

open KeyedTable PythonText

structure Agent where
  hostId : String
  hostname : Option String
  platform : Option String
  kernel : Option String
  status : String
  lastSeen : Option ℚ
  agentSecret : Option String
  ip : Option String
  environment : Option String
  revoked : Bool
  deriving DecidableEq, Repr

structure EnrollToken where
  token : String
  created : ℚ
  expires : ℚ
  used : Bool
  boundHostId : Option String
  lastUsed : Option ℚ
  reissue : Bool
  environment : Option String
  deriving DecidableEq, Repr

structure Database where
  agents : Table Agent.hostId
  enrollTokens : Table EnrollToken.token

structure Settings where
  requireRebindAuth : Bool
  liveHostGrace : ℚ
  reuseWindow : ℚ
  validDays : ℚ
  hostLimit : Option ℕ
  tokenAtRest : String → String
  isAlnum : Char → Bool

/-! ## Statements of `db.py` -/

/-- NULL comes first, as in SQLite. -/
def hostnameLE (a b : Agent) : Prop :=
  match a.hostname, b.hostname with
  | none, _ => True
  | some _, none => False
  | some x, some y => x ≤ y

instance : DecidableRel hostnameLE := fun a b => by
  unfold hostnameLE
  split <;> infer_instance

def listAgents (db : Database) : List Agent := db.agents.rows.insertionSort hostnameLE

def findAgent (db : Database) (hostId : String) : Option Agent := db.agents.find hostId

def agentExists (db : Database) (hostId : String) : Bool := (db.agents.find hostId).isSome

def isAgentRevoked (db : Database) (hostId : String) : Bool :=
  ((db.agents.find hostId).map Agent.revoked).getD false

def getAgentSecret (db : Database) (hostId : String) : Option String :=
  (db.agents.find hostId).bind Agent.agentSecret

/-- The upsert writes its own columns; `environment` keeps its value in an existing row. -/
def createOrUpdateAgent (cfg : Settings) (db : Database) (hostId : String)
    (hostname platform kernel : Option String) (status : String) (lastSeen : ℚ)
    (agentSecret : String) (ip : Option String) : Database :=
  { db with
    agents := db.agents.put
      ⟨hostId, hostname, platform, kernel, status, some lastSeen,
        some (if agentSecret = "" then agentSecret else cfg.tokenAtRest agentSecret), ip,
        (db.agents.find hostId).bind Agent.environment, false⟩ }

def upgradeAgentSecretHash (db : Database) (hostId hashed : String) : Database :=
  { db with
    agents := db.agents.update hostId ({ · with agentSecret := some hashed }) fun _ => rfl }

def setAgentEnvironment (db : Database) (hostId environment : String) : Database :=
  { db with
    agents := db.agents.update hostId ({ · with environment := some environment })
      fun _ => rfl }

def setRevoked (db : Database) (hostId : String) (revoked : Bool) : Database :=
  { db with agents := db.agents.update hostId ({ · with revoked := revoked }) fun _ => rfl }

def revokeAgent (db : Database) (hostId : String) : Database := setRevoked db hostId true

def unrevokeAgent (db : Database) (hostId : String) : Database := setRevoked db hostId false

def deleteAgent (db : Database) (hostId : String) : Database :=
  { db with agents := db.agents.deleteWhere fun a => a.hostId = hostId }

def isHashAtRest (value : String) : Bool :=
  value.length = 64 && value.toList.all fun c => "0123456789abcdef".toList.contains c

inductive SecretMatch where
  | refused
  | hashed
  | legacy
  deriving DecidableEq, Repr

/-- The comparisons of `agent_secret_matches`; a `legacy` match re-stores the hash. -/
def secretMatch (cfg : Settings) (stored : Option String) (presented : String) : SecretMatch :=
  if presented = "" then .refused
  else match stored with
    | none => .refused
    | some stored =>
      if stored = "" then .refused
      else if cfg.tokenAtRest presented = stored then .hashed
      else if !isHashAtRest stored && presented = stored then .legacy
      else .refused

def agentSecretMatches (cfg : Settings) (db : Database) (hostId presented : String) :
    Bool × Database :=
  match secretMatch cfg (getAgentSecret db hostId) presented with
  | .refused => (false, db)
  | .hashed => (true, db)
  | .legacy => (true, upgradeAgentSecretHash db hostId (cfg.tokenAtRest presented))

def findToken (cfg : Settings) (db : Database) (token : String) : Option EnrollToken :=
  db.enrollTokens.find (cfg.tokenAtRest token)

/-- A second row under the same hash is an IntegrityError, which leaves the table alone. -/
def insertToken (db : Database) (row : EnrollToken) : Database :=
  match db.enrollTokens.find row.token with
  | some _ => db
  | none => { db with enrollTokens := db.enrollTokens.put row }

def createEnrollToken (cfg : Settings) (db : Database) (token environment : String) (now : ℚ) :
    Database :=
  insertToken db ⟨cfg.tokenAtRest token, now, now + cfg.validDays * 24 * 60 * 60, false, none,
    none, false, some environment⟩

def createReissueToken (cfg : Settings) (db : Database) (token hostId : String) (now : ℚ) :
    Database :=
  insertToken db ⟨cfg.tokenAtRest token, now, now + cfg.validDays * 24 * 60 * 60, false,
    some hostId, none, true, some ""⟩

def enrollTokenAuthorizesRebind (cfg : Settings) (db : Database) (token hostId : String)
    (now : ℚ) : Bool :=
  if token = "" || hostId = "" then false
  else match findToken cfg db token with
    | none => false
    | some row =>
      if !row.reissue || row.used then false
      else if now > row.expires then false
      else row.boundHostId = some hostId

def validateEnrollToken (cfg : Settings) (db : Database) (token : String) (now : ℚ) : Bool :=
  match findToken cfg db token with
  | none => false
  | some row =>
    if now > row.expires then false
    else if !row.used then true
    else match row.boundHostId, row.lastUsed with
      | some _, some lastUsed => now - lastUsed ≤ cfg.reuseWindow
      | _, _ => false

def resolveEnrollTokenHost (cfg : Settings) (db : Database) (token requestedHostId : String) :
    String :=
  match (findToken cfg db token).bind EnrollToken.boundHostId with
  | none => requestedHostId
  | some bound => if bound = "" then requestedHostId else bound

def enrollTokenEnvironment (cfg : Settings) (db : Database) (token : String) : String :=
  ((findToken cfg db token).bind EnrollToken.environment).getD ""

def invalidateEnrollTokensForHost (db : Database) (hostId : String) : Database :=
  if hostId = "" then db
  else { db with
    enrollTokens := db.enrollTokens.deleteWhere fun row => row.boundHostId = some hostId }

def purgeUnconsumedEnrollTokens (db : Database) : Database :=
  { db with enrollTokens := db.enrollTokens.deleteWhere fun row => !row.used }

/-- The conditional UPDATE: `none` when it claims no row. -/
def consumeEnrollToken (cfg : Settings) (db : Database) (token hostId : String) (now : ℚ) :
    Option Database :=
  match findToken cfg db token with
  | none => none
  | some row =>
    if !row.used || row.boundHostId = some hostId then
      some { db with
        enrollTokens := db.enrollTokens.update (cfg.tokenAtRest token)
          ({ · with used := true, boundHostId := some hostId, lastUsed := some now })
          fun _ => rfl }
    else none

/-! ## The handler -/

structure EnrollRequest where
  token : String
  hostId : String
  hostname : Option String
  platform : Option String
  kernel : Option String
  ip : Option String
  prevAgentSecret : Option String
  deriving DecidableEq, Repr

def reservedHostIds : List String := ["*"]

def validHostId (cfg : Settings) (hostId : String) : Bool :=
  let hid := strip hostId
  hid = "" || (!reservedHostIds.contains hid &&
    hid.toList.all fun c => cfg.isAlnum c || "._-".toList.contains c)

def supersedable (cfg : Settings) (inHost ip excludeHostId : String) (now : ℚ) (a : Agent) :
    Bool :=
  let host := strip (a.hostname.getD "")
  a.hostId ≠ excludeHostId && a.ip.getD "" = ip &&
    !(inHost ≠ "" && host ≠ "" && host ≠ inHost) && !a.revoked &&
    !(now - a.lastSeen.getD 0 < cfg.liveHostGrace)

/-- Among the candidates, the one seen last; the sort is stable. -/
def findSupersedableAgent (cfg : Settings) (db : Database) (hostname ip : Option String)
    (excludeHostId : String) (now : ℚ) : Option Agent :=
  if ip.getD "" = "" then none
  else
    let inHost := strip (hostname.getD "")
    let candidates := (listAgents db).filter
      (supersedable cfg inHost (ip.getD "") excludeHostId now)
    (candidates.insertionSort fun a b => b.lastSeen.getD 0 ≤ a.lastSeen.getD 0).head?

def invalidHostId : HTTPException := ⟨400, "Invalid host_id."⟩
def invalidToken : HTTPException := ⟨403, "Invalid or expired token"⟩
def hostRevoked : HTTPException :=
  ⟨403, "This host was revoked by an administrator. A superuser can Restore it in place (POST /agents/\x7bhost_id\x7d/restore) if the agent is still installed; a reimaged host must be Force-Deleted and enrolled fresh."⟩
def liveAgent : HTTPException :=
  ⟨409, "A live agent is already enrolled for this host and is still online, so re-enrollment is blocked (this stops a token holder from hijacking a live host). Wait until it goes offline, or Force Delete its record first."⟩
def alreadyEnrolled : HTTPException :=
  ⟨403, "This host_id is already enrolled. Re-enrolling an existing host requires authorization — either the current agent credential, or an admin-issued reissue token for this host (console: host → Reissue enrollment). To replace it outright, Force Delete the record first, then enroll fresh."⟩
def justClaimed : HTTPException :=
  ⟨409, "This enrollment token was just claimed by another host. Generate a fresh token and try again."⟩
def hostLimitReached (limit count : ℕ) : HTTPException :=
  ⟨403, s!"Community edition is limited to {limit} managed hosts ({count} already enrolled). Remove a host first, or use the Enterprise edition to manage more."⟩

def hostIdentities (db : Database) : List String :=
  (db.agents.rows.map Agent.hostId).filter fun hostId => hostId ≠ ""

def enforceHostLimit (cfg : Settings) (db : Database) (candidateHostId : String) :
    Option HTTPException :=
  match cfg.hostLimit with
  | none => none
  | some limit =>
    let identities := hostIdentities db
    if identities.contains candidateHostId then none
    else if limit ≤ identities.length then some (hostLimitReached limit identities.length)
    else none

/-- What an `enroll` call takes from outside: the answer of the guards before the lock, the
clock, and the fresh secret. -/
structure Surroundings where
  gate : Option HTTPException
  now : ℚ
  agentSecret : String

/-- The point an `enroll` call has reached; each is followed by one database step. -/
inductive EnrollPhase where
  | waiting
  | locked
  | validated
  | resolved (hostId : String)
  | unknown (hostId : String)
  | proving (hostId : String) (existing : Agent)
  | upgrading (hostId : String)
  | unproven (hostId : String) (existing : Agent)
  | cleared (hostId : String) (fresh : Bool)
  | admitted (hostId : String) (fresh : Bool)
  | claimed (hostId : String) (fresh : Bool)
  | written (hostId : String) (fresh : Bool)
  | placing (hostId : String) (environment : String)
  | returned (result : Except HTTPException String)

/-- The guard on an existing row, up to its next read. -/
def guardExisting (req : EnrollRequest) (hostId : String) (existing : Agent) : EnrollPhase :=
  if existing.revoked then .returned (.error hostRevoked)
  else if req.prevAgentSecret.getD "" ≠ "" then .proving hostId existing
  else .unproven hostId existing

def enrollStep (cfg : Settings) (req : EnrollRequest) (env : Surroundings) (db : Database) :
    EnrollPhase → Database × EnrollPhase
  | .waiting =>
    if !validHostId cfg req.hostId then (db, .returned (.error invalidHostId))
    else match env.gate with
      | some refusal => (db, .returned (.error refusal))
      | none => (db, .locked)
  | .locked =>
    if validateEnrollToken cfg db req.token env.now then (db, .validated)
    else (db, .returned (.error invalidToken))
  | .validated => (db, .resolved (resolveEnrollTokenHost cfg db req.token req.hostId))
  | .resolved hostId =>
    match findAgent db hostId with
    | some existing => (db, guardExisting req hostId existing)
    | none => (db, .unknown hostId)
  | .unknown hostId =>
    match findSupersedableAgent cfg db req.hostname req.ip hostId env.now with
    | some dup => (db, guardExisting req dup.hostId dup)
    | none => (db, .cleared hostId true)
  | .proving hostId existing =>
    match secretMatch cfg (getAgentSecret db hostId) (req.prevAgentSecret.getD "") with
    | .refused => (db, .unproven hostId existing)
    | .hashed => (db, .cleared hostId false)
    | .legacy => (db, .upgrading hostId)
  | .upgrading hostId =>
    (upgradeAgentSecretHash db hostId (cfg.tokenAtRest (req.prevAgentSecret.getD "")),
      .cleared hostId false)
  | .unproven hostId existing =>
    if enrollTokenAuthorizesRebind cfg db req.token hostId env.now || !cfg.requireRebindAuth then
      (db, .cleared hostId false)
    else if env.now - existing.lastSeen.getD 0 < cfg.liveHostGrace then
      (db, .returned (.error liveAgent))
    else (db, .returned (.error alreadyEnrolled))
  | .cleared hostId fresh =>
    match enforceHostLimit cfg db hostId with
    | some refusal => (db, .returned (.error refusal))
    | none => (db, .admitted hostId fresh)
  | .admitted hostId fresh =>
    match consumeEnrollToken cfg db req.token hostId env.now with
    | some db' => (db', .claimed hostId fresh)
    | none => (db, .returned (.error justClaimed))
  | .claimed hostId fresh =>
    (createOrUpdateAgent cfg db hostId req.hostname req.platform req.kernel "online" env.now
      env.agentSecret req.ip, .written hostId fresh)
  | .written hostId fresh =>
    if fresh && enrollTokenEnvironment cfg db req.token ≠ "" then
      (db, .placing hostId (enrollTokenEnvironment cfg db req.token))
    else (db, .returned (.ok hostId))
  | .placing hostId environment =>
    (setAgentEnvironment db hostId environment, .returned (.ok hostId))
  | .returned result => (db, .returned result)

/-- How many steps a call has left at most. -/
def EnrollPhase.remaining : EnrollPhase → ℕ
  | .waiting => 12
  | .locked => 11
  | .validated => 10
  | .resolved _ => 9
  | .unknown _ => 8
  | .proving .. => 7
  | .upgrading _ => 6
  | .unproven .. => 6
  | .cleared .. => 5
  | .admitted .. => 4
  | .claimed .. => 3
  | .written .. => 2
  | .placing .. => 1
  | .returned _ => 0

theorem guardExisting_remaining (req : EnrollRequest) (hostId : String) (existing : Agent) :
    (guardExisting req hostId existing).remaining ≤ 7 := by
  unfold guardExisting
  split
  · simp [EnrollPhase.remaining]
  · split <;> simp [EnrollPhase.remaining]

theorem enrollStep_remaining (cfg : Settings) (req : EnrollRequest) (env : Surroundings)
    (db : Database) (phase : EnrollPhase) :
    (enrollStep cfg req env db phase).2.remaining ≤ phase.remaining - 1 := by
  cases phase with
  | resolved hostId =>
    simp only [enrollStep]
    split
    · exact (guardExisting_remaining req hostId _).trans (by simp [EnrollPhase.remaining])
    · simp [EnrollPhase.remaining]
  | unknown hostId =>
    simp only [enrollStep]
    split
    · exact guardExisting_remaining req _ _
    · simp [EnrollPhase.remaining]
  | validated => simp [enrollStep, EnrollPhase.remaining]
  | upgrading => simp [enrollStep, EnrollPhase.remaining]
  | claimed => simp [enrollStep, EnrollPhase.remaining]
  | placing => simp [enrollStep, EnrollPhase.remaining]
  | returned => simp [enrollStep, EnrollPhase.remaining]
  | waiting =>
    simp only [enrollStep]
    split
    · simp [EnrollPhase.remaining]
    · split <;> simp [EnrollPhase.remaining]
  | unproven =>
    simp only [enrollStep]
    split
    · simp [EnrollPhase.remaining]
    · split <;> simp [EnrollPhase.remaining]
  | locked | proving | cleared | admitted | written =>
    simp only [enrollStep]
    split <;> simp [EnrollPhase.remaining]

/-- The call in one piece: its steps with nothing between them. -/
def enroll (cfg : Settings) (req : EnrollRequest) (env : Surroundings) (db : Database) :
    Database × EnrollPhase :=
  (fun s => enrollStep cfg req env s.1 s.2)^[12] (db, .waiting)

theorem iterate_remaining (cfg : Settings) (req : EnrollRequest) (env : Surroundings) (n : ℕ)
    (s : Database × EnrollPhase) :
    ((fun s => enrollStep cfg req env s.1 s.2)^[n] s).2.remaining ≤ s.2.remaining - n := by
  induction n generalizing s with
  | zero => simp
  | succ n ih =>
    have := enrollStep_remaining cfg req env s.1 s.2
    have := ih (enrollStep cfg req env s.1 s.2)
    rw [Function.iterate_succ_apply]
    omega

/-- A call in one piece comes to its end. -/
theorem enroll_returns (cfg : Settings) (req : EnrollRequest) (env : Surroundings)
    (db : Database) : ∃ result, (enroll cfg req env db).2 = .returned result := by
  have h := iterate_remaining cfg req env 12 (db, .waiting)
  change (enroll cfg req env db).2.remaining ≤ 0 at h
  generalize (enroll cfg req env db).2 = phase at h
  cases phase <;> simp [EnrollPhase.remaining] at h ⊢

/-- What every step keeps holds at the end of a call. -/
theorem enroll_rule {cfg : Settings} {req : EnrollRequest} {env : Surroundings} {db : Database}
    {P : Database → EnrollPhase → Prop} (hstart : P db .waiting)
    (hstep : ∀ db phase, P db phase →
      P (enrollStep cfg req env db phase).1 (enrollStep cfg req env db phase).2) :
    P (enroll cfg req env db).1 (enroll cfg req env db).2 := by
  unfold enroll
  generalize 12 = n
  suffices ∀ s : Database × EnrollPhase, P s.1 s.2 →
      P ((fun s => enrollStep cfg req env s.1 s.2)^[n] s).1
        ((fun s => enrollStep cfg req env s.1 s.2)^[n] s).2 from this (db, .waiting) hstart
  induction n with
  | zero => exact fun s hs => hs
  | succ n ih =>
    intro s hs
    rw [Function.iterate_succ_apply]
    exact ih _ (hstep _ _ hs)

end Enrollment
