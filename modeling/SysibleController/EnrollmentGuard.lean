import SysibleController.Enrollment

/-! The requests that touch the enrollment tables, each in one piece, and the takeover guard:
who can replace the secret of a host that has a row. -/
namespace Enrollment

open KeyedTable PythonText TransitionSystem

def unknownHost : HTTPException := ⟨404, "Unknown host_id"⟩
def secretRevoked : HTTPException :=
  ⟨403, "Agent secret revoked — re-enroll this host to restore it."⟩
def invalidSecret : HTTPException := ⟨401, "Invalid agent secret"⟩

def verifyAgent (cfg : Settings) (db : Database) (hostId agentSecret : String) :
    Except HTTPException Unit × Database :=
  if !agentExists db hostId then (.error unknownHost, db)
  else if isAgentRevoked db hostId then (.error secretRevoked, db)
  else match agentSecretMatches cfg db hostId agentSecret with
    | (true, db') => (.ok (), db')
    | (false, db') => (.error invalidSecret, db')

inductive Operation where
  | enroll (req : EnrollRequest) (env : Surroundings)
  | generateToken (token environment : String) (now : ℚ)
  | reissueToken (hostId token : String) (now : ℚ)
  | purgeTokens
  | selfDisenroll (pathHostId hostId agentSecret : String)
  | removeAgent (hostId : String) (purgeToken : Bool)
  | revoke (hostId : String)
  | restore (hostId : String)

def reissueToken (cfg : Settings) (db : Database) (hostId token : String) (now : ℚ) : Database :=
  if strip hostId = "" then db
  else match findAgent db (strip hostId) with
    | none => db
    | some _ => createReissueToken cfg db token (strip hostId) now

def selfDisenroll (cfg : Settings) (db : Database) (pathHostId hostId agentSecret : String) :
    Database :=
  if pathHostId ≠ hostId then db
  else match verifyAgent cfg db hostId agentSecret with
    | (.ok (), db') => deleteAgent db' hostId
    | (.error _, db') => db'

def removeAgent (db : Database) (hostId : String) (purgeToken : Bool) : Database :=
  let deleted := deleteAgent db hostId
  if purgeToken then invalidateEnrollTokensForHost deleted hostId else deleted

def apply (cfg : Settings) (db : Database) : Operation → Database
  | .enroll req env => (Enrollment.enroll cfg req env db).1
  | .generateToken token environment now =>
    match enforceHostLimit cfg db "" with
    | some _ => db
    | none => createEnrollToken cfg db token environment now
  | .reissueToken hostId token now => reissueToken cfg db hostId token now
  | .purgeTokens => purgeUnconsumedEnrollTokens db
  | .selfDisenroll pathHostId hostId agentSecret =>
    selfDisenroll cfg db pathHostId hostId agentSecret
  | .removeAgent hostId purgeToken => removeAgent db hostId purgeToken
  | .revoke hostId => if agentExists db hostId then revokeAgent db hostId else db
  | .restore hostId => if agentExists db hostId then unrevokeAgent db hostId else db

def operations (cfg : Settings) (start : Database) : Machine Database Operation :=
  ⟨start, fun db op db' => db' = apply cfg db op⟩

/-! ## Proof of possession -/

/-- `presented` is the secret behind a stored value: what it is the hash of, or the value
itself in a row from before hashes were stored. -/
def CurrentSecret (cfg : Settings) (stored presented : String) : Prop :=
  cfg.tokenAtRest presented = stored ∨ (isHashAtRest stored = false ∧ presented = stored)

def PresentsSecret (cfg : Settings) (req : EnrollRequest) (a : Agent) : Prop :=
  ∃ presented ∈ req.prevAgentSecret, ∃ stored ∈ a.agentSecret, CurrentSecret cfg stored presented

def HoldsReissueToken (cfg : Settings) (db : Database) (token hostId : String) (now : ℚ) : Prop :=
  ∃ row, findToken cfg db token = some row ∧ row.used = false ∧ now ≤ row.expires ∧
    row.reissue = true ∧ row.boundHostId = some hostId

/-- The request may replace the secret of `a`. -/
structure MayRebind (cfg : Settings) (db : Database) (req : EnrollRequest) (now : ℚ)
    (hostId : String) (a : Agent) : Prop where
  unrevoked : a.revoked = false
  authorized : PresentsSecret cfg req a ∨ HoldsReissueToken cfg db req.token hostId now

theorem secretMatch_current {cfg : Settings} {stored : Option String} {presented : String}
    (h : secretMatch cfg stored presented ≠ .refused) :
    ∃ s ∈ stored, CurrentSecret cfg s presented := by
  unfold secretMatch at h
  split at h
  · exact absurd rfl h
  · split at h
    · exact absurd rfl h
    · rename_i s
      refine ⟨s, rfl, ?_⟩
      split at h
      · exact absurd rfl h
      · split at h
        · rename_i heq
          exact Or.inl heq
        · split at h
          · rename_i hlegacy
            simp only [Bool.and_eq_true, Bool.not_eq_true', decide_eq_true_eq] at hlegacy
            exact Or.inr hlegacy
          · exact absurd rfl h

theorem presents_of_match {cfg : Settings} {db : Database} {req : EnrollRequest}
    {hostId : String} {a : Agent} (ha : db.agents.find hostId = some a)
    (h : secretMatch cfg (getAgentSecret db hostId) (req.prevAgentSecret.getD "") ≠ .refused) :
    PresentsSecret cfg req a := by
  obtain ⟨s, hs, hcur⟩ := secretMatch_current h
  cases hp : req.prevAgentSecret with
  | none => simp [hp, secretMatch] at h
  | some presented =>
    refine ⟨presented, hp, s, ?_, by simpa [hp] using hcur⟩
    simpa [getAgentSecret, ha] using hs

theorem holds_of_authorizes {cfg : Settings} {db : Database} {token hostId : String} {now : ℚ}
    (h : enrollTokenAuthorizesRebind cfg db token hostId now = true) :
    HoldsReissueToken cfg db token hostId now := by
  unfold enrollTokenAuthorizesRebind at h
  split at h
  · cases h
  · split at h
    · cases h
    · rename_i row hrow
      split at h
      · cases h
      · rename_i hflags
        split at h
        · cases h
        · rename_i hexp
          simp only [Bool.or_eq_true, Bool.not_eq_true', not_or, Bool.not_eq_false,
            Bool.not_eq_true] at hflags
          exact ⟨row, hrow, hflags.2, not_lt.mp hexp, hflags.1, by simpa using h⟩

theorem supersedable_row {cfg : Settings} {db : Database} {hostname ip : Option String}
    {hostId : String} {now : ℚ} {dup : Agent}
    (h : findSupersedableAgent cfg db hostname ip hostId now = some dup) :
    db.agents.find dup.hostId = some dup ∧ dup.revoked = false ∧ dup.hostId ≠ hostId := by
  unfold findSupersedableAgent at h
  split at h
  · cases h
  · have hmem := List.mem_of_mem_head? h
    rw [List.mem_insertionSort, List.mem_filter, listAgents, List.mem_insertionSort] at hmem
    obtain ⟨hrow, hsup⟩ := hmem
    simp only [supersedable, Bool.and_eq_true, Bool.not_eq_true', decide_eq_true_eq] at hsup
    exact ⟨Table.find_eq_some.mpr ⟨hrow, rfl⟩, hsup.1.2, hsup.1.1.1.1⟩

/-! ## The guard, step by step -/

/-- Past the guard: only the row of `hostId` may differ from the start, and if it was there,
the request may replace its secret. -/
structure PastGuard (cfg : Settings) (start : Database) (req : EnrollRequest) (now : ℚ)
    (hostId : String) (db : Database) : Prop where
  others : ∀ j, j ≠ hostId → db.agents.find j = start.agents.find j
  allowed : ∀ a, start.agents.find hostId = some a → MayRebind cfg start req now hostId a

/-- What a call knows at each of its points about the tables it started from. -/
def GuardFacts (cfg : Settings) (start : Database) (req : EnrollRequest) (now : ℚ)
    (db : Database) : EnrollPhase → Prop
  | .waiting | .locked | .validated | .resolved _ => db = start
  | .unknown hostId => db = start ∧ start.agents.find hostId = none
  | .proving hostId existing | .unproven hostId existing =>
    db = start ∧ start.agents.find hostId = some existing ∧ existing.revoked = false
  | .upgrading hostId | .cleared hostId _ | .admitted hostId _ | .claimed hostId _
  | .written hostId _ | .placing hostId _ => PastGuard cfg start req now hostId db
  | .returned _ => db = start ∨ ∃ hostId, PastGuard cfg start req now hostId db

variable {cfg : Settings} {start db : Database} {req : EnrollRequest} {env : Surroundings}

theorem PastGuard.change {now : ℚ} {hostId : String} {db' : Database}
    (h : PastGuard cfg start req now hostId db)
    (hdb : ∀ j, j ≠ hostId → db'.agents.find j = db.agents.find j) :
    PastGuard cfg start req now hostId db' :=
  ⟨fun j hj => (hdb j hj).trans (h.others j hj), h.allowed⟩

theorem guardExisting_facts {now : ℚ} {hostId : String} {a : Agent}
    (ha : start.agents.find hostId = some a) :
    GuardFacts cfg start req now start (guardExisting req hostId a) := by
  unfold guardExisting
  split
  · exact Or.inl rfl
  · rename_i hrev
    split
    · exact ⟨rfl, ha, by simpa using hrev⟩
    · exact ⟨rfl, ha, by simpa using hrev⟩

theorem consume_agents {token hostId : String} {now : ℚ} {db' : Database}
    (h : consumeEnrollToken cfg db token hostId now = some db') : db'.agents = db.agents := by
  unfold consumeEnrollToken at h
  split at h
  · cases h
  · split at h
    · rw [← Option.some.inj h]
    · cases h

theorem enrollStep_guard (hauth : cfg.requireRebindAuth = true) (db : Database)
    (phase : EnrollPhase) (h : GuardFacts cfg start req env.now db phase) :
    GuardFacts cfg start req env.now (enrollStep cfg req env db phase).1
      (enrollStep cfg req env db phase).2 := by
  cases phase with
  | waiting =>
    obtain rfl : db = start := h
    simp only [enrollStep]
    split
    · exact Or.inl rfl
    · split
      · exact Or.inl rfl
      · rfl
  | locked =>
    obtain rfl : db = start := h
    simp only [enrollStep]
    split
    · rfl
    · exact Or.inl rfl
  | validated => exact h
  | resolved hostId =>
    obtain rfl : db = start := h
    simp only [enrollStep, findAgent]
    split
    · rename_i existing hfind
      exact guardExisting_facts hfind
    · rename_i hfind
      exact ⟨rfl, hfind⟩
  | unknown hostId =>
    obtain ⟨rfl, hnone⟩ := h
    simp only [enrollStep]
    split
    · rename_i dup hdup
      exact guardExisting_facts (supersedable_row hdup).1
    · exact ⟨fun _ _ => rfl, fun a ha => by simp [hnone] at ha⟩
  | proving hostId existing =>
    obtain ⟨rfl, hrow, hrev⟩ := h
    have hpast : secretMatch cfg (getAgentSecret db hostId) (req.prevAgentSecret.getD "") ≠
        .refused → PastGuard cfg db req env.now hostId db := by
      intro hmatch
      refine ⟨fun _ _ => rfl, fun a ha => ?_⟩
      obtain rfl : existing = a := Option.some.inj (hrow.symm.trans ha)
      exact ⟨hrev, Or.inl (presents_of_match hrow hmatch)⟩
    simp only [enrollStep]
    split
    · exact ⟨rfl, hrow, hrev⟩
    · rename_i hmatch
      exact hpast (by simp [hmatch])
    · rename_i hmatch
      exact hpast (by simp [hmatch])
  | upgrading hostId =>
    refine (show PastGuard cfg start req env.now hostId db from h).change ?_
    intro j hj
    simp [enrollStep, upgradeAgentSecretHash, hj]
  | unproven hostId existing =>
    obtain ⟨rfl, hrow, hrev⟩ := h
    simp only [enrollStep]
    split
    · rename_i hok
      simp only [hauth, Bool.not_true, Bool.or_false] at hok
      refine ⟨fun _ _ => rfl, fun a ha => ?_⟩
      obtain rfl : existing = a := Option.some.inj (hrow.symm.trans ha)
      exact ⟨hrev, Or.inr (holds_of_authorizes hok)⟩
    · split
      · exact Or.inl rfl
      · exact Or.inl rfl
  | cleared hostId fresh =>
    simp only [enrollStep]
    split
    · exact Or.inr ⟨hostId, h⟩
    · exact h
  | admitted hostId fresh =>
    simp only [enrollStep]
    split
    · rename_i db' hdb
      refine (show PastGuard cfg start req env.now hostId db from h).change ?_
      intro j _
      rw [consume_agents hdb]
    · exact Or.inr ⟨hostId, h⟩
  | claimed hostId fresh =>
    refine (show PastGuard cfg start req env.now hostId db from h).change ?_
    intro j hj
    simp [enrollStep, createOrUpdateAgent, hj]
  | written hostId fresh =>
    simp only [enrollStep]
    split
    · exact h
    · exact Or.inr ⟨hostId, h⟩
  | placing hostId environment =>
    refine Or.inr ⟨hostId, (show PastGuard cfg start req env.now hostId db from h).change ?_⟩
    intro j hj
    simp [enrollStep, setAgentEnvironment, hj]
  | returned result => exact h

/-- A row whose secret an `enroll` changed is one that the request may rebind. -/
theorem enroll_changed (hauth : cfg.requireRebindAuth = true) {hostId : String} {a a' : Agent}
    (ha : db.agents.find hostId = some a)
    (ha' : (enroll cfg req env db).1.agents.find hostId = some a')
    (hne : a.agentSecret ≠ a'.agentSecret) : MayRebind cfg db req env.now hostId a := by
  obtain ⟨result, hres⟩ := enroll_returns cfg req env db
  have h := @enroll_rule cfg req env db (GuardFacts cfg db req env.now) rfl
    (enrollStep_guard hauth)
  rw [hres] at h
  rcases h with h | ⟨target, h⟩
  · rw [h, ha] at ha'
    exact absurd (congrArg Agent.agentSecret (Option.some.inj ha')) hne
  · by_cases htarget : hostId = target
    · subst htarget
      exact h.allowed a ha
    · rw [h.others hostId htarget, ha] at ha'
      exact absurd (congrArg Agent.agentSecret (Option.some.inj ha')) hne

/-! ## The other requests -/

theorem insertToken_agents (db : Database) (row : EnrollToken) :
    (insertToken db row).agents = db.agents := by
  unfold insertToken
  split <;> rfl

/-- No other request gives an existing row another secret. -/
theorem apply_secret {op : Operation} {hostId : String} {a a' : Agent}
    (hop : ∀ req env, op ≠ .enroll req env) (ha : db.agents.find hostId = some a)
    (ha' : (apply cfg db op).agents.find hostId = some a') : a.agentSecret = a'.agentSecret := by
  have hsame : (apply cfg db op).agents = db.agents → a.agentSecret = a'.agentSecret := by
    intro h
    rw [h, ha] at ha'
    rw [Option.some.inj ha']
  have hdelete : ∀ (db' : Database) (host : String),
      (∀ j, j ≠ host → db'.agents.find j = db.agents.find j) →
      (deleteAgent db' host).agents.find hostId = some a' → a.agentSecret = a'.agentSecret := by
    intro db' host hothers hfind
    simp only [deleteAgent, Table.find_deleteWhere, Option.filter_eq_some_iff] at hfind
    obtain ⟨hfind, hhost⟩ := hfind
    rw [Table.key_of_find hfind] at hhost
    rw [hothers _ (by simpa using hhost), ha] at hfind
    rw [Option.some.inj hfind]
  have hflag : ∀ (host : String) (b : Bool),
      (setRevoked db host b).agents.find hostId = some a' → a.agentSecret = a'.agentSecret := by
    intro host b hfind
    simp only [setRevoked, Table.find_update, ha] at hfind
    split at hfind
    · simp only [Option.map_some, Option.some.injEq] at hfind
      rw [← hfind]
    · rw [Option.some.inj hfind]
  cases op with
  | enroll req env => exact absurd rfl (hop req env)
  | generateToken token environment now =>
    apply hsame
    simp only [apply]
    split
    · rfl
    · exact insertToken_agents _ _
  | reissueToken host token now =>
    apply hsame
    simp only [apply, reissueToken]
    split
    · rfl
    · split
      · rfl
      · exact insertToken_agents _ _
  | purgeTokens => exact hsame rfl
  | selfDisenroll path host secret =>
    simp only [apply, selfDisenroll] at ha'
    split at ha'
    · rw [ha] at ha'
      rw [Option.some.inj ha']
    · have hverify : ∀ r db', verifyAgent cfg db host secret = (r, db') →
          (∀ j, j ≠ host → db'.agents.find j = db.agents.find j) ∧
            (r ≠ .ok () → db' = db) := by
        intro r db' hv
        unfold verifyAgent agentSecretMatches at hv
        grind [upgradeAgentSecretHash, Table.find_update]
      split at ha'
      · rename_i db' hv
        exact hdelete db' host (hverify _ _ hv).1 ha'
      · rename_i e db' hv
        rw [(hverify _ _ hv).2 (by simp), ha] at ha'
        rw [Option.some.inj ha']
  | removeAgent host purge =>
    apply hdelete db host fun _ _ => rfl
    rw [← ha']
    simp only [apply, removeAgent, invalidateEnrollTokensForHost]
    split
    · split <;> rfl
    · rfl
  | revoke host =>
    simp only [apply] at ha'
    split at ha'
    · exact hflag host true ha'
    · exact hflag hostId a.revoked (by
        rw [ha] at ha'
        simp [setRevoked, ha, ← Option.some.inj ha'])
  | restore host =>
    simp only [apply] at ha'
    split at ha'
    · exact hflag host false ha'
    · exact hflag hostId a.revoked (by
        rw [ha] at ha'
        simp [setRevoked, ha, ← Option.some.inj ha'])

/-- The takeover guard, over every run of requests. -/
theorem secret_changes_only_by_rebind (hauth : cfg.requireRebindAuth = true)
    {ops : List Operation} {op : Operation} {db' : Database}
    (_ : (operations cfg start).Run start ops db) (hstep : (operations cfg start).step db op db')
    {hostId : String} {a a' : Agent} (ha : db.agents.find hostId = some a)
    (ha' : db'.agents.find hostId = some a') (hne : a.agentSecret ≠ a'.agentSecret) :
    ∃ req env, op = .enroll req env ∧ a.revoked = false ∧
      (PresentsSecret cfg req a ∨ HoldsReissueToken cfg db req.token hostId env.now) := by
  obtain rfl : db' = apply cfg db op := hstep
  by_cases hop : ∃ req env, op = .enroll req env
  · obtain ⟨req, env, rfl⟩ := hop
    have h := enroll_changed hauth ha ha' hne
    exact ⟨req, env, rfl, h.unrevoked, h.authorized⟩
  · push Not at hop
    exact absurd (apply_secret hop ha ha') hne

/-! A host that presents its secret takes it over. -/

def sampleSettings : Settings := ⟨true, 300, 86400, 30, none, ("#" ++ ·), Char.isAlphanum⟩

def sampleAgent (hostId : String) : Agent :=
  ⟨hostId, none, none, none, "online", some 0, some "#old", some "ip", none, false⟩

def sampleToken (token : String) (boundHostId : Option String) : EnrollToken :=
  ⟨token, 0, 1000, false, boundHostId, none, boundHostId.isSome, none⟩

def sampleDatabase : Database := ⟨Table.empty.put (sampleAgent "web"),
  Table.empty.put (sampleToken "#t" none)⟩

def sampleRequest (hostId : String) : EnrollRequest :=
  ⟨"t", hostId, none, none, none, some "ip", some "old"⟩

def sampleNow : Surroundings := ⟨none, 500, "new"⟩

theorem rebind_with_secret :
    ∃ req env, Operation.enroll (sampleRequest "web") sampleNow = .enroll req env ∧
      (sampleAgent "web").revoked = false ∧ (PresentsSecret sampleSettings req (sampleAgent "web") ∨
        HoldsReissueToken sampleSettings sampleDatabase req.token "web" env.now) :=
  @secret_changes_only_by_rebind sampleSettings sampleDatabase sampleDatabase rfl [] _ _ (.nil _)
    rfl "web" (sampleAgent "web")
    ⟨"web", none, none, none, "online", some 500, some "#new", some "ip", none, false⟩
    (by decide) (by decide) (by decide)

end Enrollment
