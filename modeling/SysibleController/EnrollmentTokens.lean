import SysibleController.EnrollmentGuard

/-! Which host an enrollment token stands for, over runs of clients' requests and of the
requests that take hosts away. No token is minted here. -/
namespace Enrollment

open KeyedTable PythonText TransitionSystem

/-- A request and, for an `enroll` that succeeded, the host it enrolled. -/
abbrev Served := Operation × Option String

def EnrollPhase.enrolled : EnrollPhase → Option String
  | .returned (.ok hostId) => some hostId
  | _ => none

def enrolledHost (cfg : Settings) (db : Database) : Operation → Option String
  | .enroll req env => (enroll cfg req env db).2.enrolled
  | _ => none

def ClientOperation : Operation → Prop
  | .generateToken .. | .reissueToken .. | .purgeTokens => False
  | _ => True

def clients (cfg : Settings) (start : Database) : Machine Database Served :=
  ⟨start, fun db served db' => ClientOperation served.1 ∧
    served.2 = enrolledHost cfg db served.1 ∧ db' = apply cfg db served.1⟩

def Enrolls (token hostId : String) (served : Served) : Prop :=
  ∃ req env, served = (.enroll req env, some hostId) ∧ req.token = token

/-- One token, one host: all its enrollments agree, and once the tokens of a host it has been
bound to are invalidated, it enrolls nothing more. -/
def TokenLaw (cfg : Settings) (M : Machine Database Served) : Prop :=
  (∀ log db token h₁ h₂, M.Run M.start log db → (∃ e ∈ log, Enrolls token h₁ e) →
    (∃ e ∈ log, Enrolls token h₂ e) → h₁ = h₂) ∧
  (∀ log₁ db₁ log₂ db₂ e db₃ log₃ db₄ token row hostId, M.Run M.start log₁ db₁ →
    findToken cfg db₁ token = some row → row.boundHostId = some hostId →
    M.Run db₁ log₂ db₂ → M.step db₂ e db₃ → e.1 = .removeAgent hostId true →
    M.Run db₃ log₃ db₄ → ∀ e' ∈ log₃, ∀ h, ¬ Enrolls token h e')

/-! ## What an `enroll` does to its token -/

/-- The row the request was sent on to: the one its token resolves to, or an offline
duplicate whose secret it knew (or did not need to). -/
inductive Reached (cfg : Settings) (start : Database) (req : EnrollRequest) (now : ℚ)
    (hostId : String) : Prop where
  | resolved : hostId = resolveEnrollTokenHost cfg start req.token req.hostId →
      Reached cfg start req now hostId
  | adopted (dup : Agent) :
      findAgent start (resolveEnrollTokenHost cfg start req.token req.hostId) = none →
      findSupersedableAgent cfg start req.hostname req.ip
        (resolveEnrollTokenHost cfg start req.token req.hostId) now = some dup →
      dup.hostId = hostId →
      secretMatch cfg dup.agentSecret (req.prevAgentSecret.getD "") ≠ .refused ∨
        enrollTokenAuthorizesRebind cfg start req.token hostId now = true ∨
        cfg.requireRebindAuth = false →
      Reached cfg start req now hostId

/-- The row found for a call, before the caller has proved anything. -/
structure Found (cfg : Settings) (start : Database) (req : EnrollRequest) (now : ℚ)
    (hostId : String) (existing : Agent) : Prop where
  row : findAgent start hostId = some existing
  origin : hostId = resolveEnrollTokenHost cfg start req.token req.hostId ∨
    findAgent start (resolveEnrollTokenHost cfg start req.token req.hostId) = none ∧
      findSupersedableAgent cfg start req.hostname req.ip
        (resolveEnrollTokenHost cfg start req.token req.hostId) now = some existing

def Claimed (cfg : Settings) (start : Database) (req : EnrollRequest) (now : ℚ)
    (hostId : String) (db : Database) : Prop :=
  ∃ row, findToken cfg start req.token = some row ∧
    (row.used = false ∨ row.boundHostId = some hostId) ∧
    ∀ k, db.enrollTokens.find k = if k = cfg.tokenAtRest req.token then
      some { row with used := true, boundHostId := some hostId, lastUsed := some now }
      else start.enrollTokens.find k

def TokenFacts (cfg : Settings) (start : Database) (req : EnrollRequest) (now : ℚ)
    (db : Database) : EnrollPhase → Prop
  | .waiting | .locked | .validated => db = start
  | .resolved hostId =>
    db = start ∧ hostId = resolveEnrollTokenHost cfg start req.token req.hostId
  | .unknown hostId =>
    db = start ∧ hostId = resolveEnrollTokenHost cfg start req.token req.hostId ∧
      findAgent start hostId = none
  | .proving hostId existing | .unproven hostId existing =>
    db = start ∧ Found cfg start req now hostId existing
  | .upgrading hostId | .cleared hostId _ | .admitted hostId _ =>
    db.enrollTokens = start.enrollTokens ∧ Reached cfg start req now hostId
  | .claimed hostId _ | .written hostId _ | .placing hostId _ | .returned (.ok hostId) =>
    Claimed cfg start req now hostId db ∧ Reached cfg start req now hostId
  | .returned (.error _) => db.enrollTokens = start.enrollTokens

variable {cfg : Settings} {start db : Database} {req : EnrollRequest} {env : Surroundings}

theorem Found.reached {now : ℚ} {hostId : String} {existing : Agent}
    (h : Found cfg start req now hostId existing)
    (hproof : secretMatch cfg (getAgentSecret start hostId) (req.prevAgentSecret.getD "") ≠
        .refused ∨ enrollTokenAuthorizesRebind cfg start req.token hostId now = true ∨
        cfg.requireRebindAuth = false) : Reached cfg start req now hostId := by
  rcases h.origin with horigin | ⟨hnone, hdup⟩
  · exact .resolved horigin
  · refine .adopted existing hnone hdup (Table.key_of_find h.row) ?_
    have hrow := h.row
    rw [findAgent] at hrow
    simpa [getAgentSecret, hrow] using hproof

theorem guardExisting_tokens {now : ℚ} {hostId : String} {existing : Agent}
    (h : Found cfg start req now hostId existing) :
    TokenFacts cfg start req now start (guardExisting req hostId existing) := by
  unfold guardExisting
  split
  · rfl
  · split
    · exact ⟨rfl, h⟩
    · exact ⟨rfl, h⟩

theorem consume_claims {now : ℚ} {hostId : String} {db' : Database}
    (htok : db.enrollTokens = start.enrollTokens)
    (h : consumeEnrollToken cfg db req.token hostId now = some db') :
    Claimed cfg start req now hostId db' := by
  unfold consumeEnrollToken at h
  split at h
  · cases h
  · rename_i row hrow
    have hrow' : findToken cfg start req.token = some row := by rwa [findToken, ← htok]
    split at h
    · rename_i hclaim
      obtain rfl := Option.some.inj h
      refine ⟨row, hrow', ?_, ?_⟩
      · simpa [Bool.or_eq_true] using hclaim
      · intro k
        rw [findToken] at hrow'
        by_cases hk : k = cfg.tokenAtRest req.token
        · subst hk
          simp [htok, hrow']
        · simp [hk, htok]
    · cases h

theorem enrollStep_tokens (db : Database) (phase : EnrollPhase)
    (h : TokenFacts cfg start req env.now db phase) :
    TokenFacts cfg start req env.now (enrollStep cfg req env db phase).1
      (enrollStep cfg req env db phase).2 := by
  cases phase with
  | waiting =>
    obtain rfl : db = start := h
    simp only [enrollStep]
    split
    · rfl
    · split <;> rfl
  | locked =>
    obtain rfl : db = start := h
    simp only [enrollStep]
    split <;> rfl
  | validated =>
    obtain rfl : db = start := h
    exact ⟨rfl, rfl⟩
  | resolved hostId =>
    obtain ⟨rfl, hhost⟩ := h
    simp only [enrollStep]
    split
    · rename_i existing hfind
      exact guardExisting_tokens ⟨hfind, Or.inl hhost⟩
    · rename_i hfind
      exact ⟨rfl, hhost, hfind⟩
  | unknown hostId =>
    obtain ⟨rfl, rfl, hnone⟩ := h
    simp only [enrollStep]
    split
    · rename_i dup hdup
      exact guardExisting_tokens ⟨(supersedable_row hdup).1, Or.inr ⟨hnone, hdup⟩⟩
    · exact ⟨rfl, .resolved rfl⟩
  | proving hostId existing =>
    obtain ⟨rfl, hfound⟩ := h
    simp only [enrollStep]
    split
    · exact ⟨rfl, hfound⟩
    · rename_i hmatch
      exact ⟨rfl, hfound.reached (Or.inl (by simp [hmatch]))⟩
    · rename_i hmatch
      exact ⟨rfl, hfound.reached (Or.inl (by simp [hmatch]))⟩
  | upgrading hostId => exact h
  | unproven hostId existing =>
    obtain ⟨rfl, hfound⟩ := h
    simp only [enrollStep]
    split
    · rename_i hok
      refine ⟨rfl, hfound.reached (Or.inr ?_)⟩
      simpa [Bool.or_eq_true] using hok
    · split <;> rfl
  | cleared hostId fresh =>
    simp only [enrollStep]
    split
    · exact h.1
    · exact h
  | admitted hostId fresh =>
    simp only [enrollStep]
    split
    · rename_i db' hdb
      exact ⟨consume_claims h.1 hdb, h.2⟩
    · exact h.1
  | claimed hostId fresh => exact h
  | written hostId fresh =>
    simp only [enrollStep]
    split
    · exact h
    · exact h
  | placing hostId environment => exact h
  | returned result => exact h

theorem enroll_tokens (cfg : Settings) (req : EnrollRequest) (env : Surroundings)
    (db : Database) : TokenFacts cfg db req env.now (enroll cfg req env db).1
      (enroll cfg req env db).2 :=
  @enroll_rule cfg req env db (TokenFacts cfg db req env.now) rfl enrollStep_tokens

/-- A call refuses and leaves the tokens alone, or enrolls and claims its token. -/
theorem enroll_outcome (cfg : Settings) (req : EnrollRequest) (env : Surroundings)
    (db : Database) :
    (∃ refusal, (enroll cfg req env db).2 = .returned (.error refusal) ∧
      (enroll cfg req env db).1.enrollTokens = db.enrollTokens) ∨
    ∃ hostId, (enroll cfg req env db).2 = .returned (.ok hostId) ∧
      Claimed cfg db req env.now hostId (enroll cfg req env db).1 ∧
      Reached cfg db req env.now hostId := by
  have hfacts := enroll_tokens cfg req env db
  obtain ⟨result, hres⟩ := enroll_returns cfg req env db
  generalize enroll cfg req env db = s at hfacts hres ⊢
  rw [hres] at hfacts
  cases result with
  | error refusal => exact Or.inl ⟨refusal, hres, hfacts⟩
  | ok hostId => exact Or.inr ⟨hostId, hres, hfacts⟩

/-! ## One step of a run -/

/-- The request would redirect an unused reissue token: the host it was issued for has no row
any more, and an offline duplicate that the request may rebind takes its place. -/
def RedirectsReissue (cfg : Settings) (db : Database) (req : EnrollRequest) (now : ℚ) : Prop :=
  ∃ row bound dup, findToken cfg db req.token = some row ∧ row.used = false ∧
    row.boundHostId = some bound ∧ bound ≠ "" ∧ findAgent db bound = none ∧
    findSupersedableAgent cfg db req.hostname req.ip bound now = some dup ∧
    (secretMatch cfg dup.agentSecret (req.prevAgentSecret.getD "") ≠ .refused ∨
      cfg.requireRebindAuth = false)

def TokenCondition (cfg : Settings) (db : Database) (served : Served) : Prop :=
  match served.1 with
  | .enroll req env => ¬ RedirectsReissue cfg db req env.now
  | .removeAgent hostId true => hostId ≠ ""
  | _ => True

/-- What a served request does to the row of one token: it enrolls with it, leaves it alone,
or deletes it. -/
theorem served_token {e : Served} {db' : Database} (h : (clients cfg start).step db e db')
    (k : String) :
    (∃ req env hostId, e = (.enroll req env, some hostId) ∧ k = cfg.tokenAtRest req.token ∧
      Claimed cfg db req env.now hostId db' ∧ Reached cfg db req env.now hostId) ∨
    ((∀ req env hostId, e = (.enroll req env, some hostId) → k ≠ cfg.tokenAtRest req.token) ∧
      (db'.enrollTokens.find k = db.enrollTokens.find k ∨ db'.enrollTokens.find k = none)) := by
  obtain ⟨op, host⟩ := e
  obtain ⟨hclient, hhost, rfl⟩ := h
  dsimp only at hclient hhost ⊢
  cases op with
  | enroll req env =>
    rcases enroll_outcome cfg req env db with ⟨refusal, hres, htok⟩ |
      ⟨hostId, hres, hclaimed, hreached⟩
    · rw [enrolledHost, hres] at hhost
      refine Or.inr ⟨fun _ _ _ he => ?_, Or.inl ?_⟩
      · simp [hhost, EnrollPhase.enrolled] at he
      · simp only [apply, htok]
    · rw [enrolledHost, hres] at hhost
      by_cases hk : k = cfg.tokenAtRest req.token
      · exact Or.inl ⟨req, env, hostId, by rw [hhost]; rfl, hk, hclaimed, hreached⟩
      · refine Or.inr ⟨fun req' env' h' he => ?_, Or.inl ?_⟩
        · simp only [Prod.mk.injEq, Operation.enroll.injEq] at he
          rwa [← he.1.1]
        · obtain ⟨row, _, _, hfind⟩ := hclaimed
          simp only [apply, hfind k, if_neg hk]
  | generateToken => exact absurd hclient id
  | reissueToken => exact absurd hclient id
  | purgeTokens => exact absurd hclient id
  | selfDisenroll path hostId secret =>
    refine Or.inr ⟨fun _ _ _ he => (by cases he), Or.inl ?_⟩
    have hverify : (verifyAgent cfg db hostId secret).2.enrollTokens = db.enrollTokens := by
      unfold verifyAgent agentSecretMatches
      grind [upgradeAgentSecretHash]
    simp only [apply, selfDisenroll]
    split
    · rfl
    · split
      · rename_i hv
        rw [← hverify, hv]
        rfl
      · rename_i hv
        rw [← hverify, hv]
  | removeAgent hostId purge =>
    refine Or.inr ⟨fun _ _ _ he => (by cases he), ?_⟩
    simp only [apply, removeAgent, invalidateEnrollTokensForHost]
    split
    · split
      · exact Or.inl rfl
      · simp only [deleteAgent, Table.find_deleteWhere]
        cases db.enrollTokens.find k with
        | none => simp
        | some row =>
          by_cases hrow : row.boundHostId = some hostId
          · exact Or.inr (by simp [hrow])
          · exact Or.inl (by simp [hrow])
    · exact Or.inl rfl
  | revoke hostId =>
    refine Or.inr ⟨fun _ _ _ he => (by cases he), Or.inl ?_⟩
    simp only [apply]
    split <;> rfl
  | restore hostId =>
    refine Or.inr ⟨fun _ _ _ he => (by cases he), Or.inl ?_⟩
    simp only [apply]
    split <;> rfl

theorem enrolls_key {e : Served} {token hostId : String} {db' : Database}
    (h : (clients cfg start).step db e db') (he : Enrolls token hostId e) :
    ∃ row, findToken cfg db token = some row ∧
      (row.used = false ∨ row.boundHostId = some hostId) := by
  obtain ⟨req, env, rfl, rfl⟩ := he
  rcases served_token h (cfg.tokenAtRest req.token) with
    ⟨req', env', host', he, _, ⟨row, hrow, hclaim, _⟩, _⟩ | ⟨hno, _⟩
  · simp only [Prod.mk.injEq, Operation.enroll.injEq, Option.some.injEq] at he
    obtain ⟨⟨rfl, rfl⟩, rfl⟩ := he
    exact ⟨row, hrow, hclaim⟩
  · exact absurd rfl (hno req env hostId rfl)

/-! ## Runs -/

/-- The row under `k` is gone or has been used for `hostId`. -/
def UsedFor (hostId : String) (row : Option EnrollToken) : Prop :=
  ∀ r ∈ row, r.used = true ∧ r.boundHostId = some hostId

theorem step_usedFor {e : Served} {db' : Database} (h : (clients cfg start).step db e db')
    {k hostId : String} (hk : UsedFor hostId (db.enrollTokens.find k)) :
    UsedFor hostId (db'.enrollTokens.find k) := by
  rcases served_token h k with ⟨req, env, host, rfl, rfl, ⟨row, hrow, hclaim, hfind⟩, _⟩ |
    ⟨_, hsame | hnone⟩
  · obtain ⟨hused, hbound⟩ := hk row hrow
    obtain rfl : host = hostId := by
      rcases hclaim with hclaim | hclaim
      · simp [hused] at hclaim
      · exact Option.some.inj (hclaim.symm.trans hbound)
    intro r hr
    rw [hfind, if_pos rfl] at hr
    obtain rfl := Option.some.inj hr
    exact ⟨rfl, rfl⟩
  · rwa [hsame]
  · simp [UsedFor, hnone]

/-- After an enrollment its token is used for the enrolled host. -/
theorem enrolls_usedFor {e : Served} {token hostId : String} {db' : Database}
    (h : (clients cfg start).step db e db') (he : Enrolls token hostId e) :
    UsedFor hostId (findToken cfg db' token) := by
  obtain ⟨req, env, rfl, rfl⟩ := he
  rcases served_token h (cfg.tokenAtRest req.token) with
    ⟨req', env', host', he, _, ⟨row, _, _, hfind⟩, _⟩ | ⟨hno, _⟩
  · simp only [Prod.mk.injEq, Operation.enroll.injEq, Option.some.injEq] at he
    obtain ⟨⟨rfl, rfl⟩, rfl⟩ := he
    intro r hr
    rw [findToken, hfind, if_pos rfl] at hr
    obtain rfl := Option.some.inj hr
    exact ⟨rfl, rfl⟩
  · exact absurd rfl (hno req env hostId rfl)

/-- Every token that enrolled something stays used for what it enrolled. -/
theorem run_usedFor {log : List Served} (h : (clients cfg start).Run start log db) :
    ∀ token hostId, (∃ e ∈ log, Enrolls token hostId e) →
      UsedFor hostId (findToken cfg db token) := by
  refine h.history (P := fun log db => ∀ token hostId, (∃ e ∈ log, Enrolls token hostId e) →
    UsedFor hostId (findToken cfg db token)) (by simp) ?_
  rintro log db e db' _ st ih token hostId ⟨e', he', henr⟩
  rcases List.mem_append.mp he' with hold | hnew
  · exact step_usedFor st (ih token hostId ⟨e', hold, henr⟩)
  · obtain rfl := List.mem_singleton.mp hnew
    exact enrolls_usedFor st henr

/-- All enrollments with one token agree, in every run. -/
theorem enrollments_agree {log : List Served} (h : (clients cfg start).Run start log db)
    {token h₁ h₂ : String} (he₁ : ∃ e ∈ log, Enrolls token h₁ e)
    (he₂ : ∃ e ∈ log, Enrolls token h₂ e) : h₁ = h₂ := by
  induction h with
  | nil => simp at he₁
  | @snoc t u log e run st ih =>
    obtain ⟨e₁, hm₁, he₁⟩ := he₁
    obtain ⟨e₂, hm₂, he₂⟩ := he₂
    -- an enrollment of the past binds the one that happens now
    have hpast : ∀ a b, (∃ x ∈ log, Enrolls token a x) → Enrolls token b e → a = b := by
      intro a b hx he
      obtain ⟨row, hrow, hclaim⟩ := enrolls_key st he
      obtain ⟨hused, hbound⟩ := run_usedFor run token a hx row hrow
      rcases hclaim with hclaim | hclaim
      · simp [hused] at hclaim
      · exact Option.some.inj (hbound.symm.trans hclaim)
    rcases List.mem_append.mp hm₁ with hold₁ | hnew₁ <;>
      rcases List.mem_append.mp hm₂ with hold₂ | hnew₂
    · exact ih ⟨e₁, hold₁, he₁⟩ ⟨e₂, hold₂, he₂⟩
    · rw [List.mem_singleton.mp hnew₂] at he₂
      exact hpast h₁ h₂ ⟨e₁, hold₁, he₁⟩ he₂
    · rw [List.mem_singleton.mp hnew₁] at he₁
      exact (hpast h₂ h₁ ⟨e₂, hold₂, he₂⟩ he₁).symm
    · rw [List.mem_singleton.mp hnew₁] at he₁
      rw [List.mem_singleton.mp hnew₂] at he₂
      obtain ⟨req₁, env₁, heq₁, -⟩ := he₁
      obtain ⟨req₂, env₂, heq₂, -⟩ := he₂
      rw [heq₁] at heq₂
      exact Option.some.inj (congrArg Prod.snd heq₂)

/-- The row under `k` is gone or bound to `hostId`, used or not. -/
def BoundTo (hostId : String) (row : Option EnrollToken) : Prop :=
  ∀ r ∈ row, r.boundHostId = some hostId

theorem step_boundTo {e : Served} {db' : Database} (h : (clients cfg start).step db e db')
    (hc : TokenCondition cfg db e) {k hostId : String} (hne : hostId ≠ "")
    (hk : BoundTo hostId (db.enrollTokens.find k)) : BoundTo hostId (db'.enrollTokens.find k) := by
  rcases served_token h k with ⟨req, env, host, rfl, rfl, ⟨row, hrow, hclaim, hfind⟩, hreached⟩ |
    ⟨_, hsame | hnone⟩
  · have hbound := hk row hrow
    have hres : resolveEnrollTokenHost cfg db req.token req.hostId = hostId := by
      simp [resolveEnrollTokenHost, hrow, hbound, hne]
    obtain rfl : host = hostId := by
      rcases hclaim with hused | hclaim
      · cases hreached with
        | resolved heq => rw [heq, hres]
        | adopted dup hgone hdup hhost hproof =>
          rw [hres] at hgone hdup
          rcases hproof with hproof | hproof | hproof
          · exact absurd ⟨row, hostId, dup, hrow, hused, hbound, hne, hgone, hdup,
              Or.inl hproof⟩ hc
          · obtain ⟨row', hrow', _, _, _, hb⟩ := holds_of_authorizes hproof
            obtain rfl := Option.some.inj (hrow.symm.trans hrow')
            exact Option.some.inj (hb.symm.trans hbound)
          · exact absurd ⟨row, hostId, dup, hrow, hused, hbound, hne, hgone, hdup,
              Or.inr hproof⟩ hc
      · exact Option.some.inj (hclaim.symm.trans hbound)
    intro r hr
    rw [hfind, if_pos rfl] at hr
    obtain rfl := Option.some.inj hr
    rfl
  · rwa [hsame]
  · simp [BoundTo, hnone]

theorem step_gone {e : Served} {db' : Database} (h : (clients cfg start).step db e db')
    {k : String} (hk : db.enrollTokens.find k = none) : db'.enrollTokens.find k = none := by
  rcases served_token h k with ⟨req, env, host, rfl, rfl, ⟨row, hrow, _, _⟩, _⟩ |
    ⟨_, hsame | hnone⟩
  · rw [findToken, hk] at hrow
    cases hrow
  · rwa [hsame]
  · exact hnone

/-- A token without a row enrolls nothing, however long the run. -/
theorem gone_enrolls_nothing {log : List Served} {s t : Database} {token : String}
    (h : (clients cfg start).Run s log t) (hs : findToken cfg s token = none) :
    findToken cfg t token = none ∧ ∀ e ∈ log, ∀ host, ¬ Enrolls token host e := by
  induction h with
  | nil => exact ⟨hs, by simp⟩
  | snoc run st ih =>
    obtain ⟨hgone, hnone⟩ := ih
    refine ⟨step_gone st hgone, ?_⟩
    intro e he host henr
    rcases List.mem_append.mp he with hold | hnew
    · exact hnone e hold host henr
    · rw [List.mem_singleton.mp hnew] at henr
      obtain ⟨row, hrow, _⟩ := enrolls_key st henr
      simp [hgone] at hrow

theorem removeAgent_invalidates {hostId token : String} (hne : hostId ≠ "")
    (h : BoundTo hostId (findToken cfg db token)) :
    findToken cfg (removeAgent db hostId true) token = none := by
  have hfind : findToken cfg (removeAgent db hostId true) token =
      (findToken cfg db token).filter fun row => !decide (row.boundHostId = some hostId) := by
    simp [removeAgent, invalidateEnrollTokensForHost, hne, findToken, deleteAgent]
  rw [hfind]
  cases hrow : findToken cfg db token with
  | none => rfl
  | some row => simp [h row hrow]

/-- One token, one host, in every run without a redirected reissue token and without an
invalidation for the empty host id. -/
theorem tokens_keep_their_host (cfg : Settings) (start : Database) :
    TokenLaw cfg ((clients cfg start).restrict (TokenCondition cfg)) := by
  constructor
  · intro log db token h₁ h₂ run he₁ he₂
    exact enrollments_agree run.unrestrict he₁ he₂
  · intro log₁ db₁ log₂ db₂ e db₃ log₃ db₄ token row hostId _ hrow hbound run₂ st hop run₃
    obtain ⟨hc, st⟩ := st
    have hne : hostId ≠ "" := by simpa [TokenCondition, hop] using hc
    have hfirst : BoundTo hostId (findToken cfg db₁ token) := by
      intro r hr
      rw [hrow] at hr
      rwa [← Option.some.inj hr]
    have hbefore : BoundTo hostId (findToken cfg db₂ token) := by
      refine run₂.invariant (P := fun db => BoundTo hostId (findToken cfg db token)) ?_ hfirst
      rintro s e t ⟨hc, st⟩ hs
      exact step_boundTo st hc hne hs
    have hgone : findToken cfg db₃ token = none := by
      rw [st.2.2, hop]
      exact removeAgent_invalidates hne hbefore
    exact (gone_enrolls_nothing run₃.unrestrict hgone).2

/-! A token reissued for `a` adopts the offline `b`, survives the Force Delete of `a`, and
enrolls again. -/

def reissuedDatabase : Database :=
  ⟨(Table.empty.put (sampleAgent "a")).put (sampleAgent "b"),
    Table.empty.put (sampleToken "#t" (some "a"))⟩

def sampleServed (db : Database) (op : Operation) : Served :=
  (op, enrolledHost sampleSettings db op)

def adoption : Operation := .enroll (sampleRequest "c") sampleNow

def reenrollment : Operation :=
  .enroll { sampleRequest "c" with prevAgentSecret := some "new" } sampleNow

theorem reissue_token_outlives_invalidation :
    ¬ TokenLaw sampleSettings (clients sampleSettings reissuedDatabase) := by
  rintro ⟨-, hdead⟩
  have st : ∀ db op, ClientOperation op → (clients sampleSettings reissuedDatabase).step db
      (sampleServed db op) (apply sampleSettings db op) := fun db op hop => ⟨hop, rfl, rfl⟩
  have run₂ := (Machine.Run.single (st reissuedDatabase (.removeAgent "a" false) trivial)).snoc
    (st _ adoption trivial)
  have run₃ := Machine.Run.single (st (apply sampleSettings (apply sampleSettings
    (apply sampleSettings reissuedDatabase (.removeAgent "a" false)) adoption)
    (.removeAgent "a" true)) reenrollment trivial)
  refine hdead [] _ _ _ _ _ _ _ "t" (sampleToken "#t" (some "a")) "a" (.nil _) rfl rfl run₂
    (st _ (.removeAgent "a" true) trivial) rfl run₃ _ (List.mem_singleton_self _) "b" ?_
  exact ⟨_, _, Prod.ext rfl (by decide +kernel), rfl⟩

end Enrollment
