import SysibleController.EnrollmentGuard
import SysibleController.Interleaving

/-! Revocation beside enrollment. Every request is a thread of database steps; `enroll`, the
two ways to delete a host and nothing else take `_ENROLL_LOCK`. The clock is read anew at
each step. -/
namespace Enrollment

open KeyedTable PythonText TransitionSystem Interleaving

structure Server where
  db : Database
  enrollLock : Bool

inductive RoutePhase where
  | checking
  | updating
  | finishing
  deriving DecidableEq

inductive RemovePhase where
  | waiting
  | deleting
  | purging
  deriving DecidableEq

inductive DisenrollPhase where
  | existing
  | unrevoked
  | matching
  | upgrading
  | waiting
  | deleting
  deriving DecidableEq

inductive Thread where
  | enroll (req : EnrollRequest) (phase : EnrollPhase)
  | revoke (hostId : String) (phase : RoutePhase)
  | restore (hostId : String) (phase : RoutePhase)
  | remove (hostId : String) (purgeToken : Bool) (phase : RemovePhase)
  | disenroll (hostId agentSecret : String) (phase : DisenrollPhase)
  | tokens (op : Operation)

/-- What a step does to the rows, as far as revocations are concerned. -/
inductive Action where
  | silent
  | revoked (hostId : String)
  | revokeReturned (hostId : String)
  | restored (hostId : String)
  | deleted (hostId : String)

/-- The token requests, which never touch `agents`. -/
def TokenOperation : Operation → Prop
  | .generateToken .. | .reissueToken .. | .purgeTokens => True
  | _ => False

inductive Acts (cfg : Settings) : Server → Thread → Action → Server → Option Thread → Prop where
  | enrollLocks {s req env} : s.enrollLock = false →
      (enrollStep cfg req env s.db .waiting).2 = .locked →
      Acts cfg s (.enroll req .waiting) .silent ⟨s.db, true⟩ (some (.enroll req .locked))
  | enrollRefused {s req env result} :
      (enrollStep cfg req env s.db .waiting).2 = .returned result →
      Acts cfg s (.enroll req .waiting) .silent s none
  | enrollSteps {s req phase env phase'} : phase ≠ .waiting →
      (enrollStep cfg req env s.db phase).2 = phase' → (∀ result, phase' ≠ .returned result) →
      Acts cfg s (.enroll req phase) .silent
        ⟨(enrollStep cfg req env s.db phase).1, s.enrollLock⟩ (some (.enroll req phase'))
  | enrollReturns {s req phase env result} : phase ≠ .waiting →
      (enrollStep cfg req env s.db phase).2 = .returned result →
      Acts cfg s (.enroll req phase) .silent ⟨(enrollStep cfg req env s.db phase).1, false⟩ none
  | revokeChecks {s hostId} : Acts cfg s (.revoke hostId .checking) .silent s
      (if agentExists s.db hostId then some (.revoke hostId .updating) else none)
  | revokeUpdates {s hostId} : Acts cfg s (.revoke hostId .updating) (.revoked hostId)
      ⟨revokeAgent s.db hostId, s.enrollLock⟩ (some (.revoke hostId .finishing))
  | revokeReturns {s hostId} :
      Acts cfg s (.revoke hostId .finishing) (.revokeReturned hostId) s none
  | restoreChecks {s hostId} : Acts cfg s (.restore hostId .checking) .silent s
      (if agentExists s.db hostId then some (.restore hostId .updating) else none)
  | restoreUpdates {s hostId} : Acts cfg s (.restore hostId .updating) (.restored hostId)
      ⟨unrevokeAgent s.db hostId, s.enrollLock⟩ none
  | removeLocks {s hostId purge} : s.enrollLock = false →
      Acts cfg s (.remove hostId purge .waiting) .silent ⟨s.db, true⟩
        (some (.remove hostId purge .deleting))
  | removeDeletes {s hostId purge} :
      Acts cfg s (.remove hostId purge .deleting) (.deleted hostId)
        ⟨deleteAgent s.db hostId, purge⟩ (if purge then some (.remove hostId purge .purging) else none)
  | removePurges {s hostId purge} : Acts cfg s (.remove hostId purge .purging) .silent
      ⟨invalidateEnrollTokensForHost s.db hostId, false⟩ none
  | disenrollExisting {s hostId secret} : Acts cfg s (.disenroll hostId secret .existing) .silent s
      (if agentExists s.db hostId then some (.disenroll hostId secret .unrevoked) else none)
  | disenrollUnrevoked {s hostId secret} :
      Acts cfg s (.disenroll hostId secret .unrevoked) .silent s
        (if isAgentRevoked s.db hostId then none else some (.disenroll hostId secret .matching))
  | disenrollMatches {s hostId secret} : Acts cfg s (.disenroll hostId secret .matching) .silent s
      (match secretMatch cfg (getAgentSecret s.db hostId) secret with
        | .refused => none
        | .hashed => some (.disenroll hostId secret .waiting)
        | .legacy => some (.disenroll hostId secret .upgrading))
  | disenrollUpgrades {s hostId secret} :
      Acts cfg s (.disenroll hostId secret .upgrading) .silent
        ⟨upgradeAgentSecretHash s.db hostId (cfg.tokenAtRest secret), s.enrollLock⟩
        (some (.disenroll hostId secret .waiting))
  | disenrollLocks {s hostId secret} : s.enrollLock = false →
      Acts cfg s (.disenroll hostId secret .waiting) .silent ⟨s.db, true⟩
        (some (.disenroll hostId secret .deleting))
  | disenrollDeletes {s hostId secret} :
      Acts cfg s (.disenroll hostId secret .deleting) (.deleted hostId)
        ⟨deleteAgent s.db hostId, false⟩ none
  | tokens {s op} : TokenOperation op →
      Acts cfg s (.tokens op) .silent ⟨apply cfg s.db op, s.enrollLock⟩ none

def Entry : Thread → Prop
  | .enroll _ phase => phase = .waiting
  | .revoke _ phase | .restore _ phase => phase = .checking
  | .remove _ _ phase => phase = .waiting
  | .disenroll _ _ phase => phase = .existing
  | .tokens op => TokenOperation op

def requests (cfg : Settings) : Program Server Thread Action := ⟨Entry, Acts cfg⟩

abbrev RequestEvent := Interleaving.Event Thread Action

/-! ## The law -/

/-- The host has its row, the row is revoked, and no secret gets past `verify_agent`. -/
structure LockedOut (cfg : Settings) (db : Database) (hostId : String) : Prop where
  revoked : ∃ a, db.agents.find hostId = some a ∧ a.revoked = true
  refused : ∀ secret, (verifyAgent cfg db hostId secret).1 = .error secretRevoked

/-- The step lets the host in again on purpose, or deletes it. -/
def Lifts (hostId : String) : RequestEvent → Prop
  | .act _ (.restored h) | .act _ (.deleted h) => h = hostId
  | _ => False

/-- Once a revocation has returned, the host stays locked out until it is lifted. -/
def RevocationLaw (cfg : Settings) (M : Machine (Pool Server Thread) RequestEvent) : Prop :=
  ∀ log p th hostId q log' r, M.Run M.start log p →
    M.step p (.act th (.revokeReturned hostId)) q → M.Run q log' r →
    (∀ e ∈ log', ¬ Lifts hostId e) → LockedOut cfg r.shared.db hostId

/-- The host whose row this `enroll` will still write, once it has looked at that row (or
found none) without seeing a revocation. -/
def EnrollPhase.pastCheck : EnrollPhase → Option String
  | .unknown hostId | .proving hostId _ | .upgrading hostId | .unproven hostId _
  | .cleared hostId _ | .admitted hostId _ | .claimed hostId _ => some hostId
  | _ => none

def Thread.pastCheck : Thread → Option String
  | .enroll _ phase => phase.pastCheck
  | _ => none

/-- The UPDATE of a revocation finds the row and lands at no moment between an `enroll`'s
look at that row and its write; nothing lifts the revocation before its request returns. -/
def RevocationCondition (p : Pool Server Thread) : RequestEvent → Prop
  | .act _ (.revoked hostId) => agentExists p.shared.db hostId = true ∧
      ∀ th ∈ p.threads, th.pastCheck ≠ some hostId
  | .act _ (.restored hostId) | .act _ (.deleted hostId) =>
    .revoke hostId .finishing ∉ p.threads
  | _ => True

/-! ## What holds from the UPDATE on -/

def RevokedRow (db : Database) (hostId : String) : Prop :=
  ∃ a, db.agents.find hostId = some a ∧ a.revoked = true

structure Held (hostId : String) (p : Pool Server Thread) : Prop where
  row : RevokedRow p.shared.db hostId
  unseen : ∀ th ∈ p.threads, th.pastCheck ≠ some hostId

theorem verify_revoked (cfg : Settings) {db : Database} {hostId : String}
    (h : RevokedRow db hostId) (secret : String) :
    (verifyAgent cfg db hostId secret).1 = .error secretRevoked := by
  obtain ⟨a, ha, hrev⟩ := h
  simp [verifyAgent, agentExists, isAgentRevoked, ha, hrev]

variable {cfg : Settings}

theorem RevokedRow.of_find {db db' : Database} {hostId : String} (h : RevokedRow db hostId)
    (hfind : db'.agents.find hostId = db.agents.find hostId) : RevokedRow db' hostId := by
  obtain ⟨a, ha, hrev⟩ := h
  exact ⟨a, hfind.trans ha, hrev⟩

/-- An UPDATE of other columns keeps a revocation. -/
theorem RevokedRow.update {db : Database} {hostId : String} (h : RevokedRow db hostId)
    (host : String) (f : Agent → Agent) (hf : ∀ a, (f a).hostId = a.hostId)
    (hrev : ∀ a, (f a).revoked = a.revoked) :
    RevokedRow { db with agents := db.agents.update host f hf } hostId := by
  obtain ⟨a, ha, har⟩ := h
  by_cases hhost : hostId = host
  · exact ⟨f a, by simp [hhost, hhost ▸ ha], (hrev a).trans har⟩
  · exact ⟨a, by simp [hhost, ha], har⟩

theorem guardExisting_pastCheck (req : EnrollRequest) {hostId : String} {existing : Agent}
    {h : String} (hpast : (guardExisting req hostId existing).pastCheck = some h) :
    existing.revoked = false ∧ hostId = h := by
  unfold guardExisting at hpast
  split at hpast
  · simp [EnrollPhase.pastCheck] at hpast
  · rename_i hrev
    refine ⟨by simpa using hrev, ?_⟩
    split at hpast <;> exact Option.some.inj hpast

/-- While the row is revoked no `enroll` gets past its look at it, and none writes it. -/
theorem enrollStep_held {req : EnrollRequest} {env : Surroundings} {db : Database}
    {phase : EnrollPhase} {hostId : String} (hrow : RevokedRow db hostId)
    (hpast : phase.pastCheck ≠ some hostId) :
    RevokedRow (enrollStep cfg req env db phase).1 hostId ∧
      (enrollStep cfg req env db phase).2.pastCheck ≠ some hostId := by
  have hne : ∀ h, phase.pastCheck = some h → hostId ≠ h := by
    rintro h hp rfl
    exact hpast hp
  obtain ⟨a, ha, hrev⟩ := hrow
  have hrow : RevokedRow db hostId := ⟨a, ha, hrev⟩
  have hnone : (none : Option String) ≠ some hostId := (Option.some_ne_none hostId).symm
  cases phase with
  | waiting =>
    simp only [enrollStep]
    split
    · exact ⟨hrow, hnone⟩
    · split <;> exact ⟨hrow, hnone⟩
  | locked =>
    simp only [enrollStep]
    split <;> exact ⟨hrow, hnone⟩
  | validated => exact ⟨hrow, hnone⟩
  | resolved host =>
    simp only [enrollStep, findAgent]
    split
    · rename_i existing hfind
      refine ⟨hrow, fun hp => ?_⟩
      obtain ⟨hun, rfl⟩ := guardExisting_pastCheck req hp
      rw [ha] at hfind
      rw [← Option.some.inj hfind, hrev] at hun
      cases hun
    · rename_i hfind
      refine ⟨hrow, fun hp => ?_⟩
      rw [Option.some.inj hp, ha] at hfind
      cases hfind
  | unknown host =>
    simp only [enrollStep]
    split
    · rename_i dup hdup
      refine ⟨hrow, fun hp => ?_⟩
      obtain ⟨hun, rfl⟩ := guardExisting_pastCheck req hp
      rw [Option.some.inj (ha.symm.trans (supersedable_row hdup).1), hun] at hrev
      cases hrev
    · exact ⟨hrow, hpast⟩
  | proving host existing =>
    simp only [enrollStep]
    split <;> exact ⟨hrow, hpast⟩
  | upgrading host => exact ⟨hrow.update _ _ _ fun _ => rfl, hpast⟩
  | unproven host existing =>
    simp only [enrollStep]
    split
    · exact ⟨hrow, hpast⟩
    · split <;> exact ⟨hrow, hnone⟩
  | cleared host fresh =>
    simp only [enrollStep]
    split
    · exact ⟨hrow, hnone⟩
    · exact ⟨hrow, hpast⟩
  | admitted host fresh =>
    simp only [enrollStep]
    split
    · rename_i db' hdb
      refine ⟨hrow.of_find ?_, hpast⟩
      rw [consume_agents hdb]
    · exact ⟨hrow, hnone⟩
  | claimed host fresh =>
    refine ⟨hrow.of_find ?_, hnone⟩
    simp [enrollStep, createOrUpdateAgent, hne host rfl]
  | written host fresh =>
    simp only [enrollStep]
    split <;> exact ⟨hrow, hnone⟩
  | placing host environment => exact ⟨hrow.update _ _ _ fun _ => rfl, hnone⟩
  | returned result => exact ⟨hrow, hnone⟩

theorem deleteAgent_held {db : Database} {hostId host : String} (hne : host ≠ hostId)
    (h : RevokedRow db hostId) : RevokedRow (deleteAgent db host) hostId := by
  refine h.of_find ?_
  simp only [deleteAgent, Table.find_deleteWhere]
  cases hfind : db.agents.find hostId with
  | none => rfl
  | some a => simp [Table.key_of_find hfind, hne.symm]

theorem tokenOperation_agents {db : Database} {op : Operation} (h : TokenOperation op) :
    (apply cfg db op).agents = db.agents := by
  cases op with
  | generateToken token environment now =>
    simp only [apply]
    split
    · rfl
    · exact insertToken_agents _ _
  | reissueToken host token now =>
    simp only [apply, reissueToken]
    split
    · rfl
    · split
      · rfl
      · exact insertToken_agents _ _
  | purgeTokens => rfl
  | enroll | selfDisenroll | removeAgent | revoke | restore => exact absurd h id

theorem forall_mem_none {P : Thread → Prop} : ∀ x ∈ (none : Option Thread), P x := by simp

/-- One action of any thread, while the row is revoked. -/
theorem acts_held {s s' : Server} {th : Thread} {act : Action} {th' : Option Thread}
    {hostId : String} (h : Acts cfg s th act s' th') (hlift : ¬ Lifts hostId (.act th act))
    (hrow : RevokedRow s.db hostId) (hpast : th.pastCheck ≠ some hostId) :
    RevokedRow s'.db hostId ∧ ∀ x ∈ th', x.pastCheck ≠ some hostId := by
  cases h with
  | enrollLocks => exact ⟨hrow, by simp [Thread.pastCheck, EnrollPhase.pastCheck]⟩
  | enrollRefused => exact ⟨hrow, forall_mem_none⟩
  | enrollSteps _ hphase _ =>
    obtain ⟨hrow', hpast'⟩ := enrollStep_held hrow hpast
    refine ⟨hrow', ?_⟩
    rintro x hx
    obtain rfl := Option.some.inj hx
    rwa [← hphase]
  | enrollReturns => exact ⟨(enrollStep_held hrow hpast).1, forall_mem_none⟩
  | revokeChecks =>
    refine ⟨hrow, ?_⟩
    split <;> simp [Thread.pastCheck]
  | @revokeUpdates host =>
    refine ⟨?_, by simp [Thread.pastCheck]⟩
    obtain ⟨a, ha, hrev⟩ := hrow
    by_cases hhost : hostId = host
    · exact ⟨{ a with revoked := true }, by simp [revokeAgent, setRevoked, hhost, hhost ▸ ha], rfl⟩
    · exact ⟨a, by simp [revokeAgent, setRevoked, hhost, ha], hrev⟩
  | revokeReturns => exact ⟨hrow, forall_mem_none⟩
  | restoreChecks =>
    refine ⟨hrow, ?_⟩
    split <;> simp [Thread.pastCheck]
  | @restoreUpdates host =>
    refine ⟨hrow.of_find ?_, forall_mem_none⟩
    have hne : hostId ≠ host := fun he => hlift he.symm
    simp [unrevokeAgent, setRevoked, hne]
  | removeLocks => exact ⟨hrow, by simp [Thread.pastCheck]⟩
  | removeDeletes =>
    refine ⟨deleteAgent_held hlift hrow, ?_⟩
    split <;> simp [Thread.pastCheck]
  | removePurges =>
    refine ⟨hrow.of_find ?_, forall_mem_none⟩
    simp only [invalidateEnrollTokensForHost]
    split <;> rfl
  | disenrollExisting | disenrollUnrevoked =>
    refine ⟨hrow, ?_⟩
    split <;> simp [Thread.pastCheck]
  | disenrollMatches =>
    refine ⟨hrow, ?_⟩
    split <;> simp [Thread.pastCheck]
  | disenrollUpgrades =>
    exact ⟨hrow.update _ _ _ fun _ => rfl, by simp [Thread.pastCheck]⟩
  | disenrollLocks => exact ⟨hrow, by simp [Thread.pastCheck]⟩
  | disenrollDeletes => exact ⟨deleteAgent_held hlift hrow, forall_mem_none⟩
  | tokens hop =>
    refine ⟨hrow.of_find ?_, forall_mem_none⟩
    rw [tokenOperation_agents hop]

theorem step_held {p q : Pool Server Thread} {e : RequestEvent} {hostId : String}
    (h : Steps (requests cfg) p e q) (hlift : ¬ Lifts hostId e) (hp : Held hostId p) :
    Held hostId q := by
  cases h with
  | @call s ts th hentry =>
    refine ⟨hp.row, ?_⟩
    intro x hx
    rcases List.mem_cons.mp hx with rfl | hx
    · cases x with
      | enroll req phase =>
        obtain rfl : phase = .waiting := hentry
        exact nofun
      | _ => exact nofun
    · exact hp.unseen x hx
  | @act s s' pre post th th' act hact =>
    obtain ⟨hrow, hnew⟩ := acts_held hact hlift hp.row (hp.unseen th (by simp))
    refine ⟨hrow, ?_⟩
    intro x hx
    rcases mem_moved th hx with hx | hx
    · exact hnew x hx
    · exact hp.unseen x hx

theorem run_held {p q : Pool Server Thread} {s : Server} {log : List RequestEvent}
    {hostId : String} (h : ((requests cfg).machine s).Run p log q)
    (hlift : ∀ e ∈ log, ¬ Lifts hostId e) (hp : Held hostId p) : Held hostId q := by
  induction h with
  | nil => exact hp
  | snoc _ st ih =>
    exact step_held st (hlift _ (by simp)) (ih fun e he => hlift e (by simp [he]))

/-- A revocation whose UPDATE is done holds its host until it returns. -/
def UpdatesHold (p : Pool Server Thread) : Prop :=
  ∀ hostId, .revoke hostId .finishing ∈ p.threads → Held hostId p

theorem step_updatesHold {p q : Pool Server Thread} {e : RequestEvent}
    (h : Steps (requests cfg) p e q) (hc : RevocationCondition p e) (hp : UpdatesHold p) :
    UpdatesHold q := by
  intro hostId hmem
  by_cases hold : .revoke hostId .finishing ∈ p.threads
  · refine step_held h ?_ (hp hostId hold)
    cases e with
    | call => exact id
    | act th act =>
      cases act with
      | restored host =>
        rintro rfl
        exact hc hold
      | deleted host =>
        rintro rfl
        exact hc hold
      | silent | revoked | revokeReturned => exact id
  · -- the thread has just done its UPDATE
    cases h with
    | call hentry =>
      rcases List.mem_cons.mp hmem with rfl | hmem
      · cases hentry
      · exact absurd hmem hold
    | @act s s' pre post th th' act hact =>
      have hnew : .revoke hostId .finishing ∈ th' := (mem_moved th hmem).resolve_right hold
      cases hact with
      | revokeUpdates =>
        obtain ⟨rfl, -⟩ := Thread.revoke.inj (Option.some.inj hnew)
        obtain ⟨hexists, hunseen⟩ := hc
        obtain ⟨a, ha⟩ := Option.isSome_iff_exists.mp hexists
        refine ⟨⟨{ a with revoked := true }, by simp [revokeAgent, setRevoked, ha], rfl⟩, ?_⟩
        intro x hx
        rcases mem_moved _ hx with hx | hx
        · rw [← Option.some.inj hx]
          exact fun hseen => by cases hseen
        · exact hunseen x hx
      | revokeChecks | restoreChecks | removeDeletes | disenrollExisting | disenrollUnrevoked =>
        split at hnew <;> simp at hnew
      | disenrollMatches =>
        split at hnew <;> simp at hnew
      | enrollLocks | enrollRefused | enrollSteps | enrollReturns | revokeReturns
      | restoreUpdates | removeLocks | removePurges | disenrollUpgrades | disenrollLocks
      | disenrollDeletes | tokens => simp at hnew

/-- A revocation is never lost in runs where its UPDATE avoids the gap inside `enroll`. -/
theorem revocation_holds (cfg : Settings) (s : Server) :
    RevocationLaw cfg (((requests cfg).machine s).restrict RevocationCondition) := by
  rintro log p th hostId q log' r run ⟨-, st⟩ run' hlift
  have hinv : UpdatesHold p := by
    refine run.invariant (P := UpdatesHold) ?_ ?_
    · rintro p e q ⟨hc, st⟩ hp
      exact step_updatesHold st hc hp
    · intro host hmem
      simp [Machine.restrict, Program.machine] at hmem
  have hmem : .revoke hostId .finishing ∈ p.threads := by
    cases st with
    | act hact =>
      cases hact
      simp
  have hq : Held hostId q := step_held st id (hinv hostId hmem)
  have hr : Held hostId r := run_held run'.unrestrict hlift hq
  exact ⟨hr.row, verify_revoked cfg hr.row⟩

/-! A revocation that lands between the check and the write of an `enroll` is undone. -/

theorem enroll_undoes_revocation :
    ¬ RevocationLaw sampleSettings
      ((requests sampleSettings).machine ⟨sampleDatabase, false⟩) := by
  intro hlaw
  have enter : ∀ s phase phase', phase ≠ .waiting →
      (enrollStep sampleSettings (sampleRequest "web") sampleNow s.db phase).2 = phase' →
      (∀ result, phase' ≠ .returned result) →
      Acts sampleSettings s (.enroll (sampleRequest "web") phase) .silent
        ⟨(enrollStep sampleSettings (sampleRequest "web") sampleNow s.db phase).1, s.enrollLock⟩
        (some (.enroll (sampleRequest "web") phase')) :=
    fun s phase phase' hne h hlive => .enrollSteps hne h hlive
  have locks : Acts sampleSettings ⟨sampleDatabase, false⟩
      (.enroll (sampleRequest "web") .waiting) .silent ⟨sampleDatabase, true⟩
      (some (.enroll (sampleRequest "web") .locked)) :=
    @Acts.enrollLocks sampleSettings ⟨sampleDatabase, false⟩ (sampleRequest "web") sampleNow rfl rfl
  have run : ((requests sampleSettings).machine ⟨sampleDatabase, false⟩).Run _ _
      ⟨⟨sampleDatabase, true⟩, [.enroll (sampleRequest "web") (.cleared "web" false)]⟩ :=
    ((((((Machine.Run.nil ⟨⟨sampleDatabase, false⟩, []⟩).snoc (Steps.call rfl)).snoc
      (Steps.first locks)).snoc
      (Steps.first (enter _ .locked .validated nofun rfl nofun))).snoc
      (Steps.first (enter _ .validated (.resolved "web") nofun rfl nofun))).snoc
      (Steps.first (enter _ (.resolved "web") (.proving "web" (sampleAgent "web")) nofun rfl nofun))).snoc
      (Steps.first (enter _ (.proving "web" (sampleAgent "web")) (.cleared "web" false) nofun rfl nofun))
  have revoking := ((run.snoc (@Steps.call _ _ _ (requests sampleSettings) _ _ (.revoke "web" .checking) rfl)).snoc
    (Steps.first (P := requests sampleSettings) .revokeChecks)).snoc (Steps.first .revokeUpdates)
  have writing : ((requests sampleSettings).machine ⟨sampleDatabase, false⟩).Run _ _
      ⟨_, [.enroll (sampleRequest "web") (.written "web" false)]⟩ :=
    (((Machine.Run.nil _).snoc
      (Steps.first (enter ⟨revokeAgent sampleDatabase "web", true⟩ (.cleared "web" false)
        (.admitted "web" false) nofun rfl nofun))).snoc
      (Steps.first (enter _ (.admitted "web" false) (.claimed "web" false) nofun rfl nofun))).snoc
      (Steps.first (enter _ (.claimed "web" false) (.written "web" false) nofun rfl nofun))
  obtain ⟨a, ha, hrev⟩ := (hlaw _ _ _ "web" _ _ _ revoking
    (Steps.first_ends .revokeReturns) writing
    (by simp [Lifts])).revoked
  have : a = ⟨"web", none, none, none, "online", some 500, some "#new", some "ip", none, false⟩ :=
    Option.some.inj (ha.symm.trans (by decide))
  simp [this] at hrev

end Enrollment
