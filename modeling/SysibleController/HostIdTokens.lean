import SysibleController.EnrollmentGuard

/-! Which ids come into the `agents` table: the check of `enroll` looks at the id without the white
space around it, and the id that is stored is the one that was sent, an earlier binding of the
token, or the id of an adopted row. -/
namespace Enrollment

open KeyedTable PythonText TransitionSystem

/-- A nonempty token of letters, digits, dots, underscores and dashes that is not reserved. -/
structure SafeHostId (cfg : Settings) (hostId : String) : Prop where
  nonempty : hostId ≠ ""
  unreserved : hostId ∉ reservedHostIds
  characters : ∀ c ∈ hostId.toList, cfg.isAlnum c = true ∨ c ∈ "._-".toList

/-- What every request has to keep: the ids of the rows and those that tokens are bound to. -/
structure SafeIds (cfg : Settings) (db : Database) : Prop where
  agents : ∀ hostId a, db.agents.find hostId = some a → SafeHostId cfg hostId
  tokens : ∀ token row bound, db.enrollTokens.find token = some row →
    row.boundHostId = some bound → bound = "" ∨ SafeHostId cfg bound

/-- The request gets past every guard and stores the id that it sent in a row of its own. -/
structure StoresOwnId (cfg : Settings) (db : Database) (req : EnrollRequest)
    (env : Surroundings) : Prop where
  checked : validHostId cfg req.hostId = true
  gate : env.gate = none
  token : validateEnrollToken cfg db req.token env.now = true
  unbound : resolveEnrollTokenHost cfg db req.token req.hostId = req.hostId
  absent : db.agents.find req.hostId = none
  notAdopted : findSupersedableAgent cfg db req.hostname req.ip req.hostId env.now = none
  admitted : enforceHostLimit cfg db req.hostId = none

/-- An id that is stored as it was sent is not blank and has no white space around it. -/
def PlainOwnId (cfg : Settings) (db : Database) : Operation → Prop
  | .enroll req env => StoresOwnId cfg db req env → req.hostId ≠ "" ∧ strip req.hostId = req.hostId
  | _ => True

variable {cfg : Settings} {start db : Database} {req : EnrollRequest} {env : Surroundings}

theorem safe_of_checked (hchecked : validHostId cfg req.hostId = true) (hne : req.hostId ≠ "")
    (hstrip : strip req.hostId = req.hostId) : SafeHostId cfg req.hostId := by
  simp only [validHostId, hstrip, Bool.or_eq_true, decide_eq_true_eq, Bool.and_eq_true,
    Bool.not_eq_true', List.all_eq_true, List.contains_iff_mem, hne, false_or] at hchecked
  refine ⟨hne, ?_, hchecked.2⟩
  intro hmem
  rw [← List.contains_iff_mem, hchecked.1] at hmem
  cases hmem

/-! ### The statements -/

/-- The rows may change but for new ids, which must be safe; and so the bindings. -/
theorem SafeIds.change {db' : Database} (h : SafeIds cfg db)
    (hagents : ∀ hostId a, db'.agents.find hostId = some a →
      db.agents.find hostId ≠ none ∨ SafeHostId cfg hostId)
    (htokens : ∀ token row bound, db'.enrollTokens.find token = some row →
      row.boundHostId = some bound → (∃ row', db.enrollTokens.find token = some row' ∧
        row'.boundHostId = some bound) ∨ SafeHostId cfg bound) : SafeIds cfg db' := by
  constructor
  · intro hostId a ha
    rcases hagents hostId a ha with hrow | hsafe
    · obtain ⟨a', ha'⟩ := Option.ne_none_iff_exists'.mp hrow
      exact h.agents hostId a' ha'
    · exact hsafe
  · intro token row bound hrow hbound
    rcases htokens token row bound hrow hbound with ⟨row', hrow', hbound'⟩ | hsafe
    · exact h.tokens token row' bound hrow' hbound'
    · exact .inr hsafe

theorem SafeIds.agentsOnly {db' : Database} (h : SafeIds cfg db)
    (hagents : ∀ hostId a, db'.agents.find hostId = some a →
      db.agents.find hostId ≠ none ∨ SafeHostId cfg hostId)
    (hsame : db'.enrollTokens = db.enrollTokens) : SafeIds cfg db' := by
  refine h.change hagents ?_
  intro token row bound hrow hbound
  rw [hsame] at hrow
  exact .inl ⟨row, hrow, hbound⟩

theorem SafeIds.update (h : SafeIds cfg db) (hostId : String) (f : Agent → Agent)
    (hf : ∀ r, (f r).hostId = r.hostId) :
    SafeIds cfg { db with agents := db.agents.update hostId f hf } := by
  refine h.agentsOnly ?_ rfl
  intro j a ha
  rw [Table.find_update] at ha
  refine .inl fun hnone => ?_
  rw [hnone] at ha
  split at ha <;> cases ha

theorem SafeIds.delete (h : SafeIds cfg db) (hostId : String) :
    SafeIds cfg (deleteAgent db hostId) := by
  refine h.agentsOnly ?_ rfl
  intro j a ha
  simp only [deleteAgent, Table.find_deleteWhere, Option.filter_eq_some_iff] at ha
  exact .inl fun hnone => by rw [hnone] at ha; cases ha.1

theorem SafeIds.deleteTokens (h : SafeIds cfg db) (p : EnrollToken → Bool) :
    SafeIds cfg { db with enrollTokens := db.enrollTokens.deleteWhere p } := by
  refine h.change (fun _ _ ha => .inl (by rw [ha]; exact nofun)) ?_
  intro token row bound hrow hbound
  simp only [Table.find_deleteWhere, Option.filter_eq_some_iff] at hrow
  exact .inl ⟨row, hrow.1, hbound⟩

theorem SafeIds.insert (h : SafeIds cfg db) {row : EnrollToken}
    (hrow : ∀ bound, row.boundHostId = some bound → SafeHostId cfg bound) :
    SafeIds cfg (insertToken db row) := by
  rw [insertToken]
  split
  · exact h
  · refine h.change (fun _ _ ha => .inl (by rw [ha]; exact nofun)) ?_
    intro token row' bound hfind hbound
    rw [Table.find_put] at hfind
    split at hfind
    · rw [Option.some.injEq] at hfind
      exact .inr (hrow bound (by rw [hfind]; exact hbound))
    · exact .inl ⟨row', hfind, hbound⟩

theorem SafeIds.create (h : SafeIds cfg db) {hostId : String} (hsafe : SafeHostId cfg hostId)
    (hostname platform kernel : Option String) (status : String) (lastSeen : ℚ)
    (agentSecret : String) (ip : Option String) :
    SafeIds cfg (createOrUpdateAgent cfg db hostId hostname platform kernel status lastSeen
      agentSecret ip) := by
  refine h.agentsOnly ?_ rfl
  intro j a ha
  by_cases hj : j = hostId
  · exact .inr (hj ▸ hsafe)
  · rw [createOrUpdateAgent, Table.find_put, if_neg hj] at ha
    left
    rw [ha]
    exact Option.some_ne_none _

theorem SafeIds.consume (h : SafeIds cfg db) {token hostId : String} {now : ℚ} {db' : Database}
    (hsafe : SafeHostId cfg hostId) (hdb : consumeEnrollToken cfg db token hostId now = some db') :
    SafeIds cfg db' := by
  unfold consumeEnrollToken at hdb
  split at hdb
  · cases hdb
  · split at hdb
    · rw [← Option.some.inj hdb]
      refine h.change (fun _ _ ha => .inl ?_) ?_
      · rw [ha]
        exact Option.some_ne_none _
      intro t row bound hfind hbound
      rw [Table.find_update] at hfind
      split at hfind
      · obtain ⟨row', -, rfl⟩ := Option.map_eq_some_iff.mp hfind
        rw [Option.some.injEq] at hbound
        exact .inr (hbound ▸ hsafe)
      · exact .inl ⟨row, hfind, hbound⟩
    · cases hdb

/-! ### A call, step by step -/

/-- The guards that a call has passed when it has resolved its id. -/
structure Passed (cfg : Settings) (start : Database) (req : EnrollRequest)
    (env : Surroundings) : Prop where
  checked : validHostId cfg req.hostId = true
  gate : env.gate = none
  token : validateEnrollToken cfg start req.token env.now = true

/-- What a call knows at each of its points about the id it is going to store. -/
def IdFacts (cfg : Settings) (start : Database) (req : EnrollRequest) (env : Surroundings)
    (db : Database) : EnrollPhase → Prop
  | .waiting => db = start
  | .locked => db = start ∧ validHostId cfg req.hostId = true ∧ env.gate = none
  | .validated => db = start ∧ Passed cfg start req env
  | .resolved hostId => db = start ∧ Passed cfg start req env ∧
    hostId = resolveEnrollTokenHost cfg start req.token req.hostId
  | .unknown hostId => db = start ∧ Passed cfg start req env ∧
    hostId = resolveEnrollTokenHost cfg start req.token req.hostId ∧
    start.agents.find hostId = none
  | .proving hostId _ | .unproven hostId _ => db = start ∧ SafeHostId cfg hostId
  | .upgrading hostId => db = start ∧ SafeHostId cfg hostId
  | .cleared hostId _ => SafeIds cfg db ∧ (SafeHostId cfg hostId ∨ db = start ∧
    hostId = req.hostId ∧ (enforceHostLimit cfg start hostId = none →
      StoresOwnId cfg start req env))
  | .admitted hostId _ | .claimed hostId _ | .written hostId _ | .placing hostId _ =>
    SafeIds cfg db ∧ SafeHostId cfg hostId
  | .returned _ => SafeIds cfg db

theorem guardExisting_ids (h : SafeIds cfg start) {hostId : String} {existing : Agent}
    (hrow : start.agents.find hostId = some existing) :
    IdFacts cfg start req env start (guardExisting req hostId existing) := by
  have hsafe := h.agents hostId existing hrow
  unfold guardExisting
  split
  · exact h
  · split
    · exact ⟨rfl, hsafe⟩
    · exact ⟨rfl, hsafe⟩

/-- The resolved id is a binding of the token or the one that was sent. -/
theorem resolved_id (req : EnrollRequest) (h : SafeIds cfg start) :
    SafeHostId cfg (resolveEnrollTokenHost cfg start req.token req.hostId) ∨
      resolveEnrollTokenHost cfg start req.token req.hostId = req.hostId := by
  unfold resolveEnrollTokenHost
  split
  next => exact .inr rfl
  next bound hbound =>
    split
    next => exact .inr rfl
    next hne =>
      obtain ⟨row, hrow, hbound⟩ := Option.bind_eq_some_iff.mp hbound
      exact .inl ((h.tokens _ row bound hrow hbound).resolve_left hne)

theorem enrollStep_ids (hstart : SafeIds cfg start)
    (hown : StoresOwnId cfg start req env → req.hostId ≠ "" ∧ strip req.hostId = req.hostId)
    (db : Database) (phase : EnrollPhase) (h : IdFacts cfg start req env db phase) :
    IdFacts cfg start req env (enrollStep cfg req env db phase).1
      (enrollStep cfg req env db phase).2 := by
  cases phase with
  | waiting =>
    obtain rfl : db = start := h
    simp only [enrollStep]
    split
    · exact hstart
    next hchecked =>
      split
      · exact hstart
      next hgate => exact ⟨rfl, by simpa using hchecked, hgate⟩
  | locked =>
    obtain ⟨rfl, hchecked, hgate⟩ := h
    simp only [enrollStep]
    split
    next htoken => exact ⟨rfl, hchecked, hgate, htoken⟩
    · exact hstart
  | validated =>
    obtain ⟨rfl, hpassed⟩ := h
    exact ⟨rfl, hpassed, rfl⟩
  | resolved hostId =>
    obtain ⟨rfl, hpassed, hid⟩ := h
    simp only [enrollStep]
    split
    next existing hrow => exact guardExisting_ids hstart hrow
    next hnone => exact ⟨rfl, hpassed, hid, hnone⟩
  | unknown hostId =>
    obtain ⟨rfl, hpassed, hid, hnone⟩ := h
    simp only [enrollStep]
    split
    next dup hdup => exact guardExisting_ids hstart (supersedable_row hdup).1
    next hdup =>
      refine ⟨hstart, ?_⟩
      rcases resolved_id req hstart with hsafe | hsame
      · exact .inl (hid ▸ hsafe)
      · rw [hsame] at hid
        subst hid
        exact .inr ⟨rfl, rfl, fun hlimit =>
          ⟨hpassed.checked, hpassed.gate, hpassed.token, hsame, hnone, hdup, hlimit⟩⟩
  | proving hostId existing =>
    obtain ⟨rfl, hsafe⟩ := h
    simp only [enrollStep]
    split
    · exact ⟨rfl, hsafe⟩
    · exact ⟨hstart, .inl hsafe⟩
    · exact ⟨rfl, hsafe⟩
  | upgrading hostId =>
    obtain ⟨rfl, hsafe⟩ := h
    exact ⟨hstart.update _ _ _, .inl hsafe⟩
  | unproven hostId existing =>
    obtain ⟨rfl, hsafe⟩ := h
    simp only [enrollStep]
    split
    · exact ⟨hstart, .inl hsafe⟩
    · split
      · exact hstart
      · exact hstart
  | cleared hostId fresh =>
    obtain ⟨hids, hsafe⟩ := h
    simp only [enrollStep]
    split
    · exact hids
    next hlimit =>
      refine ⟨hids, ?_⟩
      rcases hsafe with hsafe | ⟨rfl, rfl, hstores⟩
      · exact hsafe
      · obtain ⟨hne, hstrip⟩ := hown (hstores hlimit)
        exact safe_of_checked (hstores hlimit).checked hne hstrip
  | admitted hostId fresh =>
    obtain ⟨hids, hsafe⟩ := h
    simp only [enrollStep]
    split
    next db' hconsume => exact ⟨hids.consume hsafe hconsume, hsafe⟩
    · exact hids
  | claimed hostId fresh => exact ⟨h.1.create h.2 .., h.2⟩
  | written hostId fresh =>
    simp only [enrollStep]
    split
    · exact h
    · exact h.1
  | placing hostId environment => exact h.1.update _ _ _
  | returned result => exact h

/-! ### Runs -/

theorem SafeIds.enroll (h : SafeIds cfg db)
    (hown : StoresOwnId cfg db req env → req.hostId ≠ "" ∧ strip req.hostId = req.hostId) :
    SafeIds cfg (Enrollment.enroll cfg req env db).1 := by
  obtain ⟨result, hreturned⟩ := enroll_returns cfg req env db
  have hfacts := enroll_rule (P := IdFacts cfg db req env) rfl (enrollStep_ids h hown)
  rw [hreturned] at hfacts
  exact hfacts

/-- The check of a secret re-stores it at most. -/
theorem SafeIds.verify (h : SafeIds cfg db) (hostId secret : String) :
    SafeIds cfg (verifyAgent cfg db hostId secret).2 := by
  have hmatches : SafeIds cfg (agentSecretMatches cfg db hostId secret).2 := by
    unfold agentSecretMatches
    split
    · exact h
    · exact h
    · exact h.update _ _ _
  unfold verifyAgent
  split
  · exact h
  · split
    · exact h
    · split
      next db' hsome =>
        rw [hsome] at hmatches
        exact hmatches
      next db' hsome =>
        rw [hsome] at hmatches
        exact hmatches

theorem SafeIds.apply (h : SafeIds cfg db) {op : Operation} (hop : PlainOwnId cfg db op) :
    SafeIds cfg (Enrollment.apply cfg db op) := by
  cases op with
  | enroll req env => exact h.enroll hop
  | generateToken token environment now =>
    simp only [Enrollment.apply]
    split
    · exact h
    · exact h.insert fun _ hbound => by cases hbound
  | reissueToken hostId token now =>
    simp only [Enrollment.apply, reissueToken]
    split
    · exact h
    · split
      · exact h
      next a ha =>
        apply h.insert
        intro bound hbound
        rw [Option.some.injEq] at hbound
        exact hbound ▸ h.agents _ a ha
  | purgeTokens => exact h.deleteTokens _
  | selfDisenroll path hostId secret =>
    simp only [Enrollment.apply, selfDisenroll]
    split
    · exact h
    · have hverified := h.verify hostId secret
      split
      next db' hok =>
        rw [hok] at hverified
        exact hverified.delete _
      next error db' herror =>
        rw [herror] at hverified
        exact hverified
  | removeAgent hostId purge =>
    simp only [Enrollment.apply, removeAgent, invalidateEnrollTokensForHost]
    split
    · split
      · exact h.delete _
      · exact (h.delete _).deleteTokens _
    · exact h.delete _
  | revoke hostId =>
    simp only [Enrollment.apply]
    split
    · exact h.update _ _ _
    · exact h
  | restore hostId =>
    simp only [Enrollment.apply]
    split
    · exact h.update _ _ _
    · exact h

def noDatabase : Database := ⟨Table.empty, Table.empty⟩

theorem safeIds_noDatabase : SafeIds cfg noDatabase := by
  constructor
  · intro hostId a hfind
    cases (Table.find_empty hostId).symm.trans hfind
  · intro token row bound hfind
    cases (Table.find_empty token).symm.trans hfind

/-- In every run of requests, from empty tables, whose enrollments store no blank or padded id of
their own, every row has a safe id. -/
theorem stored_ids_safe {log : List Operation} {db : Database}
    (hrun : ((operations cfg noDatabase).restrict (PlainOwnId cfg)).Run noDatabase log db) :
    ∀ a ∈ db.agents.rows, SafeHostId cfg a.hostId := by
  have hids : SafeIds cfg db := hrun.invariant
    (fun _ _ _ hstep h => by
      obtain ⟨hplain, rfl⟩ := hstep
      exact h.apply hplain)
    safeIds_noDatabase
  intro a ha
  exact hids.agents a.hostId a (Table.find_eq_some.mpr ⟨ha, rfl⟩)

def mint : Operation := .generateToken "t" "" 0

def enrollAs (hostId : String) : Operation := .enroll (sampleRequest hostId) sampleNow

def enrolledAs (hostId : String) : Agent :=
  ⟨hostId, none, none, none, "online", some 500, some "#new", some "ip", none, false⟩

def mintedDatabase : Database := apply sampleSettings noDatabase mint

theorem web_is_safe : SafeHostId sampleSettings "web" := by
  have hmint : ((operations sampleSettings noDatabase).restrict (PlainOwnId sampleSettings)).Run
      noDatabase [mint] mintedDatabase := (Machine.Run.nil noDatabase).snoc ⟨trivial, rfl⟩
  have hplain : PlainOwnId sampleSettings mintedDatabase (enrollAs "web") := fun _ => by decide
  have hrow : (apply sampleSettings mintedDatabase (enrollAs "web")).agents.find "web" =
      some (enrolledAs "web") := by decide +kernel
  exact stored_ids_safe (hmint.snoc ⟨hplain, rfl⟩) _ (Table.find_eq_some.mp hrow).1

theorem padded_id_enrolls : ¬∀ (cfg : Settings) (log : List Operation) (db : Database),
    (operations cfg noDatabase).Run noDatabase log db →
      ∀ a ∈ db.agents.rows, SafeHostId cfg a.hostId := by
  intro h
  have hmint : (operations sampleSettings noDatabase).Run noDatabase [mint] mintedDatabase :=
    (Machine.Run.nil noDatabase).snoc rfl
  have hrow : (apply sampleSettings mintedDatabase (enrollAs " ")).agents.find " " =
      some (enrolledAs " ") := by decide +kernel
  have hsafe := h sampleSettings [mint, enrollAs " "] _ (hmint.snoc rfl) _
    (Table.find_eq_some.mp hrow).1
  exact absurd (hsafe.characters ' ' (by decide)) (by decide)

end Enrollment
