import SysibleController.KeyedTable
import SysibleController.PythonText
import SysibleController.Interleaving

/-! The SSH inventory, `hosts.json`, and the calls that change it (`remote_routes.py`). Two of
them look for an owner of the IP first, on a read of their own, and save later under the lock; the
other calls are one locked step. The order of the records plays no part. -/
namespace HostRecords

open KeyedTable PythonText TransitionSystem Interleaving

structure HostRecord where
  name : String
  ip : Option String
  user : String
  environment : String
  relay : Option String
  deriving DecidableEq

abbrev Hosts := Table HostRecord.name

/-- A row of `list_agents`. -/
structure AgentRow where
  hostId : String
  hostname : Option String
  ip : Option String

/-- `_norm_ip` -/
def normIp (ip : Option String) : String := strip (ip.getD "")

/-- What a request names as an address; its model lets no blank one pass. -/
structure Address where
  text : String
  nonblank : strip text ≠ ""

instance : DecidableEq Address := fun a b =>
  decidable_of_iff (a.text = b.text) ⟨fun h => by cases a; cases b; simp_all, fun h => h ▸ rfl⟩

def Address.norm (a : Address) : String := strip a.text

/-- The body of `add_host` or `enroll_ssh`. -/
structure HostRequest where
  name : String
  ip : Address
  user : String
  environment : String
  relay : String
  deriving DecidableEq

def HostRequest.record (body : HostRequest) : HostRecord :=
  ⟨body.name, some body.ip.text, body.user, body.environment,
    if body.relay = "" then none else some body.relay⟩

/-- The record of another name at this IP: the first half of `_ip_owner`. -/
def hostOwner (hosts : Hosts) (ip exclude : String) : Option String :=
  (hosts.rows.find? fun h => h.name ≠ exclude && normIp h.ip = ip).map HostRecord.name

def AgentRow.owner (a : AgentRow) : String :=
  if a.hostname.getD "" = "" then a.hostId else a.hostname.getD ""

/-- `_ip_owner`; a listing of the agents that fails is passed over. -/
def ipOwner (hosts : Hosts) (agents : Option (List AgentRow)) (ip : Option String)
    (exclude : String) : Option String :=
  if normIp ip = "" then none
  else match hostOwner hosts (normIp ip) exclude with
    | some owner => some owner
    | none =>
      ((agents.getD []).find? fun a => a.owner ≠ exclude && normIp a.ip = normIp ip).map
        AgentRow.owner

/-! ## The calls -/

inductive Route where
  | addHost
  | enrollSsh
  deriving DecidableEq

inductive Phase where
  | limiting
  | checking
  | connecting
  | saving
  deriving DecidableEq

inductive Call where
  | save (route : Route) (body : HostRequest) (phase : Phase)
  | register (name : String) (ip : Address) (environment : String)
  | delete (name : String)
  | forget (name ip : Option String) (matchAll : Bool)
  deriving DecidableEq

inductive Outcome where
  | silent
  | refused (e : HTTPException)
  | done
  | failed
  deriving DecidableEq

/-- What a step takes from outside: whether one more host is allowed, the agents, how the SSH
connection ends, and whether the file can be written. -/
structure Env where
  limit : Option HTTPException
  agents : Option (List AgentRow)
  connection : Option HTTPException
  saved : Bool

def managedAs (route : Route) (ip owner : String) : HTTPException :=
  match route with
  | .addHost => ⟨409, s!"{ip} is already managed as '{owner}'."⟩
  | .enrollSsh => ⟨409, s!"{ip} is already managed as '{owner}'. Remove that host " ++
      "first if you want to re-enroll it under a different name."⟩

abbrev Next (φ : Type) := Hosts × Outcome × Option φ

/-- The last step of every call: the changed inventory is written, or not. -/
def saveHosts (env : Env) (hosts hosts' : Hosts) : Next Call :=
  if env.saved then (hosts', .done, none) else (hosts, .failed, none)

/-- `add_host`, and `enroll_ssh` with its connection in between. -/
def saveStep (env : Env) (hosts : Hosts) (route : Route) (body : HostRequest) : Phase → Next Call
  | .limiting =>
    match env.limit with
    | some e => (hosts, .refused e, none)
    | none => (hosts, .silent, some (.save route body .checking))
  | .checking =>
    let owner := (ipOwner hosts env.agents (some body.ip.text) body.name).getD ""
    if owner = "" then
      (hosts, .silent,
        some (.save route body (if route = .enrollSsh then .connecting else .saving)))
    else (hosts, .refused (managedAs route body.ip.text owner), none)
  | .connecting =>
    match env.connection with
    | some e => (hosts, .refused e, none)
    | none => (hosts, .silent, some (.save route body .saving))
  | .saving => saveHosts env hosts (hosts.put body.record)

/-- The record of an agent host that accepts the controller key. -/
def agentRecord (name : String) (ip : Address) (environment : String) : HostRecord :=
  ⟨name, some ip.text, "root", environment, none⟩

/-- `register_agent_ssh_host` -/
def registerAgentSshHost (env : Env) (hosts : Hosts) (name : String) (ip : Address)
    (environment : String) : Next Call :=
  if (hostOwner hosts ip.norm name).isSome then (hosts, .done, none)
  else saveHosts env hosts (hosts.put (agentRecord name ip environment))

/-- The records that `forget_agent_ssh_host` removes. -/
def victim (name ip : Option String) (matchAll : Bool) (h : HostRecord) : Bool :=
  let named := name.getD "" ≠ "" && some h.name = name
  let there := normIp ip ≠ "" && normIp h.ip = normIp ip
  if matchAll then named && there else named || there

def forgetAgentSshHost (env : Env) (hosts : Hosts) (name ip : Option String) (matchAll : Bool) :
    Next Call :=
  if hosts.rows.any (victim name ip matchAll) then
    saveHosts env hosts (hosts.deleteWhere (victim name ip matchAll))
  else (hosts, .done, none)

def hostStep (env : Env) (hosts : Hosts) : Call → Next Call
  | .save route body phase => saveStep env hosts route body phase
  | .register name ip environment => registerAgentSshHost env hosts name ip environment
  | .delete name => saveHosts env hosts (hosts.deleteWhere fun h => h.name = name)
  | .forget name ip matchAll => forgetAgentSshHost env hosts name ip matchAll

/-- A name is not empty: the models of the requests and the caller of `register_agent_ssh_host`
see to it. -/
def Entry : Call → Prop
  | .save _ body phase => body.name ≠ "" ∧ phase = .limiting
  | .register name _ _ => name ≠ ""
  | _ => True

def inventory : Program Hosts Call Outcome where
  entry := Entry
  act hosts c e hosts' c' := ∃ env, hostStep env hosts c = (hosts', e, c')

abbrev Log := List (Event Call Outcome)

/-! ## One record for one machine -/

/-- The normalised IPs are not empty and pairwise distinct. -/
def OneRecord (hosts : Hosts) : Prop :=
  (hosts.rows.map fun h => normIp h.ip).Nodup ∧ ∀ h ∈ hosts.rows, normIp h.ip ≠ ""

/-- The record that a call is about to save, if it saves one. -/
def Call.saves : Call → Option HostRecord
  | .save _ body .saving => some body.record
  | .register name ip environment => some (agentRecord name ip environment)
  | _ => none

/-- A route saves its record into an inventory in which the look for an owner would still find
no other record. -/
def StillFree (p : Pool Hosts Call) : Event Call Outcome → Prop
  | .act (.save _ body .saving) .done => hostOwner p.shared body.ip.norm body.name = none
  | _ => True

variable {hosts hosts' : Hosts} {ip exclude name : String} {r h : HostRecord} {env : Env}

theorem hostOwner_none : hostOwner hosts ip exclude = none ↔
    ∀ h ∈ hosts.rows, normIp h.ip = ip → h.name = exclude := by
  simp only [hostOwner, Option.map_eq_none_iff, List.find?_eq_none, Bool.and_eq_true,
    decide_eq_true_eq, not_and, ne_eq]
  exact ⟨fun h x hx hip => by_contra fun hne => h x hx hne hip, fun h x hx hne hip => hne (h x hx hip)⟩

/-- The same, said of two records. -/
theorem oneRecord_iff : OneRecord hosts ↔
    (∀ h ∈ hosts.rows, ∀ h' ∈ hosts.rows, normIp h.ip = normIp h'.ip → h.name = h'.name) ∧
      ∀ h ∈ hosts.rows, normIp h.ip ≠ "" := by
  refine and_congr_left fun _ => ?_
  constructor
  · intro hnd h hh h' hh' hip
    rw [List.inj_on_of_nodup_map hnd hh hh' hip]
  · intro hname
    refine (hosts.unique.of_map _).map_on ?_
    intro h hh h' hh' hip
    exact List.inj_on_of_nodup_map hosts.unique hh hh' (hname h hh h' hh' hip)

theorem mem_put : h ∈ (hosts.put r).rows ↔ (h ∈ hosts.rows ∧ h.name ≠ r.name) ∨ h = r := by
  simp [Table.put]

theorem put_oneRecord_iff (hone : OneRecord hosts) (hr : normIp r.ip ≠ "") :
    OneRecord (hosts.put r) ↔ hostOwner hosts (normIp r.ip) r.name = none := by
  rw [oneRecord_iff] at hone ⊢
  rw [hostOwner_none]
  constructor
  · rintro ⟨hname, -⟩ h hh hip
    by_contra hne
    exact hne (hname h (mem_put.mpr (.inl ⟨hh, hne⟩)) r (mem_put.mpr (.inr rfl)) hip)
  · intro hfree
    refine ⟨?_, ?_⟩
    · intro h hh h' hh' hip
      rcases mem_put.mp hh with ⟨hold, hne⟩ | hnew <;>
        rcases mem_put.mp hh' with ⟨hold', hne'⟩ | hnew'
      · exact hone.1 h hold h' hold' hip
      · exact absurd (hfree h hold (hnew' ▸ hip)) hne
      · exact absurd (hfree h' hold' (hnew ▸ hip.symm)) hne'
      · rw [hnew, hnew']
    · intro h hh
      rcases mem_put.mp hh with ⟨hh, -⟩ | rfl
      · exact hone.2 h hh
      · exact hr

theorem deleteWhere_oneRecord (hone : OneRecord hosts) (p : HostRecord → Bool) :
    OneRecord (hosts.deleteWhere p) :=
  ⟨hone.1.sublist (List.filter_sublist.map _), fun h hh => hone.2 h (List.mem_of_mem_filter hh)⟩

theorem saveHosts_oneRecord (hone : OneRecord hosts) (h : OneRecord hosts') :
    OneRecord (saveHosts env hosts hosts').1 := by
  unfold saveHosts
  split_ifs
  · exact h
  · exact hone

theorem register_oneRecord {addr : Address} {environment : String} (hone : OneRecord hosts) :
    OneRecord (registerAgentSshHost env hosts name addr environment).1 := by
  unfold registerAgentSshHost
  split_ifs with howner
  · exact hone
  · have hput := put_oneRecord_iff (r := agentRecord name addr environment) hone addr.nonblank
    have hfree : hostOwner hosts addr.norm name = none := by simpa using howner
    exact saveHosts_oneRecord hone (hput.mpr hfree)

/-- A step keeps the records apart exactly when it is not the save of a route that comes too
late. -/
theorem hostStep_oneRecord_iff {c : Call} (hone : OneRecord hosts) :
    OneRecord (hostStep env hosts c).1 ↔
      ∀ route body, c = .save route body .saving → (hostStep env hosts c).2.1 = .done →
        hostOwner hosts body.ip.norm body.name = none := by
  cases c with
  | save route body phase =>
    cases phase with
    | limiting =>
      have hsame : (hostStep env hosts (.save route body .limiting)).1 = hosts := by
        simp only [hostStep, saveStep]
        split <;> rfl
      simp [hsame, hone]
    | checking =>
      have hsame : (hostStep env hosts (.save route body .checking)).1 = hosts := by
        simp only [hostStep, saveStep]
        split <;> rfl
      simp [hsame, hone]
    | connecting =>
      have hsame : (hostStep env hosts (.save route body .connecting)).1 = hosts := by
        simp only [hostStep, saveStep]
        split <;> rfl
      simp [hsame, hone]
    | saving =>
      have hput := put_oneRecord_iff (r := body.record) hone body.ip.nonblank
      simp only [hostStep, saveStep, saveHosts]
      split_ifs
      · rw [hput]
        constructor
        · rintro hfree route' body' heq -
          obtain ⟨-, rfl⟩ : route = route' ∧ body = body' := by simpa using heq
          exact hfree
        · exact fun h => h route body rfl rfl
      · simp [hone]
  | register name addr environment => simpa [hostStep] using register_oneRecord hone
  | delete name =>
    simpa [hostStep] using saveHosts_oneRecord hone (deleteWhere_oneRecord hone _)
  | forget name addr matchAll =>
    have hkept : OneRecord (forgetAgentSshHost env hosts name addr matchAll).1 := by
      unfold forgetAgentSshHost
      split_ifs
      · exact saveHosts_oneRecord hone (deleteWhere_oneRecord hone _)
      · exact hone
    simpa [hostStep] using hkept

variable {p q : Pool Hosts Call} {e : Event Call Outcome} {log : Log}

theorem step_oneRecord_iff (hone : OneRecord p.shared) (st : Steps inventory p e q) :
    OneRecord q.shared ↔ StillFree p e := by
  cases st with
  | call hentry => simpa [StillFree] using hone
  | @act s s' pre post c c' o hact =>
    obtain ⟨env, hstep⟩ := hact
    have hs' : (hostStep env s c).1 = s' := by rw [hstep]
    have ho : (hostStep env s c).2.1 = o := by rw [hstep]
    rw [← hs', ← ho, hostStep_oneRecord_iff hone]
    constructor
    · intro h
      cases c with
      | save route body phase =>
        cases phase with
        | saving =>
          cases hdone : (hostStep env s (.save route body .saving)).2.1 with
          | done => exact h route body rfl hdone
          | _ => trivial
        | _ => trivial
      | _ => trivial
    · rintro h route body rfl hdone
      rw [hdone] at h
      exact h

/-- From an inventory with one record for each machine: it stays so in every run in which each
route saves into an inventory without another record at its IP, and the first save that does not
ends it. -/
theorem one_record_iff (hosts : Hosts) (hone : OneRecord hosts) :
    (∀ log p, ((inventory.machine hosts).restrict StillFree).Run (inventory.machine hosts).start
      log p → OneRecord p.shared) ∧
    ∀ log p e q, ((inventory.machine hosts).restrict StillFree).Run (inventory.machine hosts).start
      log p → Steps inventory p e q → (OneRecord q.shared ↔ StillFree p e) := by
  have hrun : ∀ log p, ((inventory.machine hosts).restrict StillFree).Run
      (inventory.machine hosts).start log p → OneRecord p.shared := by
    intro log p h
    refine h.invariant (P := fun p : Pool Hosts Call => OneRecord p.shared) ?_ hone
    rintro p e q ⟨hfree, st⟩ hp
    exact (step_oneRecord_iff hp st).mpr hfree
  exact ⟨hrun, fun log p e q h st => step_oneRecord_iff (hrun log p h) st⟩

def webRecord : HostRecord := ⟨"web-01", some "10.0.0.5", "root", "", none⟩

def oneHost : Hosts := ⟨[webRecord], by simp⟩

theorem oneHost_one_record : OneRecord oneHost := by
  unfold OneRecord
  decide

theorem one_record_iff_one_host :
    (∀ log p, ((inventory.machine oneHost).restrict StillFree).Run
      (inventory.machine oneHost).start log p → OneRecord p.shared) ∧
    ∀ log p e q, ((inventory.machine oneHost).restrict StillFree).Run
      (inventory.machine oneHost).start log p → Steps inventory p e q →
        (OneRecord q.shared ↔ StillFree p e) :=
  one_record_iff oneHost oneHost_one_record

def addRequest (name : String) (named : name ≠ "") : Call :=
  .save .addHost ⟨name, ⟨"10.0.0.5", by decide⟩, "root", "", ""⟩ .limiting

def quietEnv : Env := ⟨none, some [], none, true⟩

/-- Two requests look for an owner of the same IP before either of them saves. -/
def twoRequests : List (Choice Call Env) :=
  [.call (addRequest "web-01" (by decide)), .call (addRequest "web-02" (by decide)),
    .act 0 quietEnv, .act 0 quietEnv, .act 1 quietEnv, .act 1 quietEnv, .act 0 quietEnv,
    .act 0 quietEnv]

/-- Both of them are answered with success, and the machine has two records. -/
theorem two_requests_two_records : ∃ hosts log p, OneRecord hosts ∧
    (inventory.machine hosts).Run (inventory.machine hosts).start log p ∧
      ¬ OneRecord p.shared := by
  have hact : ∀ env s c, inventory.act s c (hostStep env s c).2.1 (hostStep env s c).1
      (hostStep env s c).2.2 := fun env s c => ⟨env, rfl⟩
  let start : Pool Hosts Call := ⟨.empty, []⟩
  have hplay := fun hcall => @plays_run Hosts Call Outcome inventory Env hostStep hact .empty
    twoRequests hcall start
  refine ⟨.empty, (plays hostStep twoRequests start).1, (plays hostStep twoRequests start).2,
    ⟨by simp [Table.empty], by simp [Table.empty]⟩, hplay ?_, ?_⟩
  · intro c hc
    have hcall : c = addRequest "web-01" (by decide) ∨ c = addRequest "web-02" (by decide) := by
      simpa [twoRequests] using hc
    rcases hcall with rfl | rfl <;> exact ⟨by decide, rfl⟩
  · unfold OneRecord
    decide

/-! ## Calls that keep apart -/

/-- Nobody saves a record at an IP while a call for a record of another name is past its look
for an owner of the same IP. -/
def Apart (p : Pool Hosts Call) : Event Call Outcome → Prop
  | .act c .done => ∀ r, c.saves = some r → ∀ route body phase,
      .save route body phase ∈ p.threads → phase = .connecting ∨ phase = .saving →
      body.name ≠ r.name → body.ip.norm ≠ normIp r.ip
  | _ => True

theorem hostOwner_put {r : HostRecord} (h : hostOwner hosts ip exclude = none)
    (hr : normIp r.ip = ip → r.name = exclude) : hostOwner (hosts.put r) ip exclude = none := by
  rw [hostOwner_none] at h ⊢
  intro x hx
  rcases mem_put.mp hx with ⟨hold, -⟩ | rfl
  · exact h x hold
  · exact hr

theorem hostOwner_deleteWhere (h : hostOwner hosts ip exclude = none) (d : HostRecord → Bool) :
    hostOwner (hosts.deleteWhere d) ip exclude = none := by
  rw [hostOwner_none] at h ⊢
  exact fun x hx => h x (List.mem_of_mem_filter hx)

/-- What a step does to the inventory: nothing, one record in the place of its name, or some
records less. -/
theorem hostStep_cases (env : Env) (hosts : Hosts) (c : Call) :
    (hostStep env hosts c).1 = hosts ∨
    (∃ r, c.saves = some r ∧ (hostStep env hosts c).2.1 = .done ∧
      (hostStep env hosts c).1 = hosts.put r) ∨
    ∃ d, (hostStep env hosts c).1 = hosts.deleteWhere d := by
  cases c with
  | save route body phase =>
    cases phase with
    | saving =>
      cases hsaved : env.saved with
      | true => exact .inr (.inl ⟨_, rfl, by simp [hostStep, saveStep, saveHosts, hsaved]⟩)
      | false => exact .inl (by simp [hostStep, saveStep, saveHosts, hsaved])
    | _ =>
      refine .inl ?_
      simp only [hostStep, saveStep]
      split <;> rfl
  | register name addr environment =>
    simp only [hostStep, registerAgentSshHost]
    split_ifs
    · exact .inl rfl
    · cases hsaved : env.saved with
      | true => exact .inr (.inl ⟨_, rfl, by simp [saveHosts, hsaved]⟩)
      | false => exact .inl (by simp [saveHosts, hsaved])
  | delete name =>
    cases hsaved : env.saved with
    | true => exact .inr (.inr ⟨fun h => h.name = name, by simp [hostStep, saveHosts, hsaved]⟩)
    | false => exact .inl (by simp [hostStep, saveHosts, hsaved])
  | forget name addr matchAll =>
    simp only [hostStep, forgetAgentSshHost]
    split_ifs
    · cases hsaved : env.saved with
      | true => exact .inr (.inr ⟨victim name addr matchAll, by simp [saveHosts, hsaved]⟩)
      | false => exact .inl (by simp [saveHosts, hsaved])
    · exact .inl rfl

/-- Names are not empty, and past its look for an owner a route has none. -/
def Looked (hosts : Hosts) : Call → Prop
  | .save _ body phase => body.name ≠ "" ∧ (phase = .connecting ∨ phase = .saving →
      hostOwner hosts body.ip.norm body.name = none)
  | .register name _ _ => name ≠ ""
  | _ => True

def Named (hosts : Hosts) : Prop := ∀ h ∈ hosts.rows, h.name ≠ ""

theorem looked_next {c c' : Call} (hnamed : Named hosts) (hc : Looked hosts c)
    (h : (hostStep env hosts c).2.2 = some c') : Looked (hostStep env hosts c).1 c' := by
  cases c with
  | save route body phase =>
    cases phase with
    | limiting =>
      simp only [hostStep, saveStep] at h ⊢
      split at h
      · cases h
      · obtain rfl := Option.some.inj h
        exact ⟨hc.1, by simp⟩
    | checking =>
      simp only [hostStep, saveStep] at h ⊢
      by_cases howner : (ipOwner hosts env.agents (some body.ip.text) body.name).getD "" = ""
      · rw [if_pos howner] at h ⊢
        obtain rfl := Option.some.inj h
        refine ⟨hc.1, fun _ => ?_⟩
        have hnorm : normIp (some body.ip.text) ≠ "" := body.ip.nonblank
        rw [ipOwner, if_neg hnorm] at howner
        cases hfound : hostOwner hosts body.ip.norm body.name with
        | none => rfl
        | some owner =>
          rw [show hostOwner hosts (normIp (some body.ip.text)) body.name = some owner from hfound]
            at howner
          obtain ⟨h, hh, rfl⟩ := Option.map_eq_some_iff.mp hfound
          exact absurd howner (hnamed h (List.mem_of_find?_eq_some hh))
      · rw [if_neg howner] at h
        cases h
    | connecting =>
      simp only [hostStep, saveStep] at h ⊢
      split at h
      · cases h
      · obtain rfl := Option.some.inj h
        exact ⟨hc.1, fun _ => hc.2 (.inl rfl)⟩
    | saving =>
      simp only [hostStep, saveStep, saveHosts] at h
      split_ifs at h
  | register name addr environment =>
    simp only [hostStep, registerAgentSshHost, saveHosts] at h
    split_ifs at h
  | delete name =>
    simp only [hostStep, saveHosts] at h
    split_ifs at h
  | forget name addr matchAll =>
    simp only [hostStep, forgetAgentSshHost, saveHosts] at h
    split_ifs at h

theorem saves_named {c : Call} (hc : Looked hosts c) (hr : c.saves = some r) : r.name ≠ "" := by
  cases c with
  | save route body phase =>
    cases phase with
    | saving =>
      obtain rfl := Option.some.inj hr
      exact hc.1
    | _ => cases hr
  | register name addr environment =>
    obtain rfl := Option.some.inj hr
    exact hc
  | _ => cases hr

theorem entry_looked {c : Call} (h : Entry c) : Looked hosts c := by
  cases c with
  | save route body phase =>
    obtain ⟨hname, rfl⟩ := h
    exact ⟨hname, by simp⟩
  | register name addr environment => exact h
  | _ => trivial

theorem apart_assertions : Assertions inventory Apart (fun hosts => OneRecord hosts ∧ Named hosts)
    Looked where
  entry _ _ _ h := entry_looked h
  act := by
    rintro s pre post c o s' c' hapart ⟨hone, hnamed⟩ hlooked ⟨env, hstep⟩
    have hown : Looked s c := hlooked c (by simp)
    have hs' : (hostStep env s c).1 = s' := by rw [hstep]
    have ho : (hostStep env s c).2.1 = o := by rw [hstep]
    have hc' : (hostStep env s c).2.2 = c' := by rw [hstep]
    have hone' : OneRecord s' := by
      rw [← hs', hostStep_oneRecord_iff hone]
      rintro route body rfl -
      exact hown.2 (.inr rfl)
    have hnext : ∀ x ∈ c', Looked s' x := by
      intro x hx
      rw [← hs']
      exact looked_next hnamed hown (hc'.trans hx)
    rcases hostStep_cases env s c with hsame | ⟨r, hr, hdone, hput⟩ | ⟨d, hdelete⟩
    · obtain rfl : s = s' := hsame.symm.trans hs'
      refine ⟨⟨hone', hnamed⟩, hnext, fun x hx => hlooked x ?_⟩
      rcases hx with hx | hx <;> simp [hx]
    · obtain rfl : s.put r = s' := hput.symm.trans hs'
      rw [ho] at hdone
      subst hdone
      refine ⟨⟨hone', fun h hh => ?_⟩, hnext, fun x hx => ?_⟩
      · rcases mem_put.mp hh with ⟨hold, -⟩ | rfl
        · exact hnamed h hold
        · exact saves_named hown hr
      · have hmem : x ∈ pre ++ c :: post := by rcases hx with hx | hx <;> simp [hx]
        have hlook := hlooked x hmem
        cases x with
        | save route body phase =>
          refine ⟨hlook.1, fun hphase => hostOwner_put (hlook.2 hphase) fun hip => ?_⟩
          by_contra hne
          exact hapart r hr route body phase hmem hphase (fun h => hne h.symm) hip.symm
        | register name addr environment => exact hlook
        | _ => trivial
    · obtain rfl : s.deleteWhere d = s' := hdelete.symm.trans hs'
      refine ⟨⟨hone', fun h hh => hnamed h (List.mem_of_mem_filter hh)⟩, hnext, fun x hx => ?_⟩
      have hlook : Looked s x := hlooked x (by rcases hx with hx | hx <;> simp [hx])
      cases x with
      | save route body phase =>
        exact ⟨hlook.1, fun hphase => hostOwner_deleteWhere (hlook.2 hphase) d⟩
      | register name addr environment => exact hlook
      | _ => trivial

/-- The look for an owner is enough where no call saves a record between another one's look and
save for the same IP. -/
theorem apart_calls_keep_one_record (hone : OneRecord hosts) (hnamed : Named hosts)
    (h : ((inventory.machine hosts).restrict Apart).Run (inventory.machine hosts).start log p) :
    OneRecord p.shared :=
  (apart_assertions.run h (holds_start ⟨hone, hnamed⟩)).1.1

end HostRecords
