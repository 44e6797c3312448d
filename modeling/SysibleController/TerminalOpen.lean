import SysibleController.AdminAccounts

/-! Opening a terminal (`open_terminal` in `backend/remote_routes.py`): who is turned away, and the
account the shell is asked to run as. The transport is a parameter: whether the agent list can be
read, what the SSH client answers, and the ids of sessions and tasks are left out. -/
namespace TerminalOpen

open KeyedTable PythonText AdminAccounts

structure AgentRow where
  hostId : String
  hostname : String
  ip : String
  lastSeen : ℚ

structure SshHost where
  name : String
  user : Option String

/-- The headers that carry an identity; `gatewayOk` is the answer of `_gateway_secret_ok`. -/
structure Identity where
  token : String
  gatewayOk : Bool
  user : String
  role : String

/-- The hosts a name is looked up among, and how an SSH connection to it ends. -/
structure Network where
  agents : Option (List AgentRow)
  hosts : Table SshHost.name
  onlineWindow : ℚ
  connect : String → Except HTTPException Unit

/-- A session as it was asked for: of the agent with the user in its task, or over SSH with the
arguments of `_become_user_command`. -/
inductive Opened where
  | agent (hostId user : String) (owner : Option String)
  | ssh (name sshUser : String) (become : Option (String × String)) (owner : Option String)
  deriving DecidableEq

def readOnly : HTTPException := ⟨403, "Auditor accounts are read-only."⟩

def ssoRoleMap : List (String × String) :=
  [("superuser", "superuser"), ("operator", "sysadmin"), ("auditor", "auditor")]

def assertedRole (req : Identity) : String := lower (strip req.role)

def assertedUser (req : Identity) : String := strip req.user

def ssoRoleFor (asserted : String) : String :=
  (ssoRoleMap.lookup (lower (strip asserted))).getD "auditor"

variable (cfg : Settings)

/-- `ensure_sso_account`; an error is the `ValueError`. -/
def ensureSsoAccount (env : Fresh) (s : Accounts) (username role : String) :
    Except String Accounts :=
  match getAdministrator s username with
  | none =>
    if !validAdminName username then .error malformedUsername.detail
    else .ok ((addAdministrator s (ssoAccount username role
      (hashPassword cfg env.token env.salt) env.salt)).getD s)
  | some acct =>
    if acct.createdBy.getD "" ≠ "sso" then
      if !validAdminName username then .error malformedUsername.detail
      else .ok (adoptAdministratorForSso s username role (hashPassword cfg env.token env.salt)
        env.salt)
    else if orSuperuser acct.role ≠ role then .ok (setAdministratorRole s username role)
    else .ok s

def rejectAuditor (env : Fresh) (s : Accounts) (req : Identity) :
    Except HTTPException Unit × Accounts :=
  if req.token ≠ "" then
    match resolveAdminToken cfg s req.token env.now with
    | (some (_, role), s') => (if role = "auditor" then .error readOnly else .ok (), s')
    | (none, s') => (.ok (), s')
  else if !req.gatewayOk then (.ok (), s)
  else if assertedRole req = "auditor" then (.error readOnly, s)
  else if assertedUser req = "" then (.ok (), s)
  else match getAdministrator s (assertedUser req) with
    | some rec => (if rec.role.getD "" = "auditor" then .error readOnly else .ok (), s)
    | none => (.ok (), s)

def resolveAdminUsername (env : Fresh) (s : Accounts) (req : Identity) : Option String × Accounts :=
  if req.token ≠ "" then
    let r := resolveAdminToken cfg s req.token env.now
    (r.1.map Prod.fst, r.2)
  else if assertedUser req = "" ∨ req.gatewayOk = false then (none, s)
  else match ensureSsoAccount cfg env s (assertedUser req) (ssoRoleFor req.role) with
    | .error _ => (none, s)
    | .ok s' => ((getAdministrator s' (assertedUser req)).map Administrator.username, s')

/-- `_resolve_agent_target`: by host id, else by host name. -/
def resolveAgentTarget (net : Network) (name : String) : Option AgentRow :=
  let agents := net.agents.getD []
  (agents.find? fun a => a.hostId = name && a.ip ≠ "").or
    (agents.find? fun a => a.hostname = name && a.ip ≠ "")

def openTerminal (net : Network) (early late : Fresh) (s : Accounts) (name : String)
    (req : Identity) : Except HTTPException Opened × Accounts :=
  match rejectAuditor cfg early s req with
  | (.error e, s) => (.error e, s)
  | (.ok (), s) =>
    match resolveAgentTarget net name with
    | some a =>
      if late.now - a.lastSeen > net.onlineWindow then
        (.error ⟨503, "This host's agent isn't checking in right now, so an interactive terminal " ++
          "can't attach. Try again once it's back online."⟩, s)
      else
        let who := resolveAdminUsername cfg late s req
        (.ok (.agent a.hostId (who.1.getD "") (who.1.filter (· ≠ ""))), who.2)
    | none =>
      match net.hosts.find name with
      | none => (.error ⟨404, "host not found"⟩, s)
      | some host =>
        let sshUser := host.user.getD "root"
        let who := resolveAdminUsername cfg late s req
        let become := match who.1 with
          | some u => if u ≠ "" ∧ u ≠ sshUser then some (sshUser, u) else none
          | none => none
        match net.connect name with
        | .error e => (.error e, who.2)
        | .ok () => (.ok (.ssh name sshUser become who.1), who.2)

/-- The shell is asked to run as this user; `""` stands for the account of the connection. -/
def AskedAs (user : String) : Opened → Prop
  | .agent _ u _ => u = user
  | .ssh _ sshUser become _ => match become with
    | some (_, u) => u = user
    | none => user = "" ∨ user = sshUser

variable {cfg} {net : Network} {early late : Fresh} {s s' s₁ : Accounts} {name user : String}
  {req : Identity} {opened : Opened}

/-- The steps of a call that opens a shell. -/
theorem open_ok (h : openTerminal cfg net early late s name req = (.ok opened, s')) :
    ∃ s₁, rejectAuditor cfg early s req = (.ok (), s₁) ∧
      s' = (resolveAdminUsername cfg late s₁ req).2 ∧
      AskedAs ((resolveAdminUsername cfg late s₁ req).1.getD "") opened := by
  unfold openTerminal at h
  rcases hrej : rejectAuditor cfg early s req with ⟨e | u, s₁⟩
  · simp [hrej] at h
  · refine ⟨s₁, rfl, ?_⟩
    simp only [hrej] at h
    cases htgt : resolveAgentTarget net name with
    | some a =>
      simp only [htgt] at h
      split_ifs at h with hoff
      · simp at h
      · obtain ⟨ho, rfl⟩ := Prod.mk.inj h
        obtain rfl := Except.ok.inj ho
        exact ⟨rfl, rfl⟩
    | none =>
      simp only [htgt] at h
      cases hhost : net.hosts.find name with
      | none => simp [hhost] at h
      | some host =>
        simp only [hhost] at h
        cases hconn : net.connect name with
        | error e => simp [hconn] at h
        | ok =>
          simp only [hconn] at h
          obtain ⟨ho, rfl⟩ := Prod.mk.inj h
          obtain rfl := Except.ok.inj ho
          refine ⟨rfl, ?_⟩
          cases hwho : (resolveAdminUsername cfg late s₁ req).1 with
          | none => simp [AskedAs]
          | some u =>
            by_cases hu : u ≠ "" ∧ u ≠ host.user.getD "root"
            · simp [AskedAs, hu]
            · simp only [AskedAs, hu, if_false, Option.getD_some]
              tauto

/-! ### Whose account it is -/

theorem resolve_some {token role : String} {now : ℚ}
    (h : (resolveAdminToken cfg s token now).1 = some (user, role)) :
    (resolveAdminToken cfg s token now).2 = s ∧ ∃ row acct,
      s.adminTokens.find (cfg.tokenAtRest token) = some row ∧ row.username = user ∧
        row.role = role ∧ s.administrators.find user = some acct ∧
        orSuperuser acct.role = orSuperuser (some role) := by
  unfold resolveAdminToken at h ⊢
  by_cases ht : token = ""
  · simp [ht] at h
  · rw [if_neg ht] at h ⊢
    cases hrow : s.adminTokens.find (cfg.tokenAtRest token) with
    | none => simp [hrow] at h
    | some row =>
      simp only [hrow] at h ⊢
      by_cases hlive : row.live s now = true
      · rw [if_pos hlive] at h ⊢
        obtain ⟨rfl, rfl⟩ := Prod.mk.inj (Option.some.inj h)
        unfold AdminToken.live at hlive
        cases hacct : s.administrators.find row.username with
        | none => simp [hacct] at hlive
        | some acct =>
          simp only [hacct, Bool.and_eq_true, decide_eq_true_eq] at hlive
          exact ⟨rfl, row, acct, rfl, rfl, rfl, rfl, hlive.2⟩
      · rw [if_neg hlive] at h
        cases h

/-- A token that does not resolve does not resolve later, since a stale one is deleted. -/
theorem resolve_none_again {token : String} {now later : ℚ}
    (h : (resolveAdminToken cfg s token now).1 = none) :
    (resolveAdminToken cfg (resolveAdminToken cfg s token now).2 token later).1 = none := by
  by_cases ht : token = ""
  · simp [resolveAdminToken, ht]
  · cases hrow : s.adminTokens.find (cfg.tokenAtRest token) with
    | none => simp [resolveAdminToken, ht, hrow]
    | some row =>
      by_cases hlive : row.live s now = true
      · simp [resolveAdminToken, ht, hrow, hlive] at h
      · have hkey : row.token = cfg.tokenAtRest token := Table.key_of_find hrow
        have hgone : (some row).filter (fun r : AdminToken =>
            !decide (r.token = cfg.tokenAtRest token)) = none := by
          simp [hkey]
        simp [resolveAdminToken, ht, hrow, hlive, hgone]

/-- After `ensure_sso_account` the account exists, and it has the role that was asked for. -/
theorem ensure_ok {role : String} (h : ensureSsoAccount cfg late s user role = .ok s') :
    ∃ acct, s'.administrators.find user = some acct ∧
      (acct.role = some role ∨ orSuperuser acct.role = role) := by
  unfold ensureSsoAccount getAdministrator at h
  cases hacct : s.administrators.find user with
  | none =>
    simp only [hacct] at h
    split_ifs at h
    obtain rfl := Except.ok.inj h
    refine ⟨ssoAccount user role (hashPassword cfg late.token late.salt) late.salt, ?_, .inl rfl⟩
    simp [addAdministrator, ssoAccount, hacct]
  | some acct =>
    simp only [hacct] at h
    split_ifs at h with hsso hvalid hrole
    · obtain rfl := Except.ok.inj h
      refine ⟨acct.adopted role (hashPassword cfg late.token late.salt) late.salt, ?_, .inl rfl⟩
      simp [hacct]
    · obtain rfl := Except.ok.inj h
      exact ⟨acct.withRole role, by simp [hacct], .inl rfl⟩
    · obtain rfl := Except.ok.inj h
      exact ⟨acct, hacct, .inr (not_not.mp hrole)⟩

/-- It only fails on a malformed name, and then on no account of its own. -/
theorem ensure_error {role text : String}
    (h : ensureSsoAccount cfg late s user role = .error text) :
    validAdminName user = false ∧
      ∀ acct, s.administrators.find user = some acct → acct.createdBy.getD "" ≠ "sso" := by
  unfold ensureSsoAccount getAdministrator at h
  cases hacct : s.administrators.find user with
  | none =>
    simp only [hacct] at h
    split_ifs at h with hvalid
    exact ⟨by simpa using hvalid, fun _ ha => by cases ha⟩
  | some acct =>
    simp only [hacct] at h
    split_ifs at h with hsso hvalid hrole
    refine ⟨by simpa using hvalid, ?_⟩
    intro acct' hacct'
    rwa [← Option.some.inj hacct']

theorem ssoRoleFor_known (hknown : (ssoRoleMap.lookup (assertedRole req)).isSome = true)
    (hne : assertedRole req ≠ "auditor") : ssoRoleFor req.role ≠ "auditor" := by
  have hrole : ssoRoleFor req.role = (ssoRoleMap.lookup (assertedRole req)).getD "auditor" := rfl
  rw [hrole]
  obtain ⟨r, hr⟩ := Option.isSome_iff_exists.mp hknown
  rw [hr, Option.getD_some]
  rintro rfl
  obtain ⟨front, rest, hsplit, -⟩ := List.lookup_eq_some_iff.mp hr
  have hmem : (assertedRole req, "auditor") ∈ ssoRoleMap := by simp [hsplit]
  exact hne (by simpa [ssoRoleMap] using hmem)

/-- The token is one of this user. -/
def TokenOf (cfg : Settings) (s : Accounts) (token user : String) : Prop :=
  ∃ row, s.adminTokens.find (cfg.tokenAtRest token) = some row ∧ row.username = user

/-- Past the rejection of auditors: a token's role is not theirs, and the lookup has been made. -/
theorem rejectAuditor_token (htok : req.token ≠ "")
    (h : rejectAuditor cfg early s req = (.ok (), s₁)) :
    s₁ = (resolveAdminToken cfg s req.token early.now).2 ∧
      ∀ u role, (resolveAdminToken cfg s req.token early.now).1 = some (u, role) →
        role ≠ "auditor" := by
  rw [rejectAuditor, if_pos htok] at h
  rcases hres : resolveAdminToken cfg s req.token early.now with ⟨_ | ⟨u, role⟩, s₂⟩
  · rw [hres] at h
    exact ⟨(Prod.mk.inj h).2.symm, fun _ _ h => nomatch h⟩
  · rw [hres] at h
    obtain ⟨hok, rfl⟩ := Prod.mk.inj h
    refine ⟨rfl, ?_⟩
    intro u' role' heq haud
    obtain ⟨rfl, rfl⟩ := Prod.mk.inj (Option.some.inj heq)
    rw [if_pos haud] at hok
    cases hok

theorem rejectAuditor_gateway (htok : req.token = "") (hgate : req.gatewayOk = true)
    (h : rejectAuditor cfg early s req = (.ok (), s₁)) :
    s₁ = s ∧ assertedRole req ≠ "auditor" := by
  rw [rejectAuditor, if_neg (not_not.mpr htok), if_neg (by simp [hgate])] at h
  by_cases hr : assertedRole req = "auditor"
  · rw [if_pos hr] at h
    cases h
  · refine ⟨?_, hr⟩
    rw [if_neg hr] at h
    split_ifs at h
    · exact (Prod.mk.inj h).2.symm
    · split at h
      · exact (Prod.mk.inj h).2.symm
      · exact (Prod.mk.inj h).2.symm

theorem shell_for_token (htok : req.token ≠ "")
    (h : openTerminal cfg net early late s name req = (.ok opened, s')) :
    (∃ u acct, TokenOf cfg s req.token u ∧ s'.administrators.find u = some acct ∧
      acct.role ≠ some "auditor" ∧ AskedAs u opened) ∨
    ((resolveAdminToken cfg s req.token early.now).1 = none ∨
      (resolveAdminToken cfg s req.token late.now).1 = none) ∧ AskedAs "" opened := by
  obtain ⟨s₁, hrej, rfl, hask⟩ := open_ok h
  obtain ⟨hs, hpass⟩ := rejectAuditor_token htok hrej
  unfold resolveAdminUsername at hask ⊢
  rw [if_pos htok] at hask ⊢
  dsimp only at hask ⊢
  cases hres : (resolveAdminToken cfg s req.token early.now).1 with
  | none =>
    rw [hs, resolve_none_again hres] at hask
    exact .inr ⟨.inl rfl, hask⟩
  | some id =>
    obtain ⟨u, role⟩ := id
    obtain ⟨hsame, row, acct, hrow, rfl, rfl, hacct, hrole⟩ := resolve_some hres
    have hnot : row.role ≠ "auditor" := hpass _ _ hres
    obtain rfl : s₁ = s := hs.trans hsame
    cases hlate : (resolveAdminToken cfg s₁ req.token late.now).1 with
    | none =>
      rw [hlate] at hask
      exact .inr ⟨.inr rfl, hask⟩
    | some id =>
      obtain ⟨u', role'⟩ := id
      obtain ⟨hsame', row', acct', hrow', rfl, rfl, hacct', -⟩ := resolve_some hlate
      obtain rfl := Option.some.inj (hrow.symm.trans hrow')
      rw [hlate] at hask
      refine .inl ⟨row.username, acct, ⟨row, hrow, rfl⟩, by rwa [hsame'], ?_, hask⟩
      intro haud
      rw [haud] at hrole
      have : orSuperuser (some row.role) ≠ "auditor" := by
        unfold orSuperuser
        simp only [Option.getD_some]
        split_ifs
        · decide
        · exact hnot
      exact this (hrole.symm.trans (by decide))

theorem shell_for_gateway (htok : req.token = "") (hgate : req.gatewayOk = true)
    (h : openTerminal cfg net early late s name req = (.ok opened, s')) :
    (∃ acct, s'.administrators.find (assertedUser req) = some acct ∧
      AskedAs (assertedUser req) opened ∧
      ((ssoRoleMap.lookup (assertedRole req)).isSome = true → acct.role ≠ some "auditor")) ∨
    (assertedUser req = "" ∨ validAdminName (assertedUser req) = false ∧
      ∀ acct, s.administrators.find (assertedUser req) = some acct →
        acct.createdBy.getD "" ≠ "sso") ∧ AskedAs "" opened := by
  obtain ⟨s₁, hrej, rfl, hask⟩ := open_ok h
  obtain ⟨rfl, hrole⟩ := rejectAuditor_gateway htok hgate hrej
  unfold resolveAdminUsername at hask ⊢
  simp only [htok, hgate, ne_eq, not_true_eq_false, if_false, or_false, reduceCtorEq] at hask ⊢
  by_cases hu : assertedUser req = ""
  · simp only [hu, if_true] at hask
    exact .inr ⟨.inl hu, hask⟩
  · simp only [if_neg hu] at hask ⊢
    cases he : ensureSsoAccount cfg late s₁ (assertedUser req) (ssoRoleFor req.role) with
    | error text =>
      simp only [he] at hask
      exact .inr ⟨.inr (ensure_error he), hask⟩
    | ok s₂ =>
      obtain ⟨acct, hacct, hgrade⟩ := ensure_ok he
      simp only [he, getAdministrator, hacct] at hask ⊢
      have hname : acct.username = assertedUser req := Table.key_of_find hacct
      refine .inl ⟨acct, rfl, ?_, ?_⟩
      · simpa [hname] using hask
      · intro hknown haud
        have hne := ssoRoleFor_known hknown hrole
        rcases hgrade with hgrade | hgrade
        · exact hne (Option.some.inj (hgrade.symm.trans haud))
        · rw [haud] at hgrade
          exact hne (hgrade.symm.trans (by decide))

def plainSettings : Settings := ⟨fun _ salt _ => salt, id, fun _ => none⟩

def plainFresh : Fresh := ⟨0, "a", by decide, "b", fun _ => true, true, false⟩

def noAccounts : Accounts := ⟨.empty, .empty, fun _ => 0⟩

def oneHost : Network := ⟨some [], ⟨[⟨"db", none⟩], by simp⟩, 30, fun _ => .ok ()⟩

def unknownToken : Identity := ⟨"expired", false, "", ""⟩

end TerminalOpen
