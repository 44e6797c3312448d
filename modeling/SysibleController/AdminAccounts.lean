import SysibleController.KeyedTable
import SysibleController.PythonText
import SysibleController.Interleaving
import Mathlib.Data.Rat.Defs
import Mathlib.Algebra.Order.Ring.Rat

/-! Administrators, their login tokens, and the handlers that write either, each cut at its
database steps. PBKDF2 and SHA-256 are parameters. `epoch` is a history variable that no
handler reads: how often the account of a name has been removed, renamed, re-roled, adopted
or given a password; a token carries the epoch its credentials were verified in. The login
throttle and the audit log have tables of their own. -/
namespace AdminAccounts

open KeyedTable PythonText Interleaving

structure Administrator where
  username : String
  passwordHash : String
  passwordSalt : String
  mustChangePassword : Bool
  createdBy : Option String
  role : Option String
  sudoConnect : Bool
  deriving DecidableEq, Repr

structure AdminToken where
  token : String
  username : String
  role : String
  expiry : ℚ
  epoch : ℕ
  deriving DecidableEq, Repr

structure Accounts where
  administrators : Table Administrator.username
  adminTokens : Table AdminToken.token
  epoch : String → ℕ

structure Settings where
  pbkdf2 : String → String → ℤ → String
  tokenAtRest : String → String
  roleLimit : String → Option ℕ

/-- What a step takes from outside: the clock, the random values, the password policy in
force, and the answers of the gateway check and of the throttle. -/
structure Fresh where
  now : ℚ
  salt : String
  salted : salt ≠ ""
  token : String
  passwordOk : String → Bool
  gatewayOk : Bool
  throttled : Bool

/-! ## Passwords -/

def pbkdf2Iterations : ℤ := 600000
def legacyPbkdf2Iterations : ℤ := 200000

def hashPassword (cfg : Settings) (password salt : String) : String :=
  "600000" ++ String.singleton '$' ++ cfg.pbkdf2 password salt pbkdf2Iterations

/-- A count of no iterations is an exception of `pbkdf2_hmac`, and no login either. -/
def verifyPassword (cfg : Settings) (password salt expectedHash : String) : Bool :=
  if salt = "" || expectedHash = "" then false
  else if expectedHash.toList.contains '$' then
    let parts := partition '$' expectedHash
    match PythonInt.pyInt parts.1.toList with
    | none => false
    | some iters => decide (0 < iters) && cfg.pbkdf2 password salt iters = parts.2
  else cfg.pbkdf2 password salt legacyPbkdf2Iterations = expectedHash

def needsRehash (expectedHash : String) : Bool :=
  if expectedHash = "" then false
  else if !expectedHash.toList.contains '$' then true
  else match PythonInt.pyInt (partition '$' expectedHash).1.toList with
    | none => true
    | some iters => iters < pbkdf2Iterations

def Administrator.accepts (cfg : Settings) (a : Administrator) (password : String) : Bool :=
  verifyPassword cfg password a.passwordSalt a.passwordHash

/-! ## Statements of `db.py` -/

def getAdministrator (s : Accounts) (username : String) : Option Administrator :=
  s.administrators.find username

def countAdministrators (s : Accounts) : ℕ := s.administrators.count fun _ => true

def countAdministratorsByRole (s : Accounts) (role : String) : ℕ :=
  s.administrators.count fun a => a.role = some role

def orSuperuser (role : Option String) : String :=
  if role.getD "" = "" then "superuser" else role.getD ""

/-- History: an event that ends the sessions of the account. -/
def retire (s : Accounts) (username : String) : Accounts :=
  if (s.administrators.find username).isSome then
    { s with epoch := Function.update s.epoch username (s.epoch username + 1) }
  else s

def Administrator.withRole (role : String) (a : Administrator) : Administrator :=
  { a with role := some role }

def Administrator.withPassword (passwordHash passwordSalt : String) (mustChangePassword : Bool)
    (a : Administrator) : Administrator :=
  { a with
    passwordHash := passwordHash, passwordSalt := passwordSalt,
    mustChangePassword := mustChangePassword }

/-- The row of an account that is only signed in to through SSO. -/
def Administrator.adopted (role passwordHash passwordSalt : String) (a : Administrator) :
    Administrator :=
  { a.withPassword passwordHash passwordSalt false with
    createdBy := some "sso", role := some role, sudoConnect := false }

def setAdministratorRole (s : Accounts) (username role : String) : Accounts :=
  { retire s username with
    administrators := s.administrators.update username (.withRole role) fun _ => rfl }

def adoptAdministratorForSso (s : Accounts) (username role passwordHash passwordSalt : String) :
    Accounts :=
  { retire s username with
    administrators := s.administrators.update username
      (.adopted role passwordHash passwordSalt) fun _ => rfl }

def storePassword (s : Accounts) (username passwordHash passwordSalt : String)
    (mustChangePassword : Bool) : Accounts :=
  { s with
    administrators := s.administrators.update username
      (.withPassword passwordHash passwordSalt mustChangePassword) fun _ => rfl }

/-- `update_administrator_password`, called to change a password. -/
def updateAdministratorPassword (s : Accounts) (username passwordHash passwordSalt : String)
    (mustChangePassword : Bool) : Accounts :=
  storePassword (retire s username) username passwordHash passwordSalt mustChangePassword

/-- A name that is taken is an IntegrityError; without a row there is nothing to rename. -/
def updateAdministratorUsername (s : Accounts) (oldUsername newUsername : String) :
    Option Accounts :=
  match s.administrators.find oldUsername with
  | none => some s
  | some row =>
    if (s.administrators.find newUsername).isSome then none
    else some
      { s with
        administrators := (s.administrators.deleteWhere fun a => a.username = oldUsername).put
          { row with username := newUsername }
        epoch := Function.update (Function.update s.epoch oldUsername (s.epoch oldUsername + 1))
          newUsername (s.epoch newUsername + 1) }

def addAdministrator (s : Accounts) (row : Administrator) : Option Accounts :=
  if (s.administrators.find row.username).isSome then none
  else some { s with administrators := s.administrators.put row }

/-- The account and its tokens go in one transaction. -/
def removeAdministrator (s : Accounts) (username : String) : Accounts :=
  { retire s username with
    administrators := s.administrators.deleteWhere fun a => a.username = username
    adminTokens := s.adminTokens.deleteWhere fun t => t.username = username }

def createAdminToken (s : Accounts) (row : AdminToken) : Accounts :=
  { s with adminTokens := s.adminTokens.put row }

def deleteAdminTokensForUser (s : Accounts) (username : String) : Accounts :=
  if username = "" then s
  else { s with adminTokens := s.adminTokens.deleteWhere fun t => t.username = username }

/-- Unexpired, and the account exists and still has the role of the token. -/
def AdminToken.live (s : Accounts) (now : ℚ) (row : AdminToken) : Bool :=
  !(row.expiry < now) && match s.administrators.find row.username with
    | none => false
    | some acct => orSuperuser acct.role = orSuperuser (some row.role)

def resolveAdminToken (cfg : Settings) (s : Accounts) (token : String) (now : ℚ) :
    Option (String × String) × Accounts :=
  if token = "" then (none, s)
  else match s.adminTokens.find (cfg.tokenAtRest token) with
    | none => (none, s)
    | some row =>
      if row.live s now then (some (row.username, row.role), s)
      else (none, { s with
        adminTokens := s.adminTokens.deleteWhere fun t => t.token = cfg.tokenAtRest token })

section Find

variable (s : Accounts) (u k : String)

@[simp] theorem retire_administrators : (retire s u).administrators = s.administrators := by
  unfold retire
  split <;> rfl

@[simp] theorem retire_adminTokens : (retire s u).adminTokens = s.adminTokens := by
  unfold retire
  split <;> rfl

@[simp] theorem setAdministratorRole_find (role : String) :
    (setAdministratorRole s u role).administrators.find k = if k = u then
      (s.administrators.find k).map (.withRole role) else s.administrators.find k :=
  Table.find_update s.administrators u (.withRole role) (fun _ => rfl) k

@[simp] theorem adoptAdministratorForSso_find (role hash salt : String) :
    (adoptAdministratorForSso s u role hash salt).administrators.find k = if k = u then
      (s.administrators.find k).map (.adopted role hash salt) else s.administrators.find k :=
  Table.find_update s.administrators u (.adopted role hash salt) (fun _ => rfl) k

@[simp] theorem storePassword_find (hash salt : String) (must : Bool) :
    (storePassword s u hash salt must).administrators.find k = if k = u then
      (s.administrators.find k).map (.withPassword hash salt must) else s.administrators.find k :=
  Table.find_update s.administrators u (.withPassword hash salt must) (fun _ => rfl) k

@[simp] theorem updateAdministratorPassword_find (hash salt : String) (must : Bool) :
    (updateAdministratorPassword s u hash salt must).administrators.find k = if k = u then
      (s.administrators.find k).map (.withPassword hash salt must) else s.administrators.find k := by
  rw [updateAdministratorPassword, storePassword_find, retire_administrators]

@[simp] theorem deleteAdminTokensForUser_administrators :
    (deleteAdminTokensForUser s u).administrators = s.administrators := by
  unfold deleteAdminTokensForUser
  split <;> rfl

@[simp] theorem resolveAdminToken_administrators (cfg : Settings) (token : String) (now : ℚ) :
    (resolveAdminToken cfg s token now).2.administrators = s.administrators := by
  unfold resolveAdminToken
  split
  · rfl
  · split
    · rfl
    · split <;> rfl

end Find

/-! ## The handlers -/

/-- What a request shows: nothing yet, its refusal, the identity of a token, a password it has
changed, or an end without any of these. -/
inductive AdminEvent where
  | silent
  | refused (e : HTTPException)
  | resolved (token : String) (identity : Option (String × String))
  | changed (username password : String) (mustChangePassword : Bool)
  | done
  deriving DecidableEq

def noSuchAdministrator : HTTPException := ⟨404, "No such administrator"⟩
def invalidLogin : HTTPException := ⟨401, "Invalid username or password"⟩
def tooManyAttempts : HTTPException := ⟨429, "Too many failed attempts."⟩
def wrongPassword : HTTPException := ⟨401, "Current password is incorrect"⟩
def emptyPassword : HTTPException := ⟨400, "Password cannot be empty"⟩
def emptyUsername : HTTPException := ⟨400, "Username cannot be empty"⟩
def usernameRequired : HTTPException := ⟨400, "username is required"⟩
def weakPassword : HTTPException := ⟨400, "The password does not meet the policy."⟩
def usernameTaken : HTTPException :=
  ⟨409, "An administrator with that username already exists"⟩
def nothingToChange : HTTPException :=
  ⟨400, "Enter a new username or a new password to change."⟩
def unknownRole : HTTPException := ⟨400, "Role must be 'superuser', 'sysadmin', or 'auditor'"⟩
def roleLimitReached : HTTPException := ⟨403, "The edition allows no more accounts of this role."⟩
def lastAdministrator : HTTPException := ⟨400, "Cannot remove the last remaining administrator"⟩
def lastSuperuserRemoval : HTTPException :=
  ⟨400, "Cannot remove the last remaining superuser — promote another administrator to superuser first."⟩
def lastSuperuserRole : HTTPException :=
  ⟨400, "Cannot change the role of the last remaining superuser."⟩
def gatewayRefused : HTTPException :=
  ⟨403, "SSO provisioning requires the gateway shared secret (SYSIBLE_SSO_SHARED_SECRET); refused."⟩
def malformedUsername : HTTPException :=
  ⟨409, "username must be 1-64 characters using letters, digits, and . _ @ - (no leading '-', no spaces or shell metacharacters)"⟩

def knownRoles : List String := ["superuser", "sysadmin", "auditor"]

def validAdminName (name : String) : Bool :=
  match (strip name).toList with
  | [] => false
  | c :: cs => (c :: cs).length ≤ 64 && (c.isAlphanum || c = '_') &&
      cs.all fun c => c.isAlphanum || "._@-".toList.contains c

def enforceRoleLimit (cfg : Settings) (role : String) (currentCount : ℕ) : Option HTTPException :=
  match cfg.roleLimit role with
  | none => none
  | some limit => if limit ≤ currentCount then some roleLimitReached else none

/-- The next state, what the step shows, and the point it leaves the call at. -/
abbrev Next (φ : Type) := Accounts × AdminEvent × Option φ

inductive LoginPhase where
  | reading
  | rehashing (admin : Administrator) (epoch : ℕ)
  | minting (admin : Administrator) (epoch : ℕ)
  deriving DecidableEq

def loginStep (cfg : Settings) (env : Fresh) (s : Accounts) (username password : String) :
    LoginPhase → Next LoginPhase
  | .reading =>
    if env.throttled then (s, .refused tooManyAttempts, none)
    else match getAdministrator s username with
      | none => (s, .refused invalidLogin, none)
      | some admin =>
        if !admin.accepts cfg password then (s, .refused invalidLogin, none)
        else if needsRehash admin.passwordHash then
          (s, .silent, some (.rehashing admin (s.epoch username)))
        else (s, .silent, some (.minting admin (s.epoch username)))
  | .rehashing admin epoch =>
    (storePassword s username (hashPassword cfg password env.salt) env.salt
      admin.mustChangePassword, .silent, some (.minting admin epoch))
  | .minting admin epoch =>
    let role := if admin.role.getD "" = "" then "auditor" else admin.role.getD ""
    (createAdminToken s ⟨cfg.tokenAtRest env.token, username, role, env.now + 12 * 60 * 60, epoch⟩,
      .done, none)

inductive SsoPhase where
  | reading
  | adding
  | adopting
  | syncing
  | minting (epoch : ℕ)
  deriving DecidableEq

/-- The row of an account that only SSO has ever known. -/
def ssoAccount (username role passwordHash salt : String) : Administrator :=
  ⟨username, passwordHash, salt, false, some "sso", some role, false⟩

def ssoStep (cfg : Settings) (env : Fresh) (s : Accounts) (username role : String) :
    SsoPhase → Next SsoPhase
  | .reading =>
    if !env.gatewayOk then (s, .refused gatewayRefused, none)
    else if username = "" then (s, .refused usernameRequired, none)
    else match getAdministrator s username with
      | none =>
        if !validAdminName username then (s, .refused malformedUsername, none)
        else (s, .silent, some .adding)
      | some acct =>
        if acct.createdBy.getD "" ≠ "sso" then
          if !validAdminName username then (s, .refused malformedUsername, none)
          else (s, .silent, some .adopting)
        else if orSuperuser acct.role ≠ role then (s, .silent, some .syncing)
        else (s, .silent, some (.minting (s.epoch username)))
  | .adding =>
    let added := (addAdministrator s (ssoAccount username role
      (hashPassword cfg env.token env.salt) env.salt)).getD s
    (added, .silent, some (.minting (added.epoch username)))
  | .adopting =>
    let adopted := adoptAdministratorForSso s username role (hashPassword cfg env.token env.salt)
      env.salt
    (adopted, .silent, some (.minting (adopted.epoch username)))
  | .syncing =>
    let synced := setAdministratorRole s username role
    (synced, .silent, some (.minting (synced.epoch username)))
  | .minting epoch =>
    (createAdminToken s ⟨cfg.tokenAtRest env.token, username, role, env.now + 12 * 60 * 60, epoch⟩,
      .done, none)

inductive AddPhase where
  | counting
  | inserting
  deriving DecidableEq

def addStep (cfg : Settings) (env : Fresh) (s : Accounts) (username password role acting : String) :
    AddPhase → Next AddPhase
  | .counting =>
    if username = "" then (s, .refused emptyUsername, none)
    else if password = "" then (s, .refused emptyPassword, none)
    else if !knownRoles.contains role then (s, .refused unknownRole, none)
    else match enforceRoleLimit cfg role (countAdministratorsByRole s role) with
      | some e => (s, .refused e, none)
      | none =>
        if env.passwordOk password then (s, .silent, some .inserting)
        else (s, .refused weakPassword, none)
  | .inserting =>
    match addAdministrator s ⟨username, hashPassword cfg password env.salt, env.salt, true,
        some acting, some role, false⟩ with
    | none => (s, .refused usernameTaken, none)
    | some s' => (s', .done, none)

/-- `target` is the row as read; the count of superusers is only looked at for a superuser. -/
inductive RemovePhase where
  | reading
  | counting (target : Administrator)
  | countingSuperusers (target : Administrator)
  | deleting (target : Administrator)
  deriving DecidableEq

def removeStep (s : Accounts) (username : String) : RemovePhase → Next RemovePhase
  | .reading =>
    match getAdministrator s username with
    | none => (s, .refused noSuchAdministrator, none)
    | some target => (s, .silent, some (.counting target))
  | .counting target =>
    if countAdministrators s ≤ 1 then (s, .refused lastAdministrator, none)
    else if orSuperuser target.role = "superuser" then
      (s, .silent, some (.countingSuperusers target))
    else (s, .silent, some (.deleting target))
  | .countingSuperusers target =>
    if countAdministratorsByRole s "superuser" ≤ 1 then (s, .refused lastSuperuserRemoval, none)
    else (s, .silent, some (.deleting target))
  | .deleting _ => (removeAdministrator s username, .done, none)

inductive SetRolePhase where
  | reading
  | countingSuperusers (current : String)
  | countingSeats (current : String)
  | updating (current : String)
  | purging
  deriving DecidableEq

def setRoleStep (cfg : Settings) (s : Accounts) (username newRole : String) :
    SetRolePhase → Next SetRolePhase
  | .reading =>
    match getAdministrator s username with
    | none => (s, .refused noSuchAdministrator, none)
    | some admin =>
      if !knownRoles.contains newRole then (s, .refused unknownRole, none)
      else if newRole = orSuperuser admin.role then (s, .done, none)
      else if orSuperuser admin.role = "superuser" then
        (s, .silent, some (.countingSuperusers (orSuperuser admin.role)))
      else (s, .silent, some (.countingSeats (orSuperuser admin.role)))
  | .countingSuperusers current =>
    if countAdministratorsByRole s "superuser" ≤ 1 then (s, .refused lastSuperuserRole, none)
    else (s, .silent, some (.countingSeats current))
  | .countingSeats current =>
    match enforceRoleLimit cfg newRole (countAdministratorsByRole s newRole) with
    | some e => (s, .refused e, none)
    | none => (s, .silent, some (.updating current))
  | .updating _ => (setAdministratorRole s username newRole, .silent, some .purging)
  | .purging => (deleteAdminTokensForUser s username, .done, none)

/-- `name` is the username from the rename on. -/
inductive ChangePhase where
  | reading
  | renamingUser (name : String)
  | checking (name : String)
  | storing (name : String)
  | purgingOld (name : String)
  | purgingNew (name : String)
  deriving DecidableEq

def changeTarget (username newUsername : String) : String :=
  if strip newUsername = "" then username else strip newUsername

/-- Past the rename, or without one. -/
def afterRename (newPassword name : String) : ChangePhase :=
  if newPassword ≠ "" then .checking name else .purgingOld name

def changeStep (cfg : Settings) (env : Fresh) (s : Accounts)
    (username currentPassword newUsername newPassword : String) : ChangePhase → Next ChangePhase
  | .reading =>
    match getAdministrator s username with
    | none => (s, .refused noSuchAdministrator, none)
    | some admin =>
      if !admin.accepts cfg currentPassword then (s, .refused wrongPassword, none)
      else if changeTarget username newUsername ≠ username then
        (s, .silent, some (.renamingUser (changeTarget username newUsername)))
      else if newPassword ≠ "" then (s, .silent, some (.checking username))
      else (s, .refused nothingToChange, none)
  | .renamingUser name =>
    match updateAdministratorUsername s username name with
    | none => (s, .refused usernameTaken, none)
    | some s' => (s', .silent, some (afterRename newPassword name))
  | .checking name =>
    if env.passwordOk newPassword then (s, .silent, some (.storing name))
    else (s, .refused weakPassword, none)
  | .storing name =>
    (updateAdministratorPassword s name (hashPassword cfg newPassword env.salt) env.salt false,
      .silent, some (.purgingOld name))
  | .purgingOld name =>
    if name ≠ username then
      (deleteAdminTokensForUser s username, .silent, some (.purgingNew name))
    else (deleteAdminTokensForUser s username,
      if newPassword ≠ "" then .changed name newPassword false else .done, none)
  | .purgingNew name =>
    (deleteAdminTokensForUser s name,
      if newPassword ≠ "" then .changed name newPassword false else .done, none)

/-- The common course of the forced change and the reset. -/
inductive StorePhase where
  | reading
  | checking
  | storing
  | purging
  deriving DecidableEq

/-- `force_admin_password_change`, which asks for the current password, and
`reset_administrator_password_route`, which does not. -/
def storeStep (cfg : Settings) (env : Fresh) (s : Accounts) (username : String)
    (currentPassword : Option String) (newPassword : String) (mustChangePassword : Bool) :
    StorePhase → Next StorePhase
  | .reading =>
    match getAdministrator s username with
    | none => (s, .refused noSuchAdministrator, none)
    | some admin =>
      if (currentPassword.map fun p => !admin.accepts cfg p).getD false then
        (s, .refused wrongPassword, none)
      else if newPassword = "" then (s, .refused emptyPassword, none)
      else (s, .silent, some .checking)
  | .checking =>
    if env.passwordOk newPassword then (s, .silent, some .storing)
    else (s, .refused weakPassword, none)
  | .storing =>
    (updateAdministratorPassword s username (hashPassword cfg newPassword env.salt) env.salt
      mustChangePassword, .silent, some .purging)
  | .purging =>
    (deleteAdminTokensForUser s username, .changed username newPassword mustChangePassword, none)

def forceStep (cfg : Settings) (env : Fresh) (s : Accounts)
    (username currentPassword newPassword : String) : StorePhase → Next StorePhase :=
  storeStep cfg env s username (some currentPassword) newPassword false

def resetStep (cfg : Settings) (env : Fresh) (s : Accounts) (username newPassword : String) :
    StorePhase → Next StorePhase :=
  storeStep cfg env s username none newPassword true

/-! ## All of them together -/

inductive AdminThread where
  | login (username password : String) (phase : LoginPhase)
  | sso (username role : String) (phase : SsoPhase)
  | add (username password role acting : String) (phase : AddPhase)
  | remove (username : String) (phase : RemovePhase)
  | setRole (username newRole : String) (phase : SetRolePhase)
  | change (username currentPassword newUsername newPassword : String) (phase : ChangePhase)
  | force (username currentPassword newPassword : String) (phase : StorePhase)
  | reset (username newPassword : String) (phase : StorePhase)
  | resolve (token : String)
  deriving DecidableEq

def Next.thread {φ : Type} (f : φ → AdminThread) (r : Next φ) : Next AdminThread :=
  (r.1, r.2.1, r.2.2.map f)

def adminStep (cfg : Settings) (env : Fresh) (s : Accounts) : AdminThread → Next AdminThread
  | .login u p phase => (loginStep cfg env s u p phase).thread (.login u p)
  | .sso u r phase => (ssoStep cfg env s u r phase).thread (.sso u r)
  | .add u p r a phase => (addStep cfg env s u p r a phase).thread (.add u p r a)
  | .remove u phase => (removeStep s u phase).thread (.remove u)
  | .setRole u r phase => (setRoleStep cfg s u r phase).thread (.setRole u r)
  | .change u c n p phase => (changeStep cfg env s u c n p phase).thread (.change u c n p)
  | .force u c p phase => (forceStep cfg env s u c p phase).thread (.force u c p)
  | .reset u p phase => (resetStep cfg env s u p phase).thread (.reset u p)
  | .resolve token =>
    ((resolveAdminToken cfg s token env.now).2,
      .resolved token (resolveAdminToken cfg s token env.now).1, none)

/-- The names and roles a request comes with, as its model or its first lines leave them. -/
def Entry : AdminThread → Prop
  | .login u _ phase => u = strip u ∧ phase = .reading
  | .sso u r phase => u = strip u ∧ r ∈ knownRoles ∧ phase = .reading
  | .add _ _ _ _ phase => phase = .counting
  | .remove _ phase => phase = .reading
  | .setRole _ _ phase => phase = .reading
  | .change _ _ _ _ phase => phase = .reading
  | .force _ _ _ phase | .reset _ _ phase => phase = .reading
  | .resolve _ => True

def accounts (cfg : Settings) : Program Accounts AdminThread AdminEvent :=
  ⟨Entry, fun s th e s' th' => ∃ env, adminStep cfg env s th = (s', e, th')⟩

abbrev AccountPool := Pool Accounts AdminThread
abbrev AccountEvent := Interleaving.Event AdminThread AdminEvent

/-! ## What a step writes -/

/-- The statements that write, with what they are given. -/
inductive Write where
  | rehash (username password : String) (mustChangePassword : Bool)
  | mint (username role : String) (epoch : ℕ)
  | role (username role : String)
  | adopt (username role : String)
  | add (row : Administrator)
  | remove (username : String)
  | rename (oldUsername newUsername : String)
  | store (username password : String) (mustChangePassword : Bool)
  | purge (username : String)
  | resolve (token : String)

def Write.apply (cfg : Settings) (env : Fresh) (s : Accounts) : Write → Accounts
  | .rehash u p must => storePassword s u (hashPassword cfg p env.salt) env.salt must
  | .mint u r epoch =>
    createAdminToken s ⟨cfg.tokenAtRest env.token, u, r, env.now + 12 * 60 * 60, epoch⟩
  | .role u r => setAdministratorRole s u r
  | .adopt u r => adoptAdministratorForSso s u r (hashPassword cfg env.token env.salt) env.salt
  | .add row => (addAdministrator s row).getD s
  | .remove u => removeAdministrator s u
  | .rename u n => (updateAdministratorUsername s u n).getD s
  | .store u p must =>
    updateAdministratorPassword s u (hashPassword cfg p env.salt) env.salt must
  | .purge u => deleteAdminTokensForUser s u
  | .resolve token => (resolveAdminToken cfg s token env.now).2

/-- The statement a thread is about to execute, if it writes. -/
def AdminThread.write (cfg : Settings) (env : Fresh) : AdminThread → Option Write
  | .login u p (.rehashing admin _) => some (.rehash u p admin.mustChangePassword)
  | .login u _ (.minting admin epoch) =>
    some (.mint u (if admin.role.getD "" = "" then "auditor" else admin.role.getD "") epoch)
  | .sso u r .adding => some (.add (ssoAccount u r (hashPassword cfg env.token env.salt) env.salt))
  | .sso u r .adopting => some (.adopt u r)
  | .sso u r .syncing => some (.role u r)
  | .sso u r (.minting epoch) => some (.mint u r epoch)
  | .add u p r a .inserting => some (.add ⟨u, hashPassword cfg p env.salt, env.salt, true,
      some a, some r, false⟩)
  | .remove u (.deleting _) => some (.remove u)
  | .setRole u r (.updating _) => some (.role u r)
  | .setRole u _ .purging => some (.purge u)
  | .change u _ _ _ (.renamingUser name) => some (.rename u name)
  | .change _ _ _ p (.storing name) => some (.store name p false)
  | .change u _ _ _ (.purgingOld _) => some (.purge u)
  | .change _ _ _ _ (.purgingNew name) => some (.purge name)
  | .force u _ p .storing => some (.store u p false)
  | .force u _ _ .purging => some (.purge u)
  | .reset u p .storing => some (.store u p true)
  | .reset u _ .purging => some (.purge u)
  | .resolve token => some (.resolve token)
  | _ => none

/-- A step changes the tables by its one statement or not at all. -/
theorem adminStep_state (cfg : Settings) (env : Fresh) (s : Accounts) (th : AdminThread) :
    (adminStep cfg env s th).1 = ((th.write cfg env).map (Write.apply cfg env s)).getD s := by
  cases th with
  | login u p phase =>
    cases phase with
    | reading =>
      simp only [adminStep, loginStep, AdminThread.write, Next.thread]
      grind
    | _ => rfl
  | sso u r phase =>
    cases phase with
    | reading =>
      simp only [adminStep, ssoStep, AdminThread.write, Next.thread]
      grind
    | _ => rfl
  | add u p r a phase =>
    cases phase with
    | counting =>
      simp only [adminStep, addStep, AdminThread.write, Next.thread]
      grind
    | inserting =>
      simp only [adminStep, addStep, AdminThread.write, Next.thread, Option.map_some,
        Option.getD_some, Write.apply]
      split <;> simp_all
  | remove u phase =>
    cases phase with
    | deleting => rfl
    | _ =>
      simp only [adminStep, removeStep, AdminThread.write, Next.thread]
      grind
  | setRole u r phase =>
    cases phase with
    | updating => rfl
    | purging => rfl
    | _ =>
      simp only [adminStep, setRoleStep, AdminThread.write, Next.thread]
      grind
  | change u c n p phase =>
    cases phase with
    | reading | checking =>
      simp only [adminStep, changeStep, AdminThread.write, Next.thread]
      grind
    | renamingUser name =>
      simp only [adminStep, changeStep, AdminThread.write, Next.thread, Option.map_some,
        Option.getD_some, Write.apply]
      split <;> simp_all
    | purgingOld name =>
      simp only [adminStep, changeStep, AdminThread.write, Next.thread, Option.map_some,
        Option.getD_some, Write.apply]
      split <;> rfl
    | _ => rfl
  | force u c p phase =>
    cases phase with
    | reading | checking =>
      simp only [adminStep, forceStep, storeStep, AdminThread.write, Next.thread]
      grind
    | _ => rfl
  | reset u p phase =>
    cases phase with
    | reading | checking =>
      simp only [adminStep, resetStep, storeStep, AdminThread.write, Next.thread]
      grind
    | _ => rfl
  | resolve token => rfl

end AdminAccounts
