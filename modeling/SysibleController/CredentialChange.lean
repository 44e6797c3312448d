import SysibleController.AdminAccounts

/-! `change_admin_credentials` called on its own: the steps of `changeStep` in their order, with
the password policy that the fifth of them asks. -/
namespace CredentialChange

open KeyedTable PythonText Interleaving AdminAccounts

structure ChangeAdminCredentialsRequest where
  username : String
  currentPassword : String
  newUsername : String
  newPassword : String
  deriving DecidableEq

/-- The stored policy; a field it does not have is `none`. -/
structure PasswordPolicy where
  minlen : Option ℤ
  lcredit : Option ℤ
  ucredit : Option ℤ
  dcredit : Option ℤ
  ocredit : Option ℤ
  deriving DecidableEq

/-- `policy.get(name, 0) < 0` -/
def requires (credit : Option ℤ) : Bool := credit.getD 0 < 0

def isLetter (c : Char) : Bool := c.isLower || c.isUpper

/-- The message of the first requirement that is not met. -/
def validatePasswordAgainstPolicy (password : String) (policy : PasswordPolicy) : Option String :=
  let minlen := policy.minlen.getD 12
  let any := password.toList.any
  if password.length < minlen then some s!"Password must be at least {minlen} characters long."
  else if requires policy.lcredit && !any Char.isLower then
    some "Password must include at least one lowercase letter."
  else if requires policy.ucredit && !any Char.isUpper then
    some "Password must include at least one uppercase letter."
  else if requires policy.dcredit && !any Char.isDigit then
    some "Password must include at least one digit."
  else if requires policy.ocredit && !any fun c => !(isLetter c || c.isDigit) then
    some "Password must include at least one symbol (e.g. ! @ # $ %)."
  else none

/-- The rename is left out when the name stays; `none` is its refusal. -/
def renameTo (s : Accounts) (username newUsername : String) : Option Accounts :=
  if newUsername ≠ username then updateAdministratorUsername s username newUsername else some s

/-- The two deletions of tokens at the end. -/
def purgeTokens (s : Accounts) (username newUsername : String) : Accounts :=
  if newUsername ≠ username then
    deleteAdminTokensForUser (deleteAdminTokensForUser s username) newUsername
  else deleteAdminTokensForUser s username

/-- The answer, or the HTTP error, and the tables it leaves. -/
abbrev Outcome := Except HTTPException String × Accounts

/-- The handler from the password on; `newUsername` is the name that the account has by now. -/
def changePassword (cfg : Settings) (policy : PasswordPolicy) (salt : String) (s : Accounts)
    (body : ChangeAdminCredentialsRequest) (newUsername : String) : Outcome :=
  if body.newPassword ≠ "" then
    match validatePasswordAgainstPolicy body.newPassword policy with
    | some message => (.error ⟨400, message⟩, s)
    | none =>
      (.ok newUsername, purgeTokens (updateAdministratorPassword s newUsername
        (hashPassword cfg body.newPassword salt) salt false) body.username newUsername)
  else if newUsername ≠ body.username then
    (.ok newUsername, purgeTokens s body.username newUsername)
  else (.error nothingToChange, s)

def changeAdminCredentials (cfg : Settings) (policy : PasswordPolicy) (salt : String) (s : Accounts)
    (body : ChangeAdminCredentialsRequest) : Outcome :=
  match getAdministrator s body.username with
  | none => (.error noSuchAdministrator, s)
  | some admin =>
    if !admin.accepts cfg body.currentPassword then (.error wrongPassword, s)
    else
      let newUsername := changeTarget body.username body.newUsername
      match renameTo s body.username newUsername with
      | none => (.error usernameTaken, s)
      | some s' => changePassword cfg policy salt s' body newUsername

variable {cfg : Settings} {policy : PasswordPolicy} {salt : String} {s s' : Accounts}
variable {body : ChangeAdminCredentialsRequest}

/-! ## The thread of the handler -/

/-- What the handler takes from outside when this policy is in force. -/
def fresh (policy : PasswordPolicy) (salt : String) (hsalt : salt ≠ "") : Fresh where
  now := 0
  salt := salt
  salted := hsalt
  token := ""
  passwordOk password := (validatePasswordAgainstPolicy password policy).isNone
  gatewayOk := true
  throttled := false

def thread (body : ChangeAdminCredentialsRequest) (phase : ChangePhase) : AdminThread :=
  .change body.username body.currentPassword body.newUsername body.newPassword phase

/-- The thread alone, from this phase on, can end with these tables. -/
def EndsWith (cfg : Settings) (s : Accounts) (body : ChangeAdminCredentialsRequest)
    (phase : ChangePhase) (s' : Accounts) : Prop :=
  ∃ es, ∀ start, ((accounts cfg).machine start).Run ⟨s, [thread body phase]⟩ es ⟨s', []⟩

theorem EndsWith.step {phase next : ChangePhase} {e : AdminEvent} {t : Accounts} (env : Fresh)
    (h : changeStep cfg env s body.username body.currentPassword body.newUsername
      body.newPassword phase = (t, e, some next)) (hnext : EndsWith cfg t body next s') :
    EndsWith cfg s body phase s' := by
  obtain ⟨es, hrun⟩ := hnext
  refine ⟨.act (thread body phase) e :: es, fun start => .cons (Steps.first ⟨env, ?_⟩) (hrun start)⟩
  rw [thread, adminStep, h]
  rfl

theorem EndsWith.last {phase : ChangePhase} {e : AdminEvent} {t : Accounts} (env : Fresh)
    (h : changeStep cfg env s body.username body.currentPassword body.newUsername
      body.newPassword phase = (t, e, none)) : EndsWith cfg s body phase t := by
  refine ⟨[.act (thread body phase) e], fun _ => .single (Steps.first_ends ⟨env, ?_⟩)⟩
  rw [thread, adminStep, h]
  rfl

theorem purge_endsWith (env : Fresh) (name : String) :
    EndsWith cfg s body (.purgingOld name) (purgeTokens s body.username name) := by
  unfold purgeTokens
  split
  · next hne => exact .step env (by rw [changeStep, if_pos hne]) (.last env rfl)
  · next heq => exact .last env (by rw [changeStep, if_neg heq])

theorem changePassword_endsWith (hsalt : salt ≠ "") {name : String}
    (hchange : body.newPassword ≠ "" ∨ name ≠ body.username) :
    EndsWith cfg s body (afterRename body.newPassword name)
      (changePassword cfg policy salt s body name).2 := by
  let env := fresh policy salt hsalt
  unfold changePassword afterRename
  by_cases hempty : body.newPassword = ""
  · have hne : name ≠ body.username := hchange.resolve_left fun h => h hempty
    simpa [hempty, hne] using purge_endsWith env name
  · rw [if_pos hempty, if_pos hempty]
    cases hcheck : validatePasswordAgainstPolicy body.newPassword policy with
    | some message =>
      have hbad : ¬ env.passwordOk body.newPassword = true := by simp [env, fresh, hcheck]
      exact .last env (by rw [changeStep, if_neg hbad])
    | none =>
      have hok : env.passwordOk body.newPassword = true := by simp [env, fresh, hcheck]
      exact .step env (by rw [changeStep, if_pos hok]) (.step env rfl (purge_endsWith env name))

/-- The function does what the steps of the handler do when nothing else runs in between. -/
theorem changeAdminCredentials_endsWith (cfg : Settings) (policy : PasswordPolicy)
    (hsalt : salt ≠ "") (s : Accounts) (body : ChangeAdminCredentialsRequest) :
    EndsWith cfg s body .reading (changeAdminCredentials cfg policy salt s body).2 := by
  let env := fresh policy salt hsalt
  unfold changeAdminCredentials
  cases hrow : getAdministrator s body.username with
  | none => exact .last env (by rw [changeStep, hrow])
  | some admin =>
    dsimp only
    by_cases hpass : admin.accepts cfg body.currentPassword = true
    case neg =>
      rw [if_pos (by simp [hpass])]
      exact .last env (by rw [changeStep, hrow]; exact if_pos (by simp [hpass]))
    rw [if_neg (by simp [hpass]), renameTo]
    by_cases hname : changeTarget body.username body.newUsername ≠ body.username
    · have hread : changeStep cfg env s body.username body.currentPassword body.newUsername
          body.newPassword .reading =
            (s, .silent, some (.renamingUser (changeTarget body.username body.newUsername))) := by
        simp [changeStep, hrow, hpass, hname]
      rw [if_pos hname]
      refine .step env hread ?_
      cases hren : updateAdministratorUsername s body.username
          (changeTarget body.username body.newUsername) with
      | none => exact .last env (by rw [changeStep, hren])
      | some s' =>
        exact .step env (by rw [changeStep, hren]) (changePassword_endsWith hsalt (.inr hname))
    · rw [if_neg hname, not_not.mp hname]
      dsimp only
      by_cases hempty : body.newPassword = ""
      · rw [changePassword, if_neg (by simp [hempty]), if_neg (by simp)]
        have hread : changeStep cfg env s body.username body.currentPassword body.newUsername
            body.newPassword .reading = (s, .refused nothingToChange, none) := by
          simp [changeStep, hrow, hpass, hname, hempty]
        exact .last env hread
      · have hread : changeStep cfg env s body.username body.currentPassword body.newUsername
            body.newPassword .reading =
              (s, .silent, some (afterRename body.newPassword body.username)) := by
          simp [changeStep, hrow, hpass, hname, hempty, afterRename]
        exact .step env hread (changePassword_endsWith hsalt (.inl hempty))

/-! ## What a refusal leaves -/

/-- A call that is answered with an HTTP error leaves both tables as they were. -/
def RefusalUnchanged (cfg : Settings) (policy : PasswordPolicy) (salt : String) (s : Accounts)
    (body : ChangeAdminCredentialsRequest) : Prop :=
  ∀ e, (changeAdminCredentials cfg policy salt s body).1 = .error e →
    (changeAdminCredentials cfg policy salt s body).2.administrators = s.administrators ∧
      (changeAdminCredentials cfg policy salt s body).2.adminTokens = s.adminTokens

/-- The current password is right and the new name is another one that is free, but the new
password is not good enough. -/
def RenamesThenRejects (cfg : Settings) (policy : PasswordPolicy) (s : Accounts)
    (body : ChangeAdminCredentialsRequest) : Prop :=
  (∃ admin, getAdministrator s body.username = some admin ∧
    admin.accepts cfg body.currentPassword = true) ∧
  changeTarget body.username body.newUsername ≠ body.username ∧
  s.administrators.find (changeTarget body.username body.newUsername) = none ∧
  body.newPassword ≠ "" ∧ validatePasswordAgainstPolicy body.newPassword policy ≠ none

theorem changePassword_refused {e : HTTPException} {name : String}
    (h : (changePassword cfg policy salt s body name).1 = .error e) :
    (changePassword cfg policy salt s body name).2 = s := by
  unfold changePassword at h ⊢
  split_ifs at h ⊢
  · split at h
    · rfl
    · cases h
  · rfl

theorem changePassword_refused_iff {name : String} (hname : name ≠ body.username) :
    (∃ e, (changePassword cfg policy salt s body name).1 = .error e) ↔ body.newPassword ≠ "" ∧
      validatePasswordAgainstPolicy body.newPassword policy ≠ none := by
  unfold changePassword
  by_cases hempty : body.newPassword = ""
  · simp [hempty, hname]
  · cases hcheck : validatePasswordAgainstPolicy body.newPassword policy <;> simp [hempty]

/-- The old name has no row any more. -/
theorem rename_changes {old new : String} {admin : Administrator}
    (hrow : s.administrators.find old = some admin) (hne : new ≠ old)
    (h : updateAdministratorUsername s old new = some s') :
    s'.administrators ≠ s.administrators := by
  intro heq
  have hfind : s'.administrators.find old = none := by
    rw [updateAdministratorUsername, hrow] at h
    dsimp only at h
    split_ifs at h
    obtain rfl := Option.some.inj h
    simp [hne.symm, hrow, Table.key_of_find hrow]
  rw [heq, hrow] at hfind
  cases hfind

theorem rename_free_iff {old new : String} {admin : Administrator}
    (hrow : s.administrators.find old = some admin) :
    (∃ s', updateAdministratorUsername s old new = some s') ↔
      s.administrators.find new = none := by
  rw [updateAdministratorUsername, hrow]
  cases s.administrators.find new <;> simp

/-- The rename is committed before the new password is looked at. -/
theorem refusal_unchanged_iff (cfg : Settings) (policy : PasswordPolicy) (salt : String)
    (s : Accounts) (body : ChangeAdminCredentialsRequest) :
    RefusalUnchanged cfg policy salt s body ↔ ¬ RenamesThenRejects cfg policy s body := by
  constructor
  · rintro h ⟨⟨admin, hrow, hpass⟩, hname, hfree, hbad⟩
    obtain ⟨s', hren⟩ := (rename_free_iff hrow).mpr hfree
    have heq : changeAdminCredentials cfg policy salt s body = changePassword cfg policy salt s'
        body (changeTarget body.username body.newUsername) := by
      simp [changeAdminCredentials, hrow, hpass, renameTo, hname, hren]
    obtain ⟨e, he⟩ := (changePassword_refused_iff (s := s') hname).mpr hbad
    have hsame := h e (heq ▸ he)
    rw [heq, changePassword_refused he] at hsame
    exact rename_changes hrow hname hren hsame.1
  · intro h e
    unfold changeAdminCredentials
    cases hrow : getAdministrator s body.username with
    | none => exact fun _ => ⟨rfl, rfl⟩
    | some admin =>
      dsimp only
      split_ifs with hpass
      · exact fun _ => ⟨rfl, rfl⟩
      cases hren : renameTo s body.username (changeTarget body.username body.newUsername) with
      | none => exact fun _ => ⟨rfl, rfl⟩
      | some s' =>
        dsimp only
        intro he
        rw [changePassword_refused he]
        unfold renameTo at hren
        split_ifs at hren with hname
        · refine absurd ⟨⟨admin, hrow, by simpa using hpass⟩, hname, ?_, ?_⟩ h
          · exact (rename_free_iff hrow).mp ⟨s', hren⟩
          · exact (changePassword_refused_iff hname).mp ⟨e, he⟩
        · obtain rfl := Option.some.inj hren
          exact ⟨rfl, rfl⟩

/-- PBKDF2 as a parameter: every password accepts itself alone. -/
def plainText : Settings := ⟨fun password _ _ => password, id, fun _ => none⟩

def oneAdministrator : Accounts :=
  ⟨⟨[⟨"admin", "600000$Old-Passw0rd!", "salt", false, none, some "superuser", false⟩], by simp⟩,
    .empty, fun _ => 0⟩

/-- The default policy. -/
def fourClasses : PasswordPolicy := ⟨some 12, some (-1), some (-1), some (-1), some (-1)⟩

def renameWithShortPassword : ChangeAdminCredentialsRequest :=
  ⟨"admin", "Old-Passw0rd!", "root2", "short"⟩

/-- The answer is an error, and the account has been renamed. -/
theorem refused_request_renames :
    ¬ RefusalUnchanged plainText fourClasses "salt" oneAdministrator renameWithShortPassword := by
  intro h
  have hrefused : (changeAdminCredentials plainText fourClasses "salt" oneAdministrator
      renameWithShortPassword).1 =
        .error ⟨400, "Password must be at least 12 characters long."⟩ := by decide
  have hrows := congrArg Table.rows (h _ hrefused).1
  revert hrows
  decide

end CredentialChange
