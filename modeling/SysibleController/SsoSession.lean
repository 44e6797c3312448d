import SysibleController.PythonText
import Mathlib.Data.Rat.Defs
import Mathlib.Tactic.NormNum

/-! The console's session under single sign-on (`webgui/server.py`): how the identity that the
gateway asserts is adopted, and what the auth gates then decide from. The answers of the
controller and the cipher of the session's token are parameters; `None` and a blank text are
both `""` where the code only asks for truth. -/
namespace SsoSession

open PythonText

/-- `SYSIBLE_WEBGUI_TRUST_SSO` and the shared secret. -/
structure Settings where
  trustSso : Bool
  secret : String
  revalTtl : ℚ

structure Headers where
  auth : String
  user : String
  role : String

/-- The contents of the session cookie. -/
structure Session where
  sso : Bool
  user : String
  role : String
  sudoConnect : Bool
  mustChangePassword : Bool
  tokenEnc : String
  revalAt : ℚ
  deriving DecidableEq

def Session.cleared : Session := ⟨false, "", "", false, false, "", 0⟩

/-- What `sso_provision` returns. -/
structure Provisioned where
  role : String
  sudoConnect : Bool
  token : String

/-- How `whoami` ends: a role (`""` for none), a refusal with status 401 or 403, or another error. -/
inductive Whoami where
  | role (r : String)
  | refused
  | failed

/-- The rest of the world, as one request meets it. -/
structure World where
  provision : String → String → Option Provisioned
  whoami : String → Whoami
  encrypt : String → String
  decrypt : String → Option String
  now : ℚ

variable (cfg : Settings) (w : World) (req : Headers)

def ssoOnly : Bool := cfg.trustSso && cfg.secret ≠ ""

/-- `_SSO_ROLE_MAP` -/
def roleMap : List (String × String) :=
  [("superuser", "superuser"), ("operator", "sysadmin"), ("auditor", "auditor")]

def ssoIdentity : Option (String × String) :=
  if ssoOnly cfg = false then none
  else if req.auth ≠ cfg.secret then none
  else if strip req.user = "" then none
  else some (strip req.user, (roleMap.lookup (lower (strip req.role))).getD "auditor")

def tokenFromSession (s : Session) : Option String :=
  if s.tokenEnc = "" then none else (w.decrypt s.tokenEnc).filter (· ≠ "")

/-- The session of this very identity is used again. -/
def reused (user role : String) (s : Session) : Bool :=
  s.sso && s.user = user && s.role = role && (tokenFromSession w s).isSome

def adopt (user role : String) (result : Provisioned) : Session :=
  { sso := true
    user := user
    role := if result.role = "" then role else result.role
    sudoConnect := result.sudoConnect
    mustChangePassword := false
    tokenEnc := if result.token = "" then "" else w.encrypt result.token
    revalAt := 0 }

def ensureSsoSession (s : Session) : Session :=
  match ssoIdentity cfg req with
  | none => s
  | some (user, role) =>
    if reused w user role s then s
    else match w.provision user role with
      | none => s
      | some result => adopt w user role result

def unauthorized (detail : String) : HTTPException := ⟨401, detail⟩

/-- An answer, with the session as it is left. -/
abbrev Answer := Except HTTPException String × Session

/-- `_revalidate_session`; when it raises, the session is left cleared. -/
def revalidate (s : Session) : Except HTTPException Session :=
  match tokenFromSession w s with
  | none => .ok s
  | some tok =>
    if w.now - s.revalAt < cfg.revalTtl then .ok s
    else match w.whoami tok with
      | .refused => .error (unauthorized "Your session is no longer valid. Please log in again.")
      | .failed => .ok s
      | .role r => .ok { s with revalAt := w.now, role := if r = "" then s.role else r }

inductive Gate where
  | login
  | operator
  | superuser

/-- What a gate checks once the session is revalidated. -/
def Gate.check (g : Gate) (user : String) (s : Session) : Answer :=
  let refuse (detail : String) : Answer := (.error ⟨403, detail⟩, s)
  let change :=
    "You must change your temporary password before performing this action."
  match g with
  | .login => (.ok user, s)
  | .operator =>
    if s.role = "auditor" then refuse "Auditor accounts are read-only."
    else if s.mustChangePassword then refuse change
    else (.ok user, s)
  | .superuser =>
    if s.role ≠ "superuser" then refuse "This action requires a superuser account."
    else if s.mustChangePassword then refuse change
    else (.ok user, s)

/-- `require_login`, `require_operator` and `require_superuser_session`. -/
def require (g : Gate) (cookie : Session) : Answer :=
  let s := ensureSsoSession cfg w req cookie
  if ssoOnly cfg = true ∧ ssoIdentity cfg req = none then
    (.error (unauthorized "Sign in at the Sysible Linux Operations Platform."), .cleared)
  else if s.user = "" then (.error (unauthorized "Not authenticated"), s)
  else match revalidate cfg w s with
    | .error e => (.error e, .cleared)
    | .ok t => g.check s.user t

/-! ### Acting as the asserted identity -/

/-- The role that is provisioned for the asserted user: the answer of this request's provisioning,
else the asserted one. -/
def provisionedRole (cookie : Session) (user role : String) : String :=
  if reused w user role cookie then role
  else match w.provision user role with
    | none => role
    | some result => if result.role = "" then role else result.role

/-- Whenever a gate lets the request pass, the gateway vouches for it, and user and role are the
asserted ones. -/
def ActsAsAsserted (cookie : Session) : Prop :=
  ∀ g user s, require cfg w req g cookie = (.ok user, s) →
    req.auth = cfg.secret ∧ ∃ u r, ssoIdentity cfg req = some (u, r) ∧ user = u ∧ s.user = u ∧
      s.role = provisionedRole w cookie u r

/-- If the session is not ended by the live check, it is this user's, in this role. -/
def LiveAs (s : Session) (user role : String) : Prop :=
  ∀ t, revalidate cfg w s = .ok t → s.user = user ∧ t.role = role

/-- The live check confirms the provisioned role; and where provisioning fails, the cookie names
nobody or it is the asserted user's own, in the asserted role. -/
def Faithful (cookie : Session) : Prop :=
  ∀ u r, ssoIdentity cfg req = some (u, r) →
    if reused w u r cookie then LiveAs cfg w cookie u r
    else match w.provision u r with
      | none => cookie.user = "" ∨ LiveAs cfg w cookie u r
      | some result => LiveAs cfg w (adopt w u r result) u (provisionedRole w cookie u r)

variable {cfg w req} {g : Gate} {cookie s t : Session} {user : String}

theorem revalidate_user (h : revalidate cfg w s = .ok t) : t.user = s.user := by
  unfold revalidate at h
  split at h
  · rw [← Except.ok.inj h]
  · split_ifs at h
    · rw [← Except.ok.inj h]
    · split at h
      · exact nomatch h
      · rw [← Except.ok.inj h]
      · rw [← Except.ok.inj h]

theorem check_user {user' : String} (h : g.check user s = (.ok user', t)) : user' = user ∧ t = s := by
  unfold Gate.check at h
  cases g <;> dsimp only at h <;> grind

theorem identity_vouched {u r : String} (h : ssoIdentity cfg req = some (u, r)) :
    req.auth = cfg.secret ∧ u ≠ "" := by
  unfold ssoIdentity at h
  split_ifs at h with hon hauth hu
  · obtain ⟨rfl, -⟩ := Prod.mk.inj (Option.some.inj h)
    exact ⟨not_not.mp hauth, hu⟩

/-- A gate passes the session that is left after adoption and the live check. -/
theorem require_ok_iff (hon : ssoOnly cfg = true) {s' : Session} :
    require cfg w req g cookie = (.ok user, s') ↔
      (ssoIdentity cfg req).isSome = true ∧ (ensureSsoSession cfg w req cookie).user ≠ "" ∧
        ∃ t, revalidate cfg w (ensureSsoSession cfg w req cookie) = .ok t ∧
          g.check (ensureSsoSession cfg w req cookie).user t = (.ok user, s') := by
  unfold require
  cases hid : ssoIdentity cfg req with
  | none => simp [hon]
  | some id =>
    by_cases hu : (ensureSsoSession cfg w req cookie).user = ""
    · simp [hu]
    · cases hr : revalidate cfg w (ensureSsoSession cfg w req cookie) with
      | error e => simp [hu, hr]
      | ok t => simp [hu, hr]

/-- A session that is left after adoption is shown to land as `LiveAs` says by `require_login`. -/
theorem liveAs_of_acts (hon : ssoOnly cfg = true) (h : ActsAsAsserted cfg w req cookie) {u r : String}
    (hid : ssoIdentity cfg req = some (u, r))
    (hu : (ensureSsoSession cfg w req cookie).user ≠ "") :
    LiveAs cfg w (ensureSsoSession cfg w req cookie) u (provisionedRole w cookie u r) := by
  intro t ht
  have hpass : require cfg w req .login cookie =
      (.ok (ensureSsoSession cfg w req cookie).user, t) :=
    (require_ok_iff hon).mpr ⟨by simp [hid], hu, t, ht, rfl⟩
  obtain ⟨-, u', r', hid', huser, -, hrole⟩ := h _ _ _ hpass
  obtain ⟨rfl, rfl⟩ := Prod.mk.inj (Option.some.inj (hid.symm.trans hid'))
  exact ⟨huser, hrole⟩

/-- What a faithful session is, said of the session that is left after adoption. -/
theorem lands_iff {u r : String} (hid : ssoIdentity cfg req = some (u, r)) :
    ((ensureSsoSession cfg w req cookie).user ≠ "" →
      LiveAs cfg w (ensureSsoSession cfg w req cookie) u (provisionedRole w cookie u r)) ↔
    if reused w u r cookie then LiveAs cfg w cookie u r
    else match w.provision u r with
      | none => cookie.user = "" ∨ LiveAs cfg w cookie u r
      | some result => LiveAs cfg w (adopt w u r result) u (provisionedRole w cookie u r) := by
  obtain ⟨-, hu⟩ := identity_vouched hid
  unfold ensureSsoSession
  simp only [hid]
  by_cases hre : reused w u r cookie = true
  · have hcookie : cookie.user = u := by
      simp only [reused, Bool.and_eq_true, decide_eq_true_eq] at hre
      exact hre.1.1.2
    have hne : cookie.user ≠ "" := hcookie ▸ hu
    simp only [provisionedRole, if_pos hre]
    exact ⟨fun h => h hne, fun h _ => h⟩
  · simp only [if_neg hre]
    cases hp : w.provision u r with
    | none =>
      simp only [provisionedRole, if_neg hre, hp]
      exact or_iff_not_imp_left.symm
    | some result => exact ⟨fun h => h hu, fun h _ => h⟩

/-- The gates act as the asserted identity exactly if the session is faithful to it. -/
theorem acts_as_asserted_iff (hon : ssoOnly cfg = true) :
    ActsAsAsserted cfg w req cookie ↔ Faithful cfg w req cookie := by
  constructor
  · intro h u r hid
    exact (lands_iff hid).mp (liveAs_of_acts hon h hid)
  · intro h g user s hpass
    obtain ⟨hsome, hne, t, ht, hcheck⟩ := (require_ok_iff hon).mp hpass
    obtain ⟨⟨u, r⟩, hid⟩ := Option.isSome_iff_exists.mp hsome
    obtain ⟨rfl, rfl⟩ := check_user hcheck
    obtain ⟨huser, hrole⟩ := (lands_iff hid).mpr (h u r hid) hne s ht
    exact ⟨(identity_vouched hid).1, u, r, hid, huser, (revalidate_user ht).trans huser, hrole⟩

def console : Settings := ⟨true, "s3cret", 60⟩

/-- The controller is down. -/
def outage : World := ⟨fun _ _ => none, fun _ => .failed, id, some, 1000⟩

def controller : World :=
  ⟨fun _ role => some ⟨role, false, "t0k"⟩, fun _ => .role "sysadmin", id, some, 1000⟩

def bob : Headers := ⟨"s3cret", "bob", "operator"⟩

/-- Left over from the superuser who used the browser before. -/
def aliceCookie : Session := ⟨true, "alice", "superuser", true, false, "a11ce", 990⟩

theorem bob_asserted : ssoIdentity console bob = some ("bob", "sysadmin") := by decide

theorem acts_as_asserted_sample : ActsAsAsserted console controller bob aliceCookie := by
  refine (acts_as_asserted_iff (by decide)).mpr ?_
  intro u r hid
  obtain ⟨rfl, rfl⟩ := Prod.mk.inj (Option.some.inj (bob_asserted.symm.trans hid))
  have hre : reused controller "bob" "sysadmin" aliceCookie = false := by decide
  have htok : tokenFromSession controller
      (adopt controller "bob" "sysadmin" ⟨"sysadmin", false, "t0k"⟩) = some "t0k" := by decide
  intro t ht
  have hold : ¬ controller.now - (adopt controller "bob" "sysadmin"
      ⟨"sysadmin", false, "t0k"⟩).revalAt < console.revalTtl := by
    norm_num [controller, console, adopt]
  simp only [revalidate, htok, if_neg hold] at ht
  obtain rfl := Except.ok.inj ht
  exact ⟨rfl, by decide⟩

/-- While the controller cannot provision `bob`, a superuser gate lets him pass as `alice`. -/
theorem acts_as_cookie_user : ssoOnly console = true ∧
    ssoIdentity console bob = some ("bob", "sysadmin") ∧
    require console outage bob .superuser aliceCookie = (.ok "alice", aliceCookie) := by
  have hlive : revalidate console outage aliceCookie = .ok aliceCookie := by
    have hfresh : outage.now - aliceCookie.revalAt < console.revalTtl := by
      norm_num [outage, aliceCookie, console]
    have htok : tokenFromSession outage aliceCookie = some "a11ce" := by decide
    simp only [revalidate, htok, if_pos hfresh]
  have hkept : ensureSsoSession console outage bob aliceCookie = aliceCookie := by decide
  refine ⟨by decide, bob_asserted, ?_⟩
  have hne : aliceCookie.user ≠ "" := by decide
  simp only [require, hkept, bob_asserted, hlive, if_neg hne]
  simp [Gate.check, aliceCookie]

end SsoSession
