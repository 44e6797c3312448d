import SysibleController.AgentTransfer
import Mathlib.Data.List.Infix

/-! How the agent executes a task (`_exec`, `_run_as_user`, `run_command`). Each call of `_exec` is
kept with how it ended and whether the command of the task itself was executed in it, which sudo or
runuser may refuse. The codec of the locale, `str.lower` and `/etc/os-release` are parameters. -/
namespace AgentCommand

open PathText PythonText AgentTransfer

abbrev Bytes := List UInt8

/-- The strict decoder of the locale with the text of its error. `osRelease` is nothing where the
file cannot be opened. -/
structure Surroundings where
  decode : Bytes → Option Text
  decodeError : Bytes → Text
  lower : Text → Text
  osRelease : Option Text

structure Result where
  stdout : Text
  stderr : Text
  returncode : ℤ
  deriving DecidableEq

/-- How a process ended. `failed` is any other exception, such as a program that is not there. -/
inductive Ending where
  | exited (code : ℤ) (stdout stderr : Bytes)
  | timedOut
  | failed (message : Text)

structure Attempt where
  ran : Bool
  ending : Ending

structure Call where
  mode : Mode
  attempt : Attempt

/-- What a host does with the `n`-th call of a task. -/
structure Host where
  userExists : Text → Bool
  root : Bool
  exec : ℕ → List Text → Option Text → Attempt

/-- What is known of a task when it is over; `note` is what was added to its error output. -/
structure Run where
  calls : List Call
  note : Option Text
  result : Result

/-- `data.replace("\r\n", "\n").replace("\r", "\n")` -/
def translateNewlines : Text → Text
  | [] => []
  | '\r' :: '\n' :: t => '\n' :: translateNewlines t
  | c :: t => (if c = '\r' then '\n' else c) :: translateNewlines t

def rstrip (t : Text) : Text := t.rdropWhile isSpace

variable (env : Surroundings)

/-- `_exec`; the output of both streams is decoded before the result is built. -/
def execResult : Ending → Result
  | .exited code stdout stderr =>
    match env.decode stdout with
    | none => ⟨[], env.decodeError stdout, -1⟩
    | some out =>
      match env.decode stderr with
      | none => ⟨[], env.decodeError stderr, -1⟩
      | some err => ⟨truncate (translateNewlines out), truncate (translateNewlines err), code⟩
  | .timedOut => ⟨[], "command timed out".toList, -1⟩
  | .failed message => ⟨[], message, -1⟩

def contains (t : Text) (phrases : List String) : Bool := phrases.any fun m => m.toList <:+: t

def privErrorHints : List String :=
  ["permission denied", "operation not permitted", "must be root", "must be run as root",
    "are not allowed", "not permitted", "only root", "you need to be root", "eperm", "eacces",
    "a password is required", "a terminal is required", "sudo:", "root privileges",
    "access denied", "not authorized", "requires root", "superuser privileges",
    "run with superuser", "unless you are root", "interactive authentication required",
    "authentication is required", "authentication required", "not privileged",
    "rejected send message"]

def looksLikePrivilegeError (stderr : Text) : Bool := contains (env.lower stderr) privErrorHints

def policyPhrases : List String :=
  ["password is required", "a terminal is required", "no tty present", "not allowed to execute",
    "not in the sudoers", "incorrect password", "sorry, try again", "authentication failure"]

def policyRefusal (stderr : Text) : Bool := contains (env.lower stderr) policyPhrases

/-! ### What the agent adds -/

def quoted (user : Text) : Text := '\'' :: (user ++ ['\''])

def noSuchUser (user : Text) : Result :=
  ⟨[], "RBAC: local user ".toList ++ quoted user ++ (" does not exist on this host, so the " ++
    "command cannot be run as that role. Create the user (with the " ++
    "sudo policy you want) on this host.").toList, 126⟩

def notRunAsRoot (user : Text) : Text :=
  "\n[sysible] NOT RUN AS ROOT. ".toList ++ quoted user ++ (" cannot sudo on this host, so " ++
    "this ran unprivileged and anything needing root inside it will have " ++
    "been refused — read the output with that in mind. Grant ").toList ++ quoted user ++
    (" sudo here, or mark this host as 'password sudo' and supply the " ++
    "password, to run it as root.").toList

def targetpwHint (user : Text) : Text :=
  (" NOTE: openSUSE/SLES default sudo to 'targetpw', so it " ++
    "expects this host's ROOT password here, not your user " ++
    "password. Fix: store the host's ROOT password as its sudo " ++
    "password, or add a sudoers rule for the user ('Defaults:").toList ++ user ++
    " !targetpw' plus NOPASSWD).".toList

def rejectedHint (user : Text) : Text :=
  "\n[sysible] sudo rejected the password for ".toList ++ quoted user ++ " on this host.".toList ++
    match env.osRelease with
    | none => []
    | some release => if "suse".toList <:+: env.lower release then targetpwHint user else []

def needsRootHint (user : Text) : Text :=
  "\n[sysible] This action needs root, but ".toList ++ quoted user ++ (" can't run it via " ++
    "passwordless sudo here. Either grant ").toList ++ quoted user ++ (" NOPASSWD sudo for it, " ++
    "or mark this host as 'password sudo' so Sysible supplies your sudo password.").toList

/-- The hint for an escalated command that failed. -/
def escalationNote (user : Text) (password : Bool) (res : Result) : Option Text :=
  let low := env.lower res.stderr
  if res.returncode = 0 then none
  else if password then
    if contains low ["try again", "incorrect password", "sorry"] then some (rejectedHint env user)
    else none
  else if contains low ["password is required", "a terminal is required", "no tty present",
      "not allowed to execute", "not in the sudoers"] then some (needsRootHint user)
  else none

def withNote (res : Result) : Option Text → Result
  | none => res
  | some note => { res with stderr := rstrip res.stderr ++ note }

/-! ### The paths -/

/-- An empty password counts as none. -/
def hasPassword : Option Text → Bool
  | none | some [] => false
  | some _ => true

def become (password : Option Text) : Become := if hasPassword password then .password else .sudo

/-- The password goes to `sudo -S` with a newline. -/
def stdin (password : Option Text) : Option Text :=
  if hasPassword password then password.map (· ++ ['\n']) else none

def Host.call (h : Host) (n : ℕ) (mode : Mode) (cmd : Text) (input : Option Text) : Call :=
  ⟨mode, h.exec n (mode.argv cmd) input⟩

def Call.result (c : Call) : Result := execResult env c.attempt.ending

def runAsUser (h : Host) (user cmd : Text) (password : Option Text) (wantRoot : Bool) : Run :=
  let plain := Mode.user user h.root .no
  let elevated := Mode.user user h.root (become password)
  if !h.userExists user then ⟨[], none, noSuchUser user⟩
  else if wantRoot then
    let first := h.call 0 elevated cmd (stdin password)
    let res := first.result env
    if res.returncode = 0 then ⟨[first], none, res⟩
    else if !policyRefusal env res.stderr then ⟨[first], none, res⟩
    else
      let second := h.call 1 plain cmd none
      let note := some (notRunAsRoot user)
      ⟨[first, second], note, withNote (second.result env) note⟩
  else
    let call := h.call 0 plain cmd none
    let first := call.result env
    if first.returncode = 0 ∨
        looksLikePrivilegeError env (first.stderr ++ '\n' :: first.stdout) = false then
      ⟨[call], none, first⟩
    else
      let second := h.call 1 elevated cmd (stdin password)
      let res := second.result env
      let note := escalationNote env user (hasPassword password) res
      ⟨[call, second], note, withNote res note⟩

def runCommand (h : Host) (cmd : Text) (runAs password : Option Text) (wantRoot : Bool) : Run :=
  match runAs with
  | none | some [] =>
    let call := h.call 0 (.agent h.root) cmd none
    ⟨[call], none, call.result env⟩
  | some user => runAsUser env h user cmd password wantRoot

/-- A locale with UTF-8. -/
def sampleSurroundings : Surroundings :=
  ⟨fromUtf8, fun _ => "'utf-8' codec can't decode".toList, fun t => t.map Char.toLower, none⟩

end AgentCommand
