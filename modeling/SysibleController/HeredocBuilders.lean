import SysibleController.PythonStrip
import SysibleController.ShellReader
import Mathlib.Data.List.Infix

/-! The command builders that write a file through a quoted here-document: systemd units and timers,
overrides, repository definitions and the backup script. -/
namespace HeredocBuilders

open PathText PythonText PythonInt ShellQuote TextLines

/-- A command, and the bodies that the builder has formed for its here-documents. -/
structure Built where
  command : Text
  formed : List Text

def sysibleEof : Text := "SYSIBLE_EOF".toList

def sysibleRepoEof : Text := "SYSIBLE_REPO_EOF".toList

def sysEof : Text := "SYS_EOF".toList

def unitSuffixes : List String :=
  [".service", ".socket", ".target", ".mount", ".automount", ".timer", ".path", ".slice", ".scope",
    ".device", ".swap"]

/-- A name that is not joined into a path as one component. -/
def escapes (n : Text) : Bool := n.contains '/' || n.contains '\\' || decide (['.', '.'] <:+: n)

def serviceUnit (name : Text) : Except String Text :=
  let n := stripText name
  if n = [] then .error "Service name cannot be empty"
  else if escapes n then .error "Service name may not contain '/', '\\' or '..'"
  else .ok (if unitSuffixes.any fun s => s.toList.isSuffixOf n then n else n ++ ".service".toList)

/-- `_reject_newlines` of both modules. -/
def rejectNewlines (field : String) (value : Text) : Except String Unit :=
  if '\n' ∈ value ∨ '\r' ∈ value then .error s!"{field} may not contain newlines" else .ok ()

/-- `v or default`. -/
def orElse (v default : Text) : Text := if v = [] then default else v

/-- The line of a field, unless it is blank. -/
def field (key : String) (value : Text) : List Text :=
  if stripText value = [] then [] else [key.toList ++ stripText value]

/-- A file that is written through a here-document. -/
def catFile (target delim body : Text) : Text :=
  "cat > ".toList ++ target ++ " <<'".toList ++ delim ++ "'\n".toList ++
    (body ++ '\n' :: (delim ++ ['\n']))

def cmdSetServiceDependencies (name after requires wants : Text) : Except String Built := do
  let unit ← serviceUnit name
  rejectNewlines "After" after
  rejectNewlines "Requires" requires
  rejectNewlines "Wants" wants
  let fields := field "After=" after ++ field "Requires=" requires ++ field "Wants=" wants
  if fields = [] then throw "Specify at least one of After / Requires / Wants"
  let overrideDir := "/etc/systemd/system/".toList ++ unit ++ ".d".toList
  let body := unlines ("[Unit]".toList :: fields)
  return ⟨"mkdir -p ".toList ++ quote overrideDir ++ " && ".toList ++
    catFile (quote (overrideDir ++ "/override.conf".toList)) sysibleEof body ++
    "systemctl daemon-reload".toList, [body]⟩

/-- The reload at the end, and what enables the unit if that is wanted. -/
def reload (enableNow : Bool) (unit : Text) : Text :=
  "systemctl daemon-reload".toList ++
    if enableNow then " && systemctl enable --now ".toList ++ quote unit else []

structure Service where
  name : Text
  description : Text
  execStart : Text
  workingDirectory : Text
  runAsUser : Text
  restartPolicy : Text
  after : Text
  enableNow : Bool

def Service.lines (p : Service) : List Text :=
  ["[Unit]".toList, "Description=".toList ++ orElse (stripText p.description) p.name] ++
    field "After=" p.after ++
    [[], "[Service]".toList, "ExecStart=".toList ++ stripText p.execStart,
      "Restart=".toList ++ orElse (stripText p.restartPolicy) "on-failure".toList,
      "User=".toList ++ orElse (stripText p.runAsUser) "root".toList] ++
    field "WorkingDirectory=" p.workingDirectory ++
    [[], "[Install]".toList, "WantedBy=multi-user.target".toList]

def cmdCreateSystemdService (p : Service) : Except String Built := do
  let unit ← serviceUnit p.name
  if stripText p.execStart = [] then throw "ExecStart command cannot be empty"
  rejectNewlines "Description" p.description
  rejectNewlines "ExecStart" p.execStart
  rejectNewlines "WorkingDirectory" p.workingDirectory
  rejectNewlines "User" p.runAsUser
  rejectNewlines "Restart" p.restartPolicy
  rejectNewlines "After" p.after
  let body := unlines p.lines
  return ⟨catFile (quote ("/etc/systemd/system/".toList ++ unit)) sysibleEof body ++
    reload p.enableNow unit, [body]⟩

structure Timer where
  name : Text
  execStart : Text
  onCalendar : Text
  onBootSec : Text
  onUnitActiveSec : Text
  description : Text
  runAsUser : Text
  enableNow : Bool

def safeUnitBase (name : Text) : Except String Text :=
  if escapes (stripText name) then .error "Unit name may not contain '/', '\\' or '..'"
  else .ok (stripText name)

def removeSuffix (suffix : String) (t : Text) : Text :=
  if suffix.toList.isSuffixOf t then t.take (t.length - suffix.toList.length) else t

/-- The name both units go by. -/
def Timer.base (p : Timer) : Text :=
  removeSuffix ".service" (removeSuffix ".timer" (stripText p.name))

def Timer.schedule (p : Timer) : List Text :=
  field "OnCalendar=" p.onCalendar ++ field "OnBootSec=" p.onBootSec ++
    field "OnUnitActiveSec=" p.onUnitActiveSec

def Timer.timerLines (p : Timer) : List Text :=
  "[Timer]".toList :: p.schedule ++ [[], "[Install]".toList, "WantedBy=timers.target".toList]

def Timer.serviceLines (p : Timer) : List Text :=
  ["[Unit]".toList, "Description=".toList ++ orElse (stripText p.description) p.base, [],
    "[Service]".toList, "Type=oneshot".toList, "ExecStart=".toList ++ stripText p.execStart,
    "User=".toList ++ orElse (stripText p.runAsUser) "root".toList]

def cmdCreateSystemdTimer (p : Timer) : Except String Built := do
  let _ ← safeUnitBase p.name
  if p.base = [] then throw "Timer name cannot be empty"
  if stripText p.execStart = [] then throw "ExecStart command cannot be empty"
  rejectNewlines "ExecStart" p.execStart
  rejectNewlines "Description" p.description
  rejectNewlines "User" p.runAsUser
  rejectNewlines "OnCalendar" p.onCalendar
  rejectNewlines "OnBootSec" p.onBootSec
  rejectNewlines "OnUnitActiveSec" p.onUnitActiveSec
  if p.schedule = [] then throw "Set at least one of OnCalendar / OnBootSec / OnUnitActiveSec"
  let servicePath := "/etc/systemd/system/".toList ++ p.base ++ ".service".toList
  let timerPath := "/etc/systemd/system/".toList ++ p.base ++ ".timer".toList
  return ⟨catFile (quote servicePath) sysibleEof (unlines p.serviceLines) ++
    catFile (quote timerPath) sysibleEof (unlines p.timerLines) ++
    reload p.enableNow (p.base ++ ".timer".toList),
    [unlines p.serviceLines, unlines p.timerLines]⟩

/-! ### Repositories -/

def pkgmgrDetectFragment : Text :=
  text ["if command -v dnf >/dev/null 2>&1; then PKGMGR=dnf; ",
    "elif command -v yum >/dev/null 2>&1; then PKGMGR=yum; ",
    "elif command -v zypper >/dev/null 2>&1; then PKGMGR=zypper; ",
    "elif command -v apt-get >/dev/null 2>&1; then PKGMGR=apt-get; ",
    "elif command -v pacman >/dev/null 2>&1; then PKGMGR=pacman; ",
    "else echo 'No supported package manager found (looked for dnf, yum, zypper, apt-get, ",
    "pacman).' >&2; exit 1; fi"]

def pkgmgrDispatch (rpmCmd zypperCmd aptCmd pacmanCmd : Text) : Text :=
  pkgmgrDetectFragment ++
    "; if [ \"$PKGMGR\" = \"dnf\" ] || [ \"$PKGMGR\" = \"yum\" ]; then ".toList ++ rpmCmd ++
    "; elif [ \"$PKGMGR\" = \"zypper\" ]; then ".toList ++ zypperCmd ++
    "; elif [ \"$PKGMGR\" = \"pacman\" ]; then ".toList ++ pacmanCmd ++
    "; else ".toList ++ aptCmd ++ "; fi".toList

def pacmanRepoManual : Text :=
  text ["echo 'On Arch, edit /etc/pacman.conf to add or toggle a repository ",
    "(this action does not manage pacman.conf).' >&2; exit 1"]

def aliasChar (c : Char) : Bool := c.isAlphanum || c = '_' || c = '.' || c = '-'

def validateRepoAlias (repoAlias : Text) : Except String Text :=
  let a := stripText repoAlias
  if a = [] then .error "Alias / Repository ID is required."
  else if a.all aliasChar then .ok a
  else .error ("Alias / Repository ID may only contain letters, numbers, " ++
    "dots, dashes, and underscores.")

structure Repository where
  repoAlias : Text
  baseurl : Text
  name : Text
  gpgcheck : Bool
  gpgkey : Text
  distribution : Text
  components : Text

def rejectNewline (label : String) (value : Text) : Except String Unit :=
  if '\n' ∈ value ∨ '\r' ∈ value then .error s!"{label} cannot contain a newline." else .ok ()

namespace Repository

variable (p : Repository)

def aliasSafe : Text := stripText p.repoAlias

def url : Text := stripText p.baseurl

def fullName : Text := orElse (stripText p.name) p.aliasSafe

def key : Text := stripText p.gpgkey

def distro : Text := orElse (stripText p.distribution) "stable".toList

def comps : Text := orElse (stripText p.components) "main".toList

def withKey : Bool := p.gpgcheck && p.key ≠ []

def repoLines : List Text :=
  ["[".toList ++ p.aliasSafe ++ "]".toList, "name=".toList ++ p.fullName,
    "baseurl=".toList ++ p.url, "enabled=1".toList] ++
  if p.gpgcheck then "gpgcheck=1".toList ::
    if p.key = [] then [] else ["gpgkey=".toList ++ p.key]
  else ["gpgcheck=0".toList]

/-- `rpm --import`, in the commands for rpm and for zypper. -/
def rpmImport : Text :=
  if p.withKey then "rpm --import ".toList ++ quote p.key ++ " 2>&1; ".toList else []

def rpmCmd : Text :=
  catFile ("/etc/yum.repos.d/".toList ++ p.aliasSafe ++ ".repo".toList) sysibleRepoEof
    (unlines p.repoLines) ++
  p.rpmImport ++ "\"$PKGMGR\" makecache -y 2>&1; echo \"Created repository ".toList ++
  p.aliasSafe ++ " (/etc/yum.repos.d/".toList ++ p.aliasSafe ++ ".repo).\"".toList

def zypperCmd : Text :=
  "zypper --non-interactive addrepo --name ".toList ++ quote p.fullName ++ " ".toList ++
    (if p.gpgcheck then "--gpgcheck".toList else "--no-gpgcheck".toList) ++ " ".toList ++
    quote p.url ++ " ".toList ++ quote p.aliasSafe ++ " 2>&1; ".toList ++ p.rpmImport ++
    "zypper --non-interactive --gpg-auto-import-keys refresh ".toList ++ quote p.aliasSafe ++
    " 2>&1; echo \"Created repository ".toList ++ p.aliasSafe ++ ".\"".toList

def keyringPath : Text := "/etc/apt/keyrings/".toList ++ p.aliasSafe ++ ".gpg".toList

def listPath : Text := "/etc/apt/sources.list.d/".toList ++ p.aliasSafe ++ ".list".toList

def debOpts : Text :=
  if p.withKey then "signed-by=".toList ++ p.keyringPath
  else if p.gpgcheck then [] else "trusted=yes".toList

def keySetup : Text :=
  if p.withKey then
    "mkdir -p /etc/apt/keyrings && (curl -fsSL ".toList ++ quote p.key ++ " || wget -qO- ".toList ++
      quote p.key ++ ") | gpg --batch --yes --dearmor -o ".toList ++ quote p.keyringPath ++
      " 2>&1; ".toList
  else []

def debLine : Text :=
  (if p.debOpts = [] then "deb ".toList else "deb [".toList ++ p.debOpts ++ "] ".toList) ++
    p.url ++ " ".toList ++ p.distro ++ " ".toList ++ p.comps

def aptCmd : Text :=
  p.keySetup ++ catFile (quote p.listPath) sysibleRepoEof p.debLine ++
    "apt-get update 2>&1; echo \"Created repository ".toList ++ p.aliasSafe ++ " (".toList ++
    p.listPath ++ ").\"".toList

end Repository

def cmdCreateRepository (p : Repository) : Except String Built := do
  let _ ← validateRepoAlias p.repoAlias
  if p.url = [] then throw "Base URL is required."
  rejectNewline "Name" p.fullName
  rejectNewline "Base URL" p.url
  rejectNewline "GPG Key URL" p.key
  rejectNewline "Distribution" p.distro
  rejectNewline "Components" p.comps
  return ⟨pkgmgrDispatch p.rpmCmd p.zypperCmd p.aptCmd pacmanRepoManual,
    [unlines p.repoLines, p.debLine]⟩

/-! ### Backups -/

def rejectControlChars (label : String) (value : Text) : Except String Unit :=
  if value.any fun c => c.toNat < 0x20 || c.toNat = 0x7f then
    .error s!"{label} must not contain control characters or newlines."
  else .ok ()

def cronChar (c : Char) : Bool := (digitValue c).isSome || "*/,- ".toList.contains c

/-- The number of parts that `split` finds. -/
def splitCount (t : Text) : ℕ := ((t.splitOnP isSpace).filter (· ≠ [])).length

def backupLines (source dest : Text) : List Text :=
  ["#!/bin/sh".toList, "src=".toList ++ quote source, "dest=".toList ++ quote dest,
    "mkdir -p \"$dest\"".toList,
    text ["tar czf \"$dest/backup-$(basename \"$src\")-$(date +%Y%m%d-%H%M%S).tar.gz\" ",
      "-C \"$(dirname \"$src\")\" \"$(basename \"$src\")\""]]

/-- What looks for a cron daemon, and installs one if there is none. -/
def cronPresent : Text :=
  text ["if ! command -v crond >/dev/null 2>&1 && ! command -v cron >/dev/null 2>&1; then ",
    "if command -v dnf >/dev/null 2>&1; then dnf install -y cronie >/dev/null 2>&1; ",
    "elif command -v yum >/dev/null 2>&1; then yum install -y cronie >/dev/null 2>&1; ",
    "elif command -v zypper >/dev/null 2>&1; then ",
    "zypper --non-interactive install cron >/dev/null 2>&1; ",
    "elif command -v apt-get >/dev/null 2>&1; then ",
    "DEBIAN_FRONTEND=noninteractive apt-get install -y cron >/dev/null 2>&1; ",
    "elif command -v pacman >/dev/null 2>&1; then ",
    "pacman -Sy --needed --noconfirm cronie >/dev/null 2>&1; fi; fi; ",
    "systemctl enable --now crond 2>/dev/null || systemctl enable --now cron 2>/dev/null || ",
    "systemctl enable --now cronie 2>/dev/null || true; ",
    "if ! command -v crond >/dev/null 2>&1 && ! command -v cron >/dev/null 2>&1; then ",
    "echo 'WARNING: no cron daemon is installed - the schedule was written to ",
    "/etc/cron.d/sysible-backup but will not run until a cron service (cronie/cron) ",
    "is installed and started.' >&2; fi; "]

def backupEnable : Text :=
  text ["chmod +x /usr/local/sbin/sysible-backup.sh && ",
    "printf '%s root /usr/local/sbin/sysible-backup.sh\\n' "]

def backupReport : Text := "printf 'Scheduled backup of %s to %s on cron: %s\\n' ".toList

def cmdConfigureBackupSchedule (source destDir cronExpr : Text) : Except String Built := do
  let src := stripText source
  let dest := stripText destDir
  let cron := stripText cronExpr
  if src = [] ∨ dest = [] then throw "Source path and destination directory are required."
  rejectControlChars "Source path" src
  rejectControlChars "Destination directory" dest
  if splitCount cron ≠ 5 ∨ !cron.all cronChar then
    throw "Schedule must be 5 cron fields, e.g. '0 2 * * *'."
  let body := unlines (backupLines src dest)
  return ⟨catFile "/usr/local/sbin/sysible-backup.sh".toList sysEof body ++
    backupEnable ++ quote cron ++ " > /etc/cron.d/sysible-backup && ".toList ++ cronPresent ++
    backupReport ++ quote src ++ " ".toList ++ quote dest ++ " ".toList ++ quote cron, [body]⟩

end HeredocBuilders
