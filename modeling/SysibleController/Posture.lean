import SysibleController.PathText
import SysibleController.PythonStrip

/-! The posture of a host as `webgui/server.py` reads it: the stream of the probe, the compliance
signals computed from it and the row of the sweep. `str.lower` and the date of today are
parameters. -/
namespace Posture

open PathText PythonText PythonInt

/-- `str.lower`, of which only what it does to ASCII is used. -/
structure Lowering where
  lower : Text → Text
  ascii : ∀ t, (∀ c ∈ t, c.toNat < 128) → lower t = t.map Char.toLower

abbrev Section := List (Text × Text)

/-- A dictionary of sections. The first entry of a key counts. -/
abbrev Readings := List (Text × Section)

def assign {α : Type} (k : Text) (v : α) : List (Text × α) → List (Text × α)
  | [] => [(k, v)]
  | (k', v') :: d => if k' = k then (k, v) :: d else (k', v') :: assign k v d

theorem lookup_cons {α : Type} (k k' : Text) (v : α) (d : List (Text × α)) :
    List.lookup k' ((k, v) :: d) = if k' = k then some v else d.lookup k' := by
  by_cases h : k' = k
  · subst h
    simp
  · rw [List.lookup_cons, if_neg h, beq_eq_false_iff_ne.mpr h]

theorem lookup_assign {α : Type} (k k' : Text) (v : α) (d : List (Text × α)) :
    (assign k v d).lookup k' = if k' = k then some v else d.lookup k' := by
  induction d with
  | nil => rw [assign, lookup_cons]
  | cons e d ih =>
    rw [assign]
    split
    next heq =>
      rw [lookup_cons, lookup_cons, heq]
      split <;> rfl
    next hne =>
      rw [lookup_cons, lookup_cons, ih]
      by_cases h : k' = e.1
      · rw [if_pos h, if_pos h, if_neg (h ▸ hne)]
      · rw [if_neg h, if_neg h]

/-! ### The stream -/

/-- The boundaries of `str.splitlines`. -/
def isLineBoundary (c : Char) : Bool :=
  let n := c.toNat
  (10 ≤ n && n ≤ 13) || (0x1c ≤ n && n ≤ 0x1e) || [0x85, 0x2028, 0x2029].contains n

/-- The characters of the line that is being read are kept in reverse. -/
def splitlinesFrom (line : Text) : Text → List Text
  | [] => if line = [] then [] else [line.reverse]
  | '\r' :: '\n' :: rest => line.reverse :: splitlinesFrom [] rest
  | c :: rest =>
    if isLineBoundary c then line.reverse :: splitlinesFrom [] rest
    else splitlinesFrom (c :: line) rest

def splitlines (t : Text) : List Text := splitlinesFrom [] t

def postureMark : Text := "POSTURE|".toList

/-- `flat[k.strip()] = v` for a line of the probe. -/
def readLine (flat : Section) (line : Text) : Section :=
  if postureMark <+: line then
    let body := line.drop postureMark.length
    if '=' ∈ body then
      assign (stripText (body.takeWhile (· ≠ '='))) ((body.dropWhile (· ≠ '=')).drop 1) flat
    else flat
  else flat

/-- `nested.setdefault(cat, {})[sub or cat] = v` -/
def nest (nested : Readings) (entry : Text × Text) : Readings :=
  let cat := entry.1.takeWhile (· ≠ '.')
  let sub := (entry.1.dropWhile (· ≠ '.')).drop 1
  assign cat (assign (if sub = [] then cat else sub) entry.2 ((nested.lookup cat).getD [])) nested

def parsePosture (text : Text) : Option Readings :=
  let flat := (splitlines text).foldl readLine []
  if flat = [] then none else some (flat.foldl nest [])

/-! ### The signals -/

def reading (p : Readings) (c k : Text) : Option Text := (p.lookup c).bind (·.lookup k)

def g (p : Readings) (c k : String) : Option Text := reading p c.toList k.toList

def asInt (v : Option Text) : Option ℤ := v.bind fun t => pyInt (stripText t)

def eolTable : List (Text × List (Text × Text)) :=
  [("ubuntu", [("16.04", "2021-04-30"), ("18.04", "2023-05-31"), ("20.04", "2025-05-31"),
      ("22.04", "2027-04-30"), ("24.04", "2029-05-31")]),
    ("debian", [("9", "2022-06-30"), ("10", "2024-06-30"), ("11", "2026-08-31"),
      ("12", "2028-06-30")]),
    ("centos", [("7", "2024-06-30"), ("8", "2021-12-31")]),
    ("rhel", [("7", "2024-06-30"), ("8", "2029-05-31"), ("9", "2032-05-31")]),
    ("rocky", [("8", "2029-05-31"), ("9", "2032-05-31")]),
    ("almalinux", [("8", "2029-05-31"), ("9", "2032-05-31")]),
    ("fedora", [("38", "2024-05-21"), ("39", "2024-11-12"), ("40", "2025-05-13"),
      ("41", "2025-11-19")]),
    ("opensuse-leap", [("15.4", "2023-12-31"), ("15.5", "2024-12-31"), ("15.6", "2025-12-31")]),
    ("sles", [("12", "2024-10-31"), ("15", "2031-07-31")])].map fun (distro, versions) =>
      (distro.toList, versions.map fun (version, date) => (version.toList, date.toList))

variable (low : Lowering) (today : Text)

/-- `table.get(version) or table.get(version.split(".")[0])`; no date of the table is empty. -/
def endOfLife (distro version : Text) : Option Text :=
  (eolTable.lookup (low.lower distro)).bind fun table =>
    (table.lookup version).or (table.lookup (version.takeWhile (· ≠ '.')))

def eolStatus (distro version : Option Text) : Option Bool :=
  match distro, version with
  | some distro, some version =>
    if distro = [] ∨ version = [] then none
    else (endOfLife low distro version).map fun eol => decide (eol < today)
  | _, _ => none

/-- `(v or "").strip().lower()` -/
def word (v : Option Text) : Text := low.lower (stripText (v.getD []))

inductive Signal where
  | rebootRequired
  | sshRootLogin
  | firewallDisabled
  | firewallFailedToStart
  | macNotEnforcing
  | eolOs
  | riskyAccounts
  | certExpiring
  | timeUnsynced
  deriving DecidableEq

def signals : List Signal :=
  [.rebootRequired, .sshRootLogin, .firewallDisabled, .firewallFailedToStart, .macNotEnforcing,
    .eolOs, .riskyAccounts, .certExpiring, .timeUnsynced]

def fwConfigured (p : Readings) : Bool :=
  word low (g p "fw" "enabled_at_boot") ∉ [[], "none".toList]

/-- An agent that sends no `fw.determined` counts as having looked. -/
def fwKnown (p : Readings) : Bool :=
  match g p "fw" "determined" with
  | none => true
  | some det => stripText det = ['1']

def selinuxEnforcing (p : Readings) : Bool :=
  word low (g p "mac" "selinux") = "enforcing".toList

def apparmorEnabled (p : Readings) : Bool := word low (g p "mac" "apparmor") = "enabled".toList

def flag (p : Readings) : Signal → Option Bool
  | .rebootRequired => (g p "reboot" "required").map (· = ['1'])
  | .sshRootLogin =>
    let rl := word low (g p "ssh" "permit_root_login")
    if rl = [] then none else some (rl = "yes".toList)
  | .firewallDisabled =>
    (g p "fw" "active").bind fun fw =>
      if fwKnown p then some (fw = ['0'] && !fwConfigured low p) else none
  | .firewallFailedToStart =>
    (g p "fw" "active").bind fun fw =>
      if fwKnown p then some (fw = ['0'] && fwConfigured low p) else none
  | .macNotEnforcing =>
    if word low (g p "mac" "selinux") ≠ [] ∨ word low (g p "mac" "apparmor") ≠ [] then
      some (!selinuxEnforcing low p && !apparmorEnabled low p)
    else none
  | .eolOs => eolStatus low today (g p "os" "distro") (g p "os" "version")
  | .riskyAccounts =>
    let uid0 := asInt (g p "users" "uid0_count")
    let emptypw := asInt (g p "users" "empty_pw_count")
    if uid0 ≠ none ∨ emptypw ≠ none then some (1 < uid0.getD 0 || 0 < emptypw.getD 0) else none
  | .certExpiring => (asInt (g p "cert" "expiring_30d")).map (0 < ·)
  | .timeUnsynced =>
    let sync := word low (g p "time" "synced")
    if sync = [] then none else some (sync ∈ ["no".toList, "false".toList, ['0']])

def postureFlags (p : Readings) : List (Signal × Option Bool) :=
  if p = [] then [] else signals.map fun s => (s, flag low today p s)

/-! ### The row of a host -/

inductive Kind where
  | agent
  | merged
  | ssh
  deriving DecidableEq

/-- What the sweep reads of an entry; `agentId` is the id inside `agent_entry`. -/
structure Entry where
  id : Text
  label : Text
  environment : Option Text
  kind : Kind
  agentId : Option Text
  integrityQuarantined : Bool

/-- What `_dispatch_one` answers. -/
structure Answer where
  ok : Bool
  stdout : Option Text
  stderr : Option Text
  error : Option Text

structure Row where
  id : Text
  host : Text
  environment : Text
  online : Option Bool
  ok : Bool
  error : Option Text
  posture : Option Readings
  flags : List (Signal × Option Bool)
  limited : Bool
  hypervisor : Option Text
  vms : Option ℤ

/-- `x or default` on a text. -/
def orText (x : Option Text) (default : Text) : Text :=
  match x with
  | none | some [] => default
  | some t => t

def agentOf (e : Entry) : Option Text :=
  match e.kind with
  | .agent => some e.id
  | .merged => some (orText e.agentId e.id)
  | .ssh => none

/-- `online` of an agent; a last contact at zero counts as none. -/
def isOnline (lastSeen : Text → Option ℚ) (now : ℚ) (e : Entry) : Option Bool :=
  (agentOf e).bind fun aid =>
    if aid = [] then none
    else some (match lastSeen aid with
      | none => false
      | some ls => ls ≠ 0 && now - ls ≤ 20)

/-- `p["os"]["eol"] = "yes" if _eol_status(..) else "no"`, where there is such a section. -/
def withEol (p : Readings) : Readings :=
  match p.lookup "os".toList with
  | none => p
  | some os =>
    let eol := if eolStatus low today (g p "os" "distro") (g p "os" "version") = some true
      then "yes" else "no"
    assign "os".toList (assign "eol".toList eol.toList os) p

def unprobed (e : Entry) (online : Bool) (error : String) : Row :=
  ⟨e.id, e.label, orText e.environment "Unassigned".toList, some online, false, some error.toList,
    none, [], false, none, none⟩

def probePosture (e : Entry) (lastSeen : Text → Option ℚ) (now : ℚ) (r : Answer) : Row :=
  let online := isOnline lastSeen now e
  if agentOf e ≠ none ∧ online ≠ some true then unprobed e false "offline"
  else if e.integrityQuarantined then unprobed e true "integrity-quarantined"
  else
    let p := (parsePosture (r.stdout.getD [] ++ '\n' :: r.stderr.getD [])).map (withEol low today)
    let read (c k : String) : Option Text := p.bind fun p => g p c k
    let hyp := read "virt" "hypervisor"
    ⟨e.id, e.label, orText e.environment "Unassigned".toList,
      if p = none then online else some true,
      r.ok && p ≠ none,
      if p = none then some (orText r.error "no posture returned".toList) else none,
      p,
      (p.map (postureFlags low today)).getD [],
      read "meta" "privileged" = some ['0'],
      if hyp ∈ [none, some [], some "none".toList, some "-".toList] then none else hyp,
      (read "virt" "vms_running").bind pyInt⟩

end Posture
