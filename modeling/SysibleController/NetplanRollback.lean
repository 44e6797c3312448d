import SysibleController.EarlyExit
import SysibleController.KeyedTable
import SysibleController.PathText
import SysibleController.PythonStrip
import SysibleController.ShellArgv
import Mathlib.Data.List.MinMax
import Mathlib.Data.Prod.Lex
import Mathlib.Data.Rat.Defs
import Mathlib.Algebra.Order.Ring.Rat

/-! The Sysible file of an interface under `/etc/netplan`: it is backed up, written anew, and
rolled back where netplan rejects it. The backups of earlier runs stay beside it. -/
namespace NetplanRollback

open PathText ShellQuote PythonText EarlyExit KeyedTable
open ShellReader (word word_quote)

/-- `$f.bak.{time}`. -/
structure Backup where
  time : ℕ
  mtime : ℚ
  content : Text
  deriving DecidableEq

structure Directory where
  file : Option Text
  backups : Table Backup.time

/-- The order of the names of backups, as `ls` sorts them. -/
structure Collation (κ : Type) where
  key : ℕ → κ
  injective : Function.Injective key

/-- What became of `cp`: it may fail, and may leave a part of a copy behind. -/
inductive Copy where
  | made
  | failed (left : Option Text)

/-- What a run of the script meets on the host. -/
structure Run where
  nmcliRunning : Bool
  netplanInstalled : Bool
  hasInterface : Text → Bool
  now : ℕ
  mtime : ℚ
  copy : Copy
  accepts : Text → Bool

variable {κ : Type} [LinearOrder κ] (collation : Collation κ)

/-- `ls -1t`: the newest comes first, and among those of one time the first name. -/
def order (b : Backup) : ℚ ×ₗ κᵒᵈ := toLex (b.mtime, OrderDual.toDual (collation.key b.time))

/-- `ls -1t "$f".bak.* 2>/dev/null | head -n1`. -/
def newest (backups : Table Backup.time) : Option Backup := backups.rows.argmax (order collation)

/-- `[ -e "$f" ] && cp "$f" "$f.bak.$(date +%s)" 2>/dev/null`. -/
def backedUp (run : Run) (d : Directory) : Directory :=
  match d.file, run.copy with
  | some c, .made => { d with backups := d.backups.put ⟨run.now, run.mtime, c⟩ }
  | some _, .failed (some part) => { d with backups := d.backups.put ⟨run.now, run.mtime, part⟩ }
  | _, _ => d

/-- `_netplan_apply_fragment`. -/
def netplanApply (run : Run) (config : Text) (d : Directory) : Directory :=
  if run.accepts config then d
  else match newest collation d.backups with
    | some b => ⟨some b.content, d.backups.deleteWhere fun c => c.time = b.time⟩
    | none => { d with file := none }

def ifaceChar (c : Char) : Bool := c.isAlphanum || c = '_' || c = '.' || c = '-'

/-- `_NETPLAN_IFACE_GUARD`, where it lets the script go on. -/
def ifaceGuard (run : Run) (iface : Text) : Bool :=
  iface ≠ [] && iface.all ifaceChar && run.hasInterface iface

/-- Only where netplan configures the host does the file matter. -/
def netplanReached (run : Run) (iface : Text) : Bool :=
  !run.nmcliRunning && run.netplanInstalled && ifaceGuard run iface

def script (iface config : Text) (run : Run) (d : Directory) : Directory :=
  if netplanReached run iface then
    netplanApply collation run config { backedUp run d with file := some config }
  else d

def configHead (iface : Text) (dhcpKey dhcp : String) : Text :=
  text ["network:\n  version: 2\n  ethernets:\n    "] ++ iface ++
    text [":\n      ", dhcpKey, ": ", dhcp, "\n"]

def staticConfig (iface ip gw : Text) (dns : List Text) : Text :=
  let v6 := ':' ∈ ip
  configHead iface (if v6 then "dhcp6" else "dhcp4") "false" ++
    text ["      addresses: ["] ++ ip ++ text ["]\n"] ++
    (if gw = [] then [] else text ["      routes:\n        - to: ",
      if v6 then "::/0" else "0.0.0.0/0", "\n          via: "] ++ gw ++ text ["\n"]) ++
    (if dns = [] then [] else text ["      nameservers:\n        addresses: ["] ++
      (", ".toList).intercalate dns ++ text ["]\n"])

def dhcpConfig (iface : Text) : Text := configHead iface "dhcp4" "true"

def hexChar (c : Char) : Bool := c.isDigit || "abcdefABCDEF:.".toList.contains c

def ipRe (t : Text) : Bool := t ≠ [] && t.all hexChar

def cidrRe (t : Text) : Bool :=
  match t.splitOn '/' with
  | [address, bits] =>
    ipRe address && 1 ≤ bits.length && bits.length ≤ 3 &&
      bits.all fun c => (PythonInt.digitValue c).isSome
  | _ => false

def validateConnectionName (name : Text) : Except String Text :=
  let name := stripText name
  if name = [] then .error "Connection name is required (use Show Connections to find it)."
  else if name.head? = some '-' then .error "Invalid connection name: cannot begin with '-'."
  else .ok name

def validateCidr (value : Text) (label : String) : Except String Text :=
  let value := stripText value
  if cidrRe value then .ok value
  else .error (label ++ " must be in CIDR form, e.g. 192.168.1.50/24.")

def validateIp (value : Text) (label : String) : Except String Text :=
  let value := stripText value
  if ipRe value then .ok value else .error (label ++ " must be an IPv4 or IPv6 address.")

def validateDnsList (value : Text) : Except String (List Text) :=
  let parts := (value.splitOnP fun c => isSpace c || c = ',').filter (· ≠ [])
  if parts = [] then
    .error "At least one DNS server is required (space-separated for more than one)."
  else match parts.find? fun p => !ipRe p with
    | some p => .error ("'" ++ String.ofList p ++ "' is not a valid DNS server IP address.")
    | none => .ok parts

def optional {α : Type} (value : Text) (none : α) (validate : Text → Except String α) :
    Except String α :=
  if stripText value = [] then .ok none else validate (stripText value)

/-- The interface and what its file is to hold. -/
structure Plan where
  iface : Text
  config : Text

def planStaticIp (connection ipCidr gateway dns : Text) : Except String Plan := do
  let conn ← validateConnectionName connection
  let ip ← validateCidr ipCidr "IP address"
  let gw ← optional gateway [] fun g => validateIp g "Gateway"
  let servers ← optional dns [] validateDnsList
  if gw ≠ [] ∧ decide (':' ∈ gw) ≠ decide (':' ∈ ip) then
    .error "Gateway must be the same address family (IPv4/IPv6) as the IP address."
  else if servers.any fun d => decide (':' ∈ d) ≠ decide (':' ∈ ip) then
    .error "DNS servers must be the same address family (IPv4/IPv6) as the IP address."
  else
    let iface := word (quote conn)
    .ok ⟨iface, staticConfig iface (word (quote ip)) (word (quote gw)) servers⟩

def planDhcp (connection : Text) : Except String Plan := do
  let conn ← validateConnectionName connection
  let iface := word (quote conn)
  .ok ⟨iface, dhcpConfig iface⟩

inductive Request where
  | staticIp (connection ipCidr gateway dns : Text)
  | dhcp (connection : Text)

def Request.plan : Request → Except String Plan
  | .staticIp connection ipCidr gateway dns => planStaticIp connection ipCidr gateway dns
  | .dhcp connection => planDhcp connection

/-- `cmd_configure_static_ip` and `cmd_configure_dhcp`. -/
def Request.command (request : Request) : Except String (Run → Directory → Directory) :=
  request.plan.map fun plan => script collation plan.iface plan.config

/-- Netplan is asked, and rejects the configuration. -/
def Rejects (run : Run) (plan : Plan) : Prop :=
  netplanReached run plan.iface = true ∧ run.accepts plan.config = false

/-- The backups when netplan is asked: those of earlier runs, and what `cp` left. -/
def atHand (run : Run) (d : Directory) : List Backup := (backedUp run d).backups.rows

/-- The backup that sorts first has the content of the file; or there is neither. -/
def RollsBack (run : Run) (d : Directory) : Prop :=
  match d.file with
  | none => d.backups.rows = []
  | some c => ∃ b ∈ atHand run d, b.content = c ∧
      ∀ other ∈ atHand run d, order collation other ≤ order collation b

variable {collation} {run : Run} {d : Directory} {iface config : Text}

theorem newest_eq_some {backups : Table Backup.time} {b : Backup} :
    newest collation backups = some b ↔
      b ∈ backups.rows ∧ ∀ other ∈ backups.rows, order collation other ≤ order collation b := by
  rw [newest, List.argmax_eq_some_iff]
  constructor
  · rintro ⟨hmem, hmax, -⟩
    exact ⟨hmem, hmax⟩
  · rintro ⟨hmem, hmax⟩
    refine ⟨hmem, hmax, fun other hother hle => ?_⟩
    have hsame := le_antisymm hle (hmax other hother)
    have htime : b.time = other.time := collation.injective
      (OrderDual.toDual.injective (congrArg (fun x => (ofLex x).2) hsame))
    rw [List.inj_on_of_nodup_map backups.unique hmem hother htime]

theorem newest_eq_none {backups : Table Backup.time} :
    newest collation backups = none ↔ backups.rows = [] := List.argmax_eq_none

/-- What a rejected configuration leaves. -/
theorem script_file (hreached : netplanReached run iface = true)
    (hrejects : run.accepts config = false) :
    (script collation iface config run d).file =
      (newest collation (backedUp run d).backups).map Backup.content := by
  rw [script, if_pos hreached, netplanApply, if_neg (by simp [hrejects])]
  cases newest collation (backedUp run d).backups <;> rfl

theorem script_file_eq (hreached : netplanReached run iface = true)
    (hrejects : run.accepts config = false) :
    (script collation iface config run d).file = d.file ↔ RollsBack collation run d := by
  rw [script_file hreached hrejects, RollsBack]
  cases hfile : d.file with
  | none =>
    have hsame : backedUp run d = d := by rw [backedUp, hfile]
    rw [hsame, Option.map_eq_none_iff, newest_eq_none]
  | some c =>
    rw [Option.map_eq_some_iff]
    constructor
    · rintro ⟨b, hb, hcontent⟩
      obtain ⟨hmem, hmax⟩ := newest_eq_some.mp hb
      exact ⟨b, hmem, hcontent, hmax⟩
    · rintro ⟨b, hmem, hcontent, hmax⟩
      exact ⟨b, newest_eq_some.mpr ⟨hmem, hmax⟩, hcontent⟩

/-- A rejected configuration leaves the file as it was under this condition and no other. -/
theorem netplan_rollback_iff {request : Request} {plan : Plan} (collation : Collation κ)
    (h : request.plan = .ok plan) (hrejects : Rejects run plan) :
    ∃ script, request.command collation = .ok script ∧
      ((script run d).file = d.file ↔ RollsBack collation run d) := by
  refine ⟨script collation plan.iface plan.config, ?_, script_file_eq hrejects.1 hrejects.2⟩
  rw [Request.command, h]
  rfl

/-- Names of one length sort as their numbers. -/
def byNumber : Collation ℕ := ⟨id, fun _ _ h => h⟩

def oldBackup : Backup := ⟨1700000000, 1700000000, "network: {}\n".toList⟩

/-- The file is gone, and a backup of it is still there. -/
def leftover : Directory := ⟨none, ⟨[oldBackup], by simp⟩⟩

def rejecting : Run where
  nmcliRunning := false
  netplanInstalled := true
  hasInterface _ := true
  now := 1700000100
  mtime := 1700000100
  copy := .made
  accepts _ := false

def dhcpPlan : Plan := ⟨"ens3".toList, dhcpConfig "ens3".toList⟩

theorem plan_dhcp : (Request.dhcp "ens3".toList).plan = .ok dhcpPlan := rfl

theorem rejects_dhcp : Rejects rejecting dhcpPlan := ⟨by decide, rfl⟩

/-- The rollback brings back a file that was not there. -/
theorem leftover_comes_back : (Request.dhcp "ens3".toList).plan = .ok dhcpPlan ∧
    Rejects rejecting dhcpPlan ∧ ∃ script, (Request.dhcp "ens3".toList).command byNumber =
      .ok script ∧ (script rejecting leftover).file ≠ leftover.file := by
  refine ⟨plan_dhcp, rejects_dhcp, script byNumber dhcpPlan.iface dhcpPlan.config, ?_, ?_⟩
  · rw [Request.command, plan_dhcp]
    rfl
  · rw [Ne, script_file_eq rejects_dhcp.1 rejects_dhcp.2]
    exact List.cons_ne_nil _ _

/-- The file is there, beside a backup of an earlier run. -/
def configured : Directory := ⟨some "network: {version: 2}\n".toList, ⟨[oldBackup], by simp⟩⟩

theorem configured_restored : ∃ script,
    (Request.dhcp "ens3".toList).command byNumber = .ok script ∧
      (script rejecting configured).file = configured.file := by
  obtain ⟨script, hscript, hiff⟩ := netplan_rollback_iff byNumber plan_dhcp rejects_dhcp
  have hhand : atHand rejecting configured =
      [oldBackup, ⟨1700000100, 1700000100, "network: {version: 2}\n".toList⟩] := by decide
  refine ⟨script, hscript, hiff.mpr
    ⟨⟨1700000100, 1700000100, "network: {version: 2}\n".toList⟩, ?_, rfl, ?_⟩⟩
  · rw [hhand]
    simp
  · rw [hhand]
    intro other hother
    rcases List.mem_cons.mp hother with rfl | hother
    · exact Prod.Lex.toLex_le_toLex.mpr (.inl (show (1700000000 : ℚ) < 1700000100 by decide))
    · exact le_of_eq (by rw [List.mem_singleton.mp hother])

end NetplanRollback
