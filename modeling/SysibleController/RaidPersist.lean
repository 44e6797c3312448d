import SysibleController.FixedGrep
import SysibleController.CriticalPaths
import SysibleController.EarlyExit
import SysibleController.PythonStrip
import SysibleController.ShellArgv

/-! The configuration of a new RAID array: the step of the creation that writes the array into
`mdadm.conf`, in place of what the file says of that device. -/
namespace RaidPersist

open PathText TextLines ShellQuote FixedGrep PythonText EarlyExit
open ShellReader (word word_quote)

/-- Whether `/etc/mdadm` is a directory, the files, and the line that
`mdadm --detail --scan` prints for a device. -/
structure Host where
  etcMdadm : Bool
  files : Text → Option Text
  scan : Text → Text
  scan_line : ∀ device, '\n' ∉ scan device

/-- `$_md`. -/
def Host.md (host : Host) : Text :=
  if host.etcMdadm then "/etc/mdadm/mdadm.conf".toList else "/etc/mdadm.conf".toList

def Host.conf (host : Host) : Text := (host.files host.md).getD []

def validRaidLevels : List Text := ["0", "1", "4", "5", "6", "10"].map String.toList

def minMembers (level : Text) : ℕ :=
  if level = "5".toList then 3
  else if level = "6".toList ∨ level = "10".toList then 4
  else 2

def devicesList (devices label : Text) : Except String (List Text) :=
  let paths := (devices.splitOnP isSpace).filter (· ≠ [])
  if paths = [] then
    .error (String.ofList label ++ " is required (space-separated for more than one).")
  else paths.mapM (CriticalPaths.validatePath true (String.ofList label))

/-- The old lines go by the device's name, where any others stay; then the new one is appended. -/
def persisted (grep : Grep) (device scan : Text) (conf : Option Text) : Text :=
  let kept := match conf with
    | none => []
    | some c =>
      -- grep -vF -- {q_raid} "$_md" > "$_md.tmp" 2>/dev/null && mv "$_md.tmp" "$_md"
      let kept := grep (keep true) device c
      if kept.2 then kept.1 else c
  -- mdadm --detail --scan {q_raid} >> "$_md" 2>/dev/null
  kept ++ (scan ++ ['\n'])

/-- The step that persists the array, once it has been made. -/
def persistScript (device : Text) (grep : Grep) (host : Host) : Host :=
  let backup := host.md ++ ".sysible.bak".toList
  let saved := match host.files host.md with
    | none => host.files
    | some c => Function.update host.files backup (some c)
  let conf := persisted grep device (host.scan device) (host.files host.md)
  { host with files := Function.update saved host.md (some conf) }

def cmdCreateRaidArray (raidDevice level devices : Text) :
    Except String (Grep → Host → Host) := do
  let raidDevice ← CriticalPaths.validatePath true "RAID device (e.g. /dev/md0)" raidDevice
  let level := stripText level
  if level ∉ validRaidLevels then
    .error ("Unsupported RAID level '" ++ String.ofList level ++ "'. Supported: 0, 1, 10, 4, 5, 6")
  else
    let members ← devicesList devices "Member device(s)".toList
    if members.length < minMembers level then
      .error ("RAID" ++ String.ofList level ++ " requires at least " ++
        toString (minMembers level) ++ " member devices (got " ++ toString members.length ++ ").")
    else .ok (persistScript (word (quote raidDevice)))

def isBlank (c : Char) : Bool := c = ' ' || c = '\t'

/-- An `ARRAY` line for the device; its keyword may be in lower case and cut to three letters. -/
def arrayLine (device line : Text) : Bool :=
  !(line.head?.any isBlank) &&
    match (line.splitOnP isBlank).filter (· ≠ []) with
    | keyword :: name :: _ =>
      3 ≤ keyword.length && keyword.map Char.toLower <+: "array".toList && name = device
    | _ => false

/-- The other lines are kept in order, and the new one comes after them. -/
def KeepsOthers (script : Grep → Host → Host) (device : Text) (host : Host) : Prop :=
  ∀ grep, FixedGrep.Conforming grep → records (script grep host).conf =
    ((records host.conf).filter fun l => !arrayLine device l) ++ [host.scan device]

/-- The lines with the device's name are those to replace, and one line is without it; or the
name is in every line, but in none to replace, and the last line is ended. -/
def ToldApart (device : Text) (host : Host) : Prop :=
  host.files host.md = none ∨ (null ∉ host.conf ∧
    ((without device host.conf ≠ [] ∧
        ∀ l ∈ records host.conf, device <:+: l ↔ arrayLine device l = true) ∨
      (without device host.conf = [] ∧ unended host.conf = [] ∧
        ∀ l ∈ records host.conf, arrayLine device l = false)))

variable {device scan c : Text} {conf : Option Text} {host : Host} {grep : Grep}

theorem conf_persistScript (device : Text) (grep : Grep) (host : Host) :
    (persistScript device grep host).conf =
      persisted grep device (host.scan device) (host.files host.md) := by
  have hmd : (persistScript device grep host).md = host.md := rfl
  have hfile : (persistScript device grep host).files host.md =
      some (persisted grep device (host.scan device) (host.files host.md)) :=
    Function.update_self host.md _ _
  rw [Host.conf, hmd, hfile, Option.getD_some]

section Persisted

variable (own : Text → Bool)

/-- What grep leaves, with a line after it. -/
theorem records_kept (hscan : '\n' ∉ scan) (ls : List Text) (h : ∀ l ∈ ls, '\n' ∉ l) :
    records (terminated ls ++ (scan ++ ['\n'])) = ls ++ [scan] := by
  have hone : terminated ls ++ (scan ++ ['\n']) = terminated (ls ++ [scan]) := by
    simp [terminated]
  rw [hone, records_terminated_nil]
  intro l hl
  rcases List.mem_append.mp hl with hl | hl
  · exact h l hl
  · rwa [List.mem_singleton.mp hl]

theorem filter_eq_iff {ls : List Text} {p q : Text → Bool} :
    ls.filter p = ls.filter q ↔ ∀ l ∈ ls, p l = q l := by
  constructor
  · intro h l hl
    have hmem : l ∈ ls.filter p ↔ l ∈ ls.filter q := by rw [h]
    simp only [List.mem_filter, hl, true_and] at hmem
    exact Bool.eq_iff_iff.mpr hmem
  · exact List.filter_congr

/-- A file from which the lines with the name are taken. -/
theorem taken_iff (hscan : '\n' ∉ scan) :
    records (terminated (without device c) ++ (scan ++ ['\n'])) =
        (records c).filter (fun l => !own l) ++ [scan] ↔
      ∀ l ∈ records c, device <:+: l ↔ own l = true := by
  have hlines : ∀ l ∈ without device c, '\n' ∉ l := fun l hl =>
    newline_records l (List.mem_filter.mp hl).1
  rw [records_kept hscan _ hlines, List.append_left_inj, without, filter_eq_iff]
  refine forall₂_congr fun l _ => ?_
  cases own l <;> simp

/-- A file that stays as it is, before the new line. -/
theorem stays_iff (hscan : '\n' ∉ scan) :
    records (c ++ (scan ++ ['\n'])) = (records c).filter (fun l => !own l) ++ [scan] ↔
      unended c = [] ∧ ∀ l ∈ records c, own l = false := by
  rw [records_append_line hscan]
  by_cases hend : unended c = []
  · have hrecords : records c = (lines c).dropLast := by rw [records, if_pos hend, List.append_nil]
    rw [hend, List.nil_append, List.append_left_inj, ← hrecords, eq_comm, List.filter_eq_self]
    simp
  · refine iff_of_false ?_ fun h => hend h.1
    intro h
    have hlast := congrArg List.getLast? h
    simp only [List.getLast?_concat, Option.some.injEq, List.append_left_eq_self] at hlast
    exact hend hlast

/-- Where the file is no text to grep, its lines are lost. -/
theorem lost (hscan : '\n' ∉ scan) (hplain : ¬Plain true device c) :
    records (persisted (wayward (blank ((records c).length + 1), true)) device scan (some c)) ≠
      (records c).filter (fun l => !own l) ++ [scan] := by
  have hgrep : wayward (blank ((records c).length + 1), true) (keep true) device c =
      (blank ((records c).length + 1), true) := wayward_of_not hplain
  intro h
  simp only [persisted, hgrep, if_true] at h
  rw [blank_eq, records_kept hscan _ (by simp [List.mem_replicate]), List.append_left_inj] at h
  have hlength := congrArg List.length h
  rw [List.length_replicate] at hlength
  have hfew := List.length_filter_le (fun l => !own l) (records c)
  omega

end Persisted

/-- The name of a device has no line break and no null character. -/
theorem validatePath_ok {label : String} {path : Text} {name : Text}
    (h : CriticalPaths.validatePath true label path = .ok name) :
    name = stripText path ∧ '\n' ∉ name ∧ null ∉ name := by
  rw [CriticalPaths.validatePath] at h
  obtain ⟨-, h⟩ := guard_ok h
  obtain ⟨hbad, h⟩ := guard_ok h
  obtain ⟨-, h⟩ := guard_ok h
  obtain rfl := Except.ok.inj h
  refine ⟨rfl, ?_, ?_⟩
  · exact fun hmem => hbad (List.any_eq_true.mpr ⟨_, hmem, by decide⟩)
  · exact fun hmem => hbad (List.any_eq_true.mpr ⟨_, hmem, by decide⟩)

theorem keepsOthers_iff (hline : '\n' ∉ device) (hnull : null ∉ device) :
    KeepsOthers (persistScript device) device host ↔ ToldApart device host := by
  have hscan := host.scan_line device
  cases hconf : host.files host.md with
  | none =>
    refine iff_of_true ?_ (.inl hconf)
    intro grep _
    have hempty : host.conf = [] := by rw [Host.conf, hconf]; rfl
    rw [conf_persistScript, hconf, hempty]
    exact records_kept hscan [] (by simp)
  | some c =>
    have hc : host.conf = c := by rw [Host.conf, hconf]; rfl
    rw [ToldApart, hconf, hc]
    simp only [reduceCtorEq, false_or]
    by_cases hplain : Plain true device c
    swap
    · refine iff_of_false ?_ fun h => hplain ⟨.inl rfl, hnull, h.1⟩
      intro h
      have hbad := h _ (conforming_wayward (blank ((records c).length + 1), true))
      rw [conf_persistScript, hconf, hc] at hbad
      exact lost (arrayLine device) hscan hplain hbad
    have hpersisted : ∀ grep, FixedGrep.Conforming grep →
        (persistScript device grep host).conf = (if without device c = [] then c
          else terminated (without device c)) ++ (host.scan device ++ ['\n']) := by
      intro grep hgrep
      have hkept : grep (keep true) device c =
          (terminated (without device c), !(without device c).isEmpty) :=
        (hgrep _ _ _ hplain).trans (answer_keep true hline c)
      rw [conf_persistScript, hconf]
      simp only [persisted, hkept]
      cases without device c <;> rfl
    have hstep : KeepsOthers (persistScript device) device host ↔
        records ((if without device c = [] then c else terminated (without device c)) ++
          (host.scan device ++ ['\n'])) =
            (records c).filter (fun l => !arrayLine device l) ++ [host.scan device] := by
      rw [KeepsOthers, hc]
      constructor
      · intro h
        rw [← hpersisted _ (conforming_wayward ([], true))]
        exact h _ (conforming_wayward ([], true))
      · intro h grep hgrep
        rw [hpersisted grep hgrep, h]
    rw [hstep]
    by_cases hnone : without device c = []
    · simp only [hnone, if_true, hplain.2.2, not_false_eq_true, ne_eq, not_true_eq_false,
        false_and, false_or, true_and]
      exact stays_iff (arrayLine device) hscan
    · simp only [hnone, if_false, hplain.2.2, not_false_eq_true, ne_eq, true_and, false_and,
        or_false]
      exact taken_iff (arrayLine device) hscan

theorem create_ok {raidDevice level devices : Text} {script : Grep → Host → Host}
    (h : cmdCreateRaidArray raidDevice level devices = .ok script) :
    script = persistScript (stripText raidDevice) ∧ '\n' ∉ stripText raidDevice ∧
      null ∉ stripText raidDevice := by
  rw [cmdCreateRaidArray] at h
  obtain ⟨name, hname, h⟩ := bind_ok h
  obtain ⟨heq, hline, hnull⟩ := validatePath_ok hname
  obtain ⟨-, h⟩ := guard_ok h
  obtain ⟨members, -, h⟩ := bind_ok h
  obtain ⟨-, h⟩ := guard_ok h
  rw [heq, word_quote] at h
  exact ⟨(Except.ok.inj h).symm, heq ▸ hline, heq ▸ hnull⟩

/-- The persistence of an array keeps the others under this condition and no other. -/
theorem raid_persist_iff {raidDevice level devices : Text} {script : Grep → Host → Host}
    (host : Host) (h : cmdCreateRaidArray raidDevice level devices = .ok script) :
    KeepsOthers script (stripText raidDevice) host ↔ ToldApart (stripText raidDevice) host := by
  obtain ⟨rfl, hline, hnull⟩ := create_ok h
  exact keepsOthers_iff hline hnull

/-- A host with one file at `/etc/mdadm.conf`. -/
def plainHost (conf : String) : Host :=
  ⟨false, fun path => if path = "/etc/mdadm.conf".toList then some conf.toList else none,
    fun device => "ARRAY ".toList ++ device.filter (· ≠ '\n'), by simp⟩

theorem create_md1 : cmdCreateRaidArray "/dev/md1".toList "1".toList "/dev/sdb /dev/sdc".toList =
    .ok (persistScript "/dev/md1".toList) := rfl

/-- The name of one device begins the name of another, whose line is lost. -/
theorem md10_lost :
    cmdCreateRaidArray "/dev/md1".toList "1".toList "/dev/sdb /dev/sdc".toList =
        .ok (persistScript "/dev/md1".toList) ∧
      ¬KeepsOthers (persistScript "/dev/md1".toList) "/dev/md1".toList
        (plainHost "MAILADDR root\nARRAY /dev/md10 UUID=1\n") := by
  refine ⟨create_md1, ?_⟩
  rw [keepsOthers_iff (by decide) (by decide)]
  rintro (h | ⟨-, ⟨-, h⟩ | ⟨h, -⟩⟩)
  · cases h
  · have := (h "ARRAY /dev/md10 UUID=1".toList (by decide)).mp (by decide)
    exact absurd this (by decide)
  · exact absurd h (by decide)

theorem md1_persisted :
    KeepsOthers (persistScript "/dev/md1".toList) "/dev/md1".toList
      (plainHost "MAILADDR root\nARRAY /dev/md1 UUID=1\nARRAY /dev/md0 UUID=2\n") :=
  (raid_persist_iff _ create_md1).mpr (.inr ⟨by decide, .inl ⟨by decide, by decide⟩⟩)

end RaidPersist
