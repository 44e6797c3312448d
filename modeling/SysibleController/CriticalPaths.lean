import SysibleController.PathText
import SysibleController.PythonStrip
import SysibleController.ShellQuote
import SysibleController.TextLines

/-! The guard against removing, unmounting or dropping from fstab what the host cannot do without
(`system_paths`, `_reject_critical_path`, `_reject_critical_mount`), and what the commands that pass
it act on. -/
namespace CriticalPaths

open PathText PythonText

def criticalDirs : List String :=
  ["/",
    "/bin", "/sbin", "/lib", "/lib32", "/lib64", "/libx32",
    "/usr", "/usr/bin", "/usr/sbin", "/usr/lib", "/usr/lib64", "/usr/local",
    "/etc", "/etc/systemd", "/etc/ssh", "/etc/pam.d", "/etc/sudoers.d",
    "/etc/selinux", "/etc/default", "/etc/security",
    "/var", "/var/lib", "/var/log", "/var/run", "/var/lib/dpkg", "/var/lib/rpm",
    "/boot", "/boot/efi", "/boot/grub", "/boot/grub2",
    "/dev", "/proc", "/sys", "/run", "/run/systemd",
    "/root", "/home", "/srv", "/opt", "/tmp", "/mnt", "/media"]

def criticalFiles : List String :=
  ["/etc/passwd", "/etc/shadow", "/etc/group", "/etc/gshadow",
    "/etc/sudoers", "/etc/login.defs", "/etc/securetty",
    "/etc/pam.conf", "/etc/nsswitch.conf",
    "/etc/fstab", "/etc/crypttab", "/etc/mtab",
    "/etc/hosts", "/etc/hostname", "/etc/resolv.conf", "/etc/host.conf",
    "/etc/machine-id", "/etc/os-release", "/etc/networks", "/etc/exports",
    "/etc/profile", "/etc/bashrc", "/etc/bash.bashrc", "/etc/environment",
    "/etc/inittab", "/etc/sysctl.conf",
    "/etc/default/grub", "/boot/grub/grub.cfg", "/boot/grub2/grub.cfg",
    "/etc/ssh/sshd_config", "/etc/selinux/config",
    "/sbin/init", "/usr/sbin/init",
    "/lib/systemd/systemd", "/usr/lib/systemd/systemd",
    "/opt/sysible"]

def criticalExact : List Text := (criticalDirs ++ criticalFiles).map String.toList

def criticalPrefixes : List Text :=
  ["/boot/", "/etc/", "/dev/", "/proc/", "/sys/", "/run/systemd/",
    "/bin/", "/sbin/", "/lib/", "/lib64/",
    "/usr/bin/", "/usr/sbin/", "/usr/lib/", "/usr/lib64/",
    "/var/lib/dpkg/", "/var/lib/rpm/"].map String.toList

/-- Listed, or at or under a listed location. -/
def critical (p : Text) : Bool :=
  criticalExact.contains p || criticalPrefixes.any fun pref => pref.isPrefixOf (p ++ ['/'])

def normalize (path : Text) : Text :=
  let p := stripText path
  if p = [] then [] else normpath p

/-- `system_critical_reason`. -/
def systemCriticalReason (path : Text) : Option String :=
  let p := normalize path
  let shown := String.ofList p
  if p = [] then none
  else if criticalExact.contains p then
    if (criticalFiles.map String.toList).contains p then
      some s!"'{shown}' is a critical system file — removing it can break boot, login, or networking."
    else
      some s!"'{shown}' is a critical system directory / mount point — removing or unmounting it can break the host."
  else
    (criticalPrefixes.find? fun pref => pref.isPrefixOf (p ++ ['/'])).map fun pref =>
      let location := String.ofList (pref.rdropWhile (· = '/'))
      s!"'{shown}' is under the system-critical location {location} — changes here can break the host."

/-- `_validate_path` of the two modules; only one of them looks for a dash. -/
def validatePath (dash : Bool) (label : String) (path : Text) : Except String Text :=
  let p := stripText path
  if p = [] then .error s!"{label} is required."
  else if p.any fun c => c = '\x00' ∨ c = '\n' ∨ c = '\r' then
    .error s!"{label} contains an invalid character."
  else if dash ∧ p.head? = some '-' then .error s!"{label} must not start with '-'."
  else .ok p

/-- `_reject_critical_path` and `_reject_critical_mount`, which differ in their last words. -/
def rejectCritical (doing : String) (label : String) (path : Text) (allowCritical : Bool) :
    Except String Unit :=
  if allowCritical then .ok ()
  else match systemCriticalReason path with
    | some reason =>
      .error s!"{label}: {reason} Only a superuser can {doing}, after confirming the warning."
    | none => .ok ()

/-- A command, with the path that is quoted into it. -/
inductive Command where
  | remove (recursive : Bool) (path : Text)
  | unmount (force : Bool) (target : Text)
  | dropFstab (mnt : Text)
  deriving DecidableEq

def Command.text : Command → Text
  | remove true path => "rm -rf ".toList ++ ShellQuote.quote path ++ " 2>&1".toList
  | remove false path => "rmdir ".toList ++ ShellQuote.quote path ++ " 2>&1".toList
  | unmount true target => "umount -f ".toList ++ ShellQuote.quote target ++ " 2>&1".toList
  | unmount false target => "umount ".toList ++ ShellQuote.quote target ++ " 2>&1".toList
  | dropFstab mnt => "cp /etc/fstab /etc/fstab.bak.$(date +%s) && awk -v mnt=".toList ++
      ShellQuote.quote mnt ++ (" '$2 != mnt' /etc/fstab > /tmp/fstab.new.$$ " ++
        "&& mv /tmp/fstab.new.$$ /etc/fstab && echo 'Removed any /etc/fstab entry for' ").toList ++
      ShellQuote.quote mnt

def cmdRemoveDirectory (path : Text) (recursive allowCritical : Bool) : Except String Command := do
  let p ← validatePath true "Directory path" path
  rejectCritical "delete it" "Directory path" p allowCritical
  return .remove recursive p

def cmdUnmountFilesystem (target : Text) (force allowCritical : Bool) : Except String Command := do
  let t ← validatePath false "Mount point or device" target
  rejectCritical "do this" "Unmount target" t allowCritical
  return .unmount force t

def cmdRemoveFstabEntry (mountPoint : Text) (allowCritical : Bool) : Except String Command := do
  let m ← validatePath false "Mount point" mountPoint
  rejectCritical "do this" "fstab mount point" m allowCritical
  return .dropFstab m

/-! ### What is acted on -/

/-- A path as the kernel reads it, links apart: any run of slashes is one. -/
def kernelPath (p : Text) : Text := '/' :: ['/'].intercalate (normComps 1 p)

def isOctal (c : Char) : Bool := '0' ≤ c && c ≤ '7'

def octal (ds : Text) : Char := Char.ofNat (ds.foldl (fun n d => 8 * n + (d.toNat - 48)) 0)

/-- What awk makes of a backslash and the next character, where that is a defined escape. -/
def simpleEscape : Char → Option Char
  | '"' => some '"'
  | '\\' => some '\\'
  | '/' => some '/'
  | 'a' => some '\x07'
  | 'b' => some '\x08'
  | 'f' => some '\x0c'
  | 'n' => some '\n'
  | 'r' => some '\r'
  | 't' => some '\t'
  | 'v' => some '\x0b'
  | _ => none

/-- The value that `-v` assigns: up to three octal digits are the number of a character, and what
becomes of an escape that is not defined is up to the awk. -/
def awkValue (undefined : Option Char → Text) : Text → Text
  | '\\' :: a :: b :: c :: rest =>
    if isOctal a ∧ isOctal b ∧ isOctal c then octal [a, b, c] :: awkValue undefined rest
    else if isOctal a ∧ isOctal b then octal [a, b] :: awkValue undefined (c :: rest)
    else if isOctal a then octal [a] :: awkValue undefined (b :: c :: rest)
    else match simpleEscape a with
      | some x => x :: awkValue undefined (b :: c :: rest)
      | none => undefined (some a) ++ awkValue undefined (b :: c :: rest)
  | ['\\', a, b] =>
    if isOctal a ∧ isOctal b then [octal [a, b]]
    else if isOctal a then octal [a] :: awkValue undefined [b]
    else match simpleEscape a with
      | some x => x :: awkValue undefined [b]
      | none => undefined (some a) ++ awkValue undefined [b]
  | ['\\', a] =>
    if isOctal a then [octal [a]]
    else match simpleEscape a with
      | some x => [x]
      | none => undefined (some a)
  | ['\\'] => undefined none
  | c :: rest => c :: awkValue undefined rest
  | [] => []

def isBlank (c : Char) : Bool := c = ' ' || c = '\t' || c = '\n'

/-- The fields of a line: its parts between blanks. -/
def fields (line : Text) : List Text := (line.splitOnP isBlank).filter (· ≠ [])

/-- `$2`, which is empty where the line has no second field. -/
def field2 (line : Text) : Text := ((fields line)[1]?).getD []

/-- The lines that `'$2 != mnt'` leaves out. A value that begins with a slash is compared as a
text. -/
def dropped (undefined : Option Char → Text) (mnt : Text) (lines : List Text) : List Text :=
  lines.filter fun line => field2 line = awkValue undefined mnt

/-- What a command acts on, fstab lines by their second field. -/
def Command.ActsOn (undefined : Option Char → Text) : Command → Text → Prop
  | remove _ path, q => q = path
  | unmount _ target, q => q = target
  | dropFstab mnt, q => ∃ lines, ∃ line ∈ dropped undefined mnt lines, field2 line = q

/-- Whatever the command acts on, if there is one, is not critical. -/
def Covered (undefined : Option Char → Text) (built : Except String Command) : Prop :=
  ∀ cmd, built = .ok cmd → ∀ q, cmd.ActsOn undefined q → critical (kernelPath q) = false

def BadCharacter (q : Text) : Prop := ∃ c ∈ q, c = '\x00' ∨ c = '\n' ∨ c = '\r'

/-- A critical path behind one more slash. -/
def Hidden (q : Text) : Prop := initialSlashes q = 2 ∧ critical (kernelPath q) = true

variable {p q m : Text} {undefined : Option Char → Text} {label doing : String} {dash : Bool}

/-! ### Normal forms -/

theorem initialSlashes_absolute (h : Absolute q) : initialSlashes q = 1 ∨ initialSlashes q = 2 := by
  obtain ⟨rest, rfl⟩ : ∃ rest, q = '/' :: rest := List.head?_eq_some_iff.mp h
  have hpos : 0 < (('/' :: rest).takeWhile (· = '/')).length := by simp
  simp only [initialSlashes]
  split_ifs with h2
  · exact .inr rfl
  · omega

theorem normpath_absolute (h : Absolute q) :
    normpath q = if initialSlashes q = 2 then '/' :: kernelPath q else kernelPath q := by
  rcases initialSlashes_absolute h with h1 | h2
  · simp [normpath, h1, kernelPath]
  · have hcomps : normComps 2 q = normComps 1 q := rfl
    simp [normpath, h2, kernelPath, hcomps, List.replicate]

/-- No listed path and no listed location begins with two slashes. -/
theorem not_critical_slash (rest : Text) : critical ('/' :: '/' :: rest) = false := by
  have hexact : ∀ e ∈ criticalExact, e.tail.head? ≠ some '/' := by decide
  have hpref : ∀ e ∈ criticalPrefixes, 2 ≤ e.length ∧ e.tail.head? ≠ some '/' := by decide
  rw [critical, Bool.or_eq_false_iff]
  constructor
  · rw [Bool.eq_false_iff, Ne, List.contains_iff_mem]
    intro hmem
    exact hexact _ hmem rfl
  · rw [List.any_eq_false]
    intro e he hp
    obtain ⟨hlen, hhead⟩ := hpref e he
    match e, hlen, hhead with
    | a :: b :: t, _, hhead =>
      simp only [List.cons_append, List.isPrefixOf_cons_cons, Bool.and_eq_true, beq_iff_eq] at hp
      exact hhead (congrArg some hp.2.1)

theorem critical_normpath (h : Absolute q) : critical (normpath q) = true ↔
    initialSlashes q ≠ 2 ∧ critical (kernelPath q) = true := by
  rw [normpath_absolute h]
  by_cases h2 : initialSlashes q = 2
  · have hplain : critical ('/' :: kernelPath q) = false := not_critical_slash _
    simp [h2, hplain]
  · simp [h2]

theorem absolute_strip (h : Absolute p) : Absolute (stripText p) := by
  obtain ⟨rest, rfl⟩ : ∃ rest, p = '/' :: rest := List.head?_eq_some_iff.mp h
  have hslash : isSpace '/' = false := by decide
  rw [stripText_eq, List.dropWhile_cons_of_neg (by simp [hslash])]
  obtain ⟨tail, htail⟩ := List.rdropWhile_prefix isSpace ('/' :: rest)
  cases hq : ('/' :: rest).rdropWhile isSpace with
  | nil =>
    rw [List.rdropWhile_eq_nil_iff] at hq
    exact absurd (hq '/' List.mem_cons_self) (by simp [hslash])
  | cons c cs =>
    rw [hq] at htail
    exact congrArg some (List.cons.inj htail).1

theorem ne_nil_of_absolute (h : Absolute q) : q ≠ [] := by
  rintro rfl
  exact nomatch h

theorem absolute_normpath (h : Absolute q) : Absolute (normpath q) := by
  rw [normpath_absolute h]
  split_ifs <;> rfl

/-! ### What passes the guard -/

theorem reason_none_iff (h : Absolute q) (hq : stripText q = q) :
    systemCriticalReason q = none ↔ critical (normpath q) = false := by
  have hnorm : normalize q = normpath q := by
    rw [normalize, hq, if_neg (ne_nil_of_absolute h)]
  simp only [systemCriticalReason, hnorm, if_neg (ne_nil_of_absolute (absolute_normpath h)),
    critical]
  cases hexact : criticalExact.contains (normpath q) with
  | true =>
    simp only [if_true, Bool.true_or]
    split_ifs <;> simp
  | false => simp

/-- The builders differ in a label, a few words and their command. -/
def build (dash : Bool) (label what doing : String) (f : Text → Command) (p : Text) :
    Except String Command := do
  let q ← validatePath dash label p
  rejectCritical doing what q false
  return f q

theorem any_bad_iff : q.any (fun c => c = '\x00' ∨ c = '\n' ∨ c = '\r') = true ↔
    BadCharacter q := by
  simp only [List.any_eq_true, decide_eq_true_eq, BadCharacter]

theorem validatePath_of_bad (h : Absolute p) (hbad : BadCharacter (stripText p)) :
    ∃ text, validatePath dash label p = .error text := by
  have hne := ne_nil_of_absolute (absolute_strip h)
  exact ⟨_, by rw [validatePath, if_neg hne, if_pos (any_bad_iff.mpr hbad)]⟩

theorem validatePath_of_good (h : Absolute p) (hgood : ¬ BadCharacter (stripText p)) :
    validatePath dash label p = .ok (stripText p) := by
  have hq := absolute_strip h
  have hdash : ¬ (dash = true ∧ (stripText p).head? = some '-') := by
    rw [show (stripText p).head? = some '/' from hq]
    simp
  rw [validatePath, if_neg (ne_nil_of_absolute hq), if_neg (mt any_bad_iff.mp hgood), if_neg hdash]

theorem build_ok_iff {what : String} {f : Text → Command} {cmd : Command} (h : Absolute p) :
    build dash label what doing f p = .ok cmd ↔
      ¬ BadCharacter (stripText p) ∧ systemCriticalReason (stripText p) = none ∧
        cmd = f (stripText p) := by
  by_cases hbad : BadCharacter (stripText p)
  · obtain ⟨text, htext⟩ := @validatePath_of_bad p label dash h hbad
    simp [build, htext, hbad, bind, Except.bind]
  · have hok := @validatePath_of_good p label dash h hbad
    simp only [build, hok, bind, Except.bind, pure, Except.pure, rejectCritical]
    cases systemCriticalReason (stripText p) with
    | some reason => simp
    | none =>
      simp only [hbad, not_false_eq_true, true_and, Except.ok.injEq, Bool.false_eq_true, if_false]
      exact eq_comm

theorem covered_operand_iff {what : String} {f : Text → Command} (h : Absolute p)
    (hf : ∀ x y, (f x).ActsOn undefined y ↔ y = x) :
    Covered undefined (build dash label what doing f p) ↔
      BadCharacter (stripText p) ∨ ¬ Hidden (stripText p) := by
  have hq := absolute_strip h
  have hguard := (critical_normpath hq).not
  rw [Bool.not_eq_true] at hguard
  simp only [Covered, build_ok_iff h, reason_none_iff hq (stripText_stripText p), hguard]
  constructor
  · intro hcov
    by_contra hno
    obtain ⟨hbad, h2, hcrit⟩ : ¬ BadCharacter (stripText p) ∧ initialSlashes (stripText p) = 2 ∧
        critical (kernelPath (stripText p)) = true := by simpa [Hidden] using hno
    have := hcov _ ⟨hbad, fun hne => hne.1 h2, rfl⟩ _ ((hf _ _).mpr rfl)
    exact Bool.false_ne_true (this.symm.trans hcrit)
  · rintro hcond cmd ⟨hbad, hok, rfl⟩ y hy
    rw [(hf _ _).mp hy, ← Bool.not_eq_true]
    intro hcrit
    refine hcond.elim hbad fun hhid => hhid ⟨?_, hcrit⟩
    by_contra h2
    exact hok ⟨h2, hcrit⟩

/-! ### Lines of fstab -/

/-- A second field holds no blank. -/
theorem field2_plain (line : Text) : ∀ c ∈ field2 line, isBlank c = false := by
  unfold field2
  cases hget : (fields line)[1]? with
  | none => simp
  | some x =>
    have hmem : x ∈ fields line := List.mem_of_getElem? hget
    exact Splitting.not_sep_of_mem_splitOnP (List.mem_filter.mp hmem).1

/-- Every text without a blank is the second field of some line. -/
theorem field2_device (hne : m ≠ []) (hm : ∀ c ∈ m, isBlank c = false) :
    field2 ('x' :: ' ' :: m) = m := by
  have hsplit : ('x' :: ' ' :: m).splitOnP isBlank = [['x'], m] := by
    have hx : ∀ c ∈ ['x'], isBlank c = false := by simp [isBlank]
    have := List.splitOnP_append_cons_of_forall_mem hx ' ' (by decide) m
    rwa [List.splitOnP_eq_singleton hm] at this
  simp [field2, fields, hsplit, hne]

/-- The value begins with the slash that the text begins with. -/
theorem awkValue_absolute (h : Absolute q) : Absolute (awkValue undefined q) := by
  obtain ⟨rest, rfl⟩ : ∃ rest, q = '/' :: rest := List.head?_eq_some_iff.mp h
  have hcons : awkValue undefined ('/' :: rest) = '/' :: awkValue undefined rest := rfl
  rw [hcons]
  rfl

theorem covered_fstab_iff (h : Absolute p) : Covered undefined (cmdRemoveFstabEntry p false) ↔
    BadCharacter (stripText p) ∨ systemCriticalReason (stripText p) ≠ none ∨
      (∃ c ∈ awkValue undefined (stripText p), isBlank c = true) ∨
      critical (kernelPath (awkValue undefined (stripText p))) = false := by
  have hne := ne_nil_of_absolute (@awkValue_absolute (stripText p) undefined (absolute_strip h))
  have hbuilt : ∀ cmd, cmdRemoveFstabEntry p false = .ok cmd ↔ ¬ BadCharacter (stripText p) ∧
      systemCriticalReason (stripText p) = none ∧ cmd = .dropFstab (stripText p) :=
    fun cmd => build_ok_iff h
  simp only [Covered, hbuilt]
  constructor
  · intro hcov
    by_contra hno
    simp only [not_or, not_not, not_exists, not_and, Bool.not_eq_true, Bool.not_eq_false] at hno
    obtain ⟨hbad, hok, hplain, hcrit⟩ := hno
    have hfield := field2_device hne hplain
    have hacts : (Command.dropFstab (stripText p)).ActsOn undefined
        (awkValue undefined (stripText p)) :=
      ⟨[_], _, List.mem_filter.mpr ⟨List.mem_singleton_self _, decide_eq_true hfield⟩, hfield⟩
    exact Bool.false_ne_true ((hcov _ ⟨hbad, hok, rfl⟩ _ hacts).symm.trans hcrit)
  · rintro hcond cmd ⟨hbad, hok, rfl⟩ y ⟨lines, line, hline, rfl⟩
    have heq : field2 line = awkValue undefined (stripText p) := by
      simpa using (List.mem_filter.mp hline).2
    rw [heq]
    rcases hcond with hb | hr | ⟨c, hc, hblank⟩ | hcrit
    · exact absurd hb hbad
    · exact absurd hok hr
    · rw [← heq] at hc
      exact absurd hblank (by simp [field2_plain line c hc])
    · exact hcrit

/-- For a path that begins with a slash: removing and unmounting are covered by the guard unless
exactly one more slash hides a critical path from it; dropping from fstab is covered exactly if the
guard turns the path down, or awk reads it as a text that no second field can be or that is not
critical. -/
theorem guard_covers_iff (undefined : Option Char → Text) (p : Text) (h : Absolute p) :
    (∀ recursive, Covered undefined (cmdRemoveDirectory p recursive false) ↔
      BadCharacter (stripText p) ∨ ¬ Hidden (stripText p)) ∧
    (∀ force, Covered undefined (cmdUnmountFilesystem p force false) ↔
      BadCharacter (stripText p) ∨ ¬ Hidden (stripText p)) ∧
    (Covered undefined (cmdRemoveFstabEntry p false) ↔
      BadCharacter (stripText p) ∨ systemCriticalReason (stripText p) ≠ none ∨
        (∃ c ∈ awkValue undefined (stripText p), isBlank c = true) ∨
        critical (kernelPath (awkValue undefined (stripText p))) = false) :=
  ⟨fun _ => covered_operand_iff h fun _ _ => Iff.rfl,
    fun _ => covered_operand_iff h fun _ _ => Iff.rfl, covered_fstab_iff h⟩

theorem guard_covers_data :
    Covered (fun _ => []) (cmdRemoveDirectory "/data".toList true false) :=
  ((guard_covers_iff (fun _ => []) "/data".toList rfl).1 true).mpr (.inr fun h => by
    have h2 := h.1
    revert h2
    decide)

/-- `//etc` passes the guard in every command. -/
theorem double_slash_passes :
    (∃ cmd, cmdRemoveDirectory "//etc".toList true false = .ok cmd ∧
      ∃ q, cmd.ActsOn (fun _ => []) q ∧ critical (kernelPath q) = true) ∧
    (∃ cmd, cmdUnmountFilesystem "//etc".toList false false = .ok cmd ∧
      ∃ q, cmd.ActsOn (fun _ => []) q ∧ critical (kernelPath q) = true) ∧
    ∃ cmd, cmdRemoveFstabEntry "//etc".toList false = .ok cmd ∧
      ∃ q, cmd.ActsOn (fun _ => []) q ∧ critical (kernelPath q) = true := by
  have hcrit : critical (kernelPath "//etc".toList) = true := by decide
  have hawk : awkValue (fun _ => []) "//etc".toList = "//etc".toList := rfl
  have hdrop : (Command.dropFstab "//etc".toList).ActsOn (fun _ => []) "//etc".toList := by
    refine ⟨["x //etc".toList], "x //etc".toList, ?_, by decide⟩
    rw [dropped, hawk]
    decide
  exact ⟨⟨.remove true "//etc".toList, by decide, "//etc".toList, rfl, hcrit⟩,
    ⟨.unmount false "//etc".toList, by decide, "//etc".toList, rfl, hcrit⟩,
    ⟨.dropFstab "//etc".toList, by decide, "//etc".toList, hdrop, hcrit⟩⟩

end CriticalPaths
