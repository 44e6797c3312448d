import SysibleController.FstabLine
import SysibleController.ShellAppend
import SysibleController.PythonInt
import SysibleController.EarlyExit
import Mathlib.Tactic.IntervalCases

/-! The commands that add a line to `/etc/fstab` (`cmd_add_fstab_entry`, and `cmd_mount_nfs` and
`cmd_mount_cifs`, which do so to persist a mount), and the entry the line is read as. -/
namespace FstabPersist

open EarlyExit PathText PythonText ShellQuote ShellReader FstabLine

/-- A run of such characters and nothing else; the `$` also matches before a last newline. -/
def runOf (p : Char → Bool) (t : Text) : Bool :=
  let body := if t.getLast? = some '\n' then t.dropLast else t
  body ≠ [] && body.all p

def hostChar (c : Char) : Bool := c.isAlphanum || c = '.' || c = '-'

/-- `_HOST_RE` -/
def hostRe : Text → Bool := runOf hostChar

/-- `_SHARE_RE` -/
def shareRe : Text → Bool :=
  runOf fun c => c != '\x00' && c != '/' && c != '\r' && c != '\n'

/-- `_FSTYPE_RE` -/
def fstypeRe : Text → Bool := runOf fun c => c.isAlphanum || c = '.' || c = '_' || c = '-'

def validatePath (label : String) (path : Text) : Except String Text :=
  CriticalPaths.validatePath false label path

def validateMountOptions (options : Text) : Except String Text :=
  let opts := stripText options
  if opts = [] then .ok opts
  else if opts.any fun c => isSpace c || c = '\x00' then
    .error ("Mount options must be a comma-separated list with no " ++
      "spaces or newlines (e.g. rw,noexec,vers=3).")
  else .ok opts

/-- `validate_int_range`, of what `str` makes of the value. -/
def validateIntRange (value : Text) (lo hi : ℤ) (label : String) : Except String ℤ :=
  match PythonInt.pyInt (stripText value) with
  | none => .error s!"{label} must be a whole number."
  | some n =>
    if lo ≤ n ∧ n ≤ hi then .ok n else .error s!"{label} must be between {lo} and {hi}."

/-- What `or "defaults"` makes of the options. -/
def orDefaults (opts : Text) : Text := if opts = [] then "defaults".toList else opts

def fstab : Text := "/etc/fstab".toList

/-! ### `cmd_add_fstab_entry` -/

def number (n : ℤ) : Text := (toString n).toList

def addLine (device mnt fstype options : Text) (dump passNum : ℤ) : Text :=
  device ++ '\t' :: mnt ++ '\t' :: fstype ++ '\t' :: options ++ '\t' :: number dump ++
    '\t' :: number passNum

def addCommand (mnt line : Text) : Text :=
  text ["if awk -v m="] ++ quote mnt ++
  text [" '$2==m\x7bf=1\x7d END\x7bexit !f\x7d' /etc/fstab 2>/dev/null; then ",
    "echo 'An /etc/fstab entry for that mount point already exists - ",
    "remove it first if you want to replace it.' >&2; exit 1; fi; ",
    "cp /etc/fstab /etc/fstab.bak.$(date +%s) "] ++
  "&& echo ".toList ++ quote line ++ " >> ".toList ++ fstab ++ " ".toList ++
  text ["&& echo 'Added to /etc/fstab:' && grep -F "] ++ quote line ++ text [" /etc/fstab"]

def cmdAddFstabEntry (device mountPoint fstype options dump passNum : Text) :
    Except String Text := do
  let device ← validatePath "Device or source" device
  let mountPoint ← validatePath "Mount point" mountPoint
  let fstype := stripText fstype
  if fstype = [] then throw "Filesystem type is required (e.g. ext4, xfs, nfs)."
  if ¬fstypeRe fstype then throw "Filesystem type must be a single token (e.g. ext4, xfs, nfs)."
  let options ← validateMountOptions options
  let dump ← validateIntRange dump 0 1 "Dump field"
  let passNum ← validateIntRange passNum 0 9 "Pass field"
  return addCommand mountPoint (addLine device mountPoint fstype (orDefaults options) dump passNum)

/-! ### `cmd_mount_nfs` -/

/-- A line as the mounts persist it. -/
def mountLine (src mnt fstype opts : Text) : Text :=
  src ++ ' ' :: mnt ++ ' ' :: fstype ++ ' ' :: opts ++ " 0 0".toList

/-- The end of both commands: the line is added unless the file has one with the mount point and
the type. -/
def persistCommand (mnt fstype line : Text) : Text :=
  text [" && \x7b grep -qsF "] ++ quote (mnt ++ ' ' :: fstype) ++ text [" /etc/fstab "] ++
  "|| printf '%s\\n' ".toList ++ quote line ++ " >> ".toList ++ fstab ++ ";".toList ++
  text [" echo 'Persisted to /etc/fstab.'; \x7d"]

def nfsCommand (src mnt opts : Text) : Text :=
  text ["if ! command -v mount.nfs >/dev/null 2>&1 && ! ls /sbin/mount.nfs* >/dev/null 2>&1; then ",
    "echo 'NFS client not installed - install nfs-common (Debian/Ubuntu) ",
    "or nfs-utils (RHEL/SUSE) first.' >&2; exit 1; fi; ", "mkdir -p "] ++ quote mnt ++
  text [" && mount -t nfs -o "] ++ quote opts ++ text [" "] ++ quote src ++ text [" "] ++
  quote mnt ++ text [" && printf 'Mounted %s at %s.\\n' "] ++ quote src ++ text [" "] ++ quote mnt

def cmdMountNfs (server exportPath mountPoint options : Text) (persist : Bool) :
    Except String Text := do
  let server := stripText server
  let exportPath := stripText exportPath
  let mountPoint ← validatePath "Mount point" mountPoint
  if ¬hostRe server then throw "NFS server must be a hostname or IP."
  if exportPath.head? ≠ some '/' then
    throw "NFS export path should start with '/' (e.g. /exports/data)."
  if exportPath.any fun c => c = '\x00' || c = '\n' || c = '\r' then
    throw "NFS export path contains an invalid character."
  let opts := orDefaults (← validateMountOptions options)
  let src := server ++ ':' :: exportPath
  let cmd := nfsCommand src mountPoint opts
  return if persist then
    cmd ++ persistCommand mountPoint "nfs".toList (mountLine src mountPoint "nfs".toList opts)
  else cmd

/-! ### `cmd_mount_cifs` -/

/-- `/etc/sysible-cifs/{mount_point.strip('/').replace('/', '-') or 'root'}.cred` -/
def credPath (mnt : Text) : Text :=
  let name := ((mnt.dropWhile (· = '/')).rdropWhile (· = '/')).map fun c =>
    if c = '/' then '-' else c
  text ["/etc/sysible-cifs/"] ++ (if name = [] then "root".toList else name) ++ text [".cred"]

/-- The options of the line. -/
def cifsOptions (mnt opts : Text) : Text :=
  "credentials=".toList ++ credPath mnt ++ (if opts = [] then [] else ',' :: opts)

def cifsMissing (mnt : Text) : Text :=
  text ["if ! command -v mount.cifs >/dev/null 2>&1 && ! ls /sbin/mount.cifs >/dev/null 2>&1; then ",
    "echo 'CIFS client not installed - install cifs-utils first.' >&2; exit 1; fi; ",
    "mkdir -p "] ++ quote mnt ++ text ["; "]

def printCredentials (user password : Text) : Text :=
  text ["printf 'username=%s\\npassword=%s\\n' "] ++ quote user ++ text [" "] ++ quote password

def mountCifs (unc mnt opts : Text) : Text :=
  text ["O="] ++ quote opts ++
  text ["; mount -t cifs -o \"credentials=$cred$\x7bO:+,$O\x7d\" "] ++ quote unc ++ text [" "] ++
  quote mnt

def cmdMountCifs (server share mountPoint username password options : Text) (persist : Bool) :
    Except String Text := do
  let server := stripText server
  let share := stripText share
  let mountPoint ← validatePath "Mount point" mountPoint
  let username := stripText username
  if ¬hostRe server then throw "CIFS server must be a hostname or IP."
  if ¬shareRe share then throw "Share name is required (the part after //server/)."
  let unc := "//".toList ++ server ++ '/' :: share
  let opts ← validateMountOptions options
  let user := if username = [] then "guest".toList else username
  let mounted := text ["printf 'Mounted %s at %s.\\n' "] ++ quote unc ++ text [" "] ++
    quote mountPoint
  return if persist then
    cifsMissing mountPoint ++
    text ["mkdir -p /etc/sysible-cifs && cred="] ++ quote (credPath mountPoint) ++ text ["; "] ++
    printCredentials user password ++ text [" > \"$cred\" && chmod 600 \"$cred\"; "] ++
    mountCifs unc mountPoint opts ++ text [" && "] ++ mounted ++
    persistCommand mountPoint "cifs".toList
      (mountLine unc mountPoint "cifs".toList (cifsOptions mountPoint opts))
  else
    cifsMissing mountPoint ++ text ["cred=$(mktemp) && chmod 600 \"$cred\"; "] ++
    printCredentials user password ++ text [" > \"$cred\"; "] ++ mountCifs unc mountPoint opts ++
    text ["; rc=$?; rm -f \"$cred\"; ", "if [ \"$rc\" -eq 0 ]; then "] ++ mounted ++
    text ["; else echo 'CIFS mount failed.' >&2; exit \"$rc\"; fi"]

/-! ### What is appended -/

/-- A call that adds an entry. -/
inductive Call where
  | add (device mountPoint fstype options dump passNum : Text)
  | nfs (server exportPath mountPoint options : Text)
  | cifs (server share mountPoint username password options : Text)

def Call.command : Call → Except String Text
  | add device mountPoint fstype options dump passNum =>
    cmdAddFstabEntry device mountPoint fstype options dump passNum
  | nfs server exportPath mountPoint options =>
    cmdMountNfs server exportPath mountPoint options true
  | cifs server share mountPoint username password options =>
    cmdMountCifs server share mountPoint username password options true

/-- The entry that is asked for. -/
def Call.entry : Call → Entry
  | add device mountPoint fstype options _ _ =>
    ⟨stripText device, stripText mountPoint, stripText fstype, orDefaults (stripText options)⟩
  | nfs server exportPath mountPoint options =>
    ⟨stripText server ++ ':' :: stripText exportPath, stripText mountPoint, "nfs".toList,
      orDefaults (stripText options)⟩
  | cifs server share mountPoint _ _ options =>
    ⟨"//".toList ++ stripText server ++ '/' :: stripText share, stripText mountPoint, "cifs".toList,
      cifsOptions (stripText mountPoint) (stripText options)⟩

/-- What POSIX says of `echo`: with `-n` first, or a backslash in an argument, what it writes is up
to the implementation. -/
def Conforming (echo : List Text → Text) : Prop :=
  ∀ t, t ≠ "-n".toList → '\\' ∉ t → echo [t] = t ++ ['\n']

/-- What one of the commands that append writes. -/
def written (echo : List Text → Text) : List Text → Option Text
  | [] => none
  | program :: args =>
    if program = "echo".toList then some (echo args)
    else match args with
      | [format, t] =>
        if program = "printf".toList ∧ format = "%s\\n".toList then some (t ++ ['\n']) else none
      | _ => none

/-- The text that a command appends to the file. -/
def appended (echo : List Text → Text) (command : Text) : Option Text :=
  ((appenders fstab command).mapM (written echo)).map List.flatten

/-- One line, which is read as the entry that is asked for. -/
def Call.AsAsked (echo : List Text → Text) (call : Call) (command : Text) : Prop :=
  ∃ line, appended echo command = some (line ++ ['\n']) ∧ '\n' ∉ line ∧
    FstabLine.parse line = some call.entry

/-- Without a blank, a tab or a backslash. -/
def Bare (x : Text) : Prop := (∀ c ∈ x, isSeparator c = false) ∧ '\\' ∉ x

/-- No field has a blank or an octal escape in it; where `echo` writes the line no field has a
backslash, and the device does not begin with `#`. -/
def Call.Plain : Call → Prop
  | add device mountPoint _ options _ _ =>
    Bare (stripText device) ∧ Bare (stripText mountPoint) ∧ '\\' ∉ stripText options ∧
      (stripText device).head? ≠ some '#'
  | nfs _ exportPath mountPoint options =>
    Clean (stripText exportPath) ∧ Clean (stripText mountPoint) ∧
      hasEscape (stripText options) = false
  | cifs _ share mountPoint _ _ options =>
    Clean (stripText share) ∧ Clean (stripText mountPoint) ∧
      hasEscape (stripText options) = false

/-! ### The commands that append -/

open Appending

variable {mnt opts : Text}

theorem quote_fstab : quote fstab = fstab := by decide

theorem appenders_add (mnt line : Text) :
    appenders fstab (addCommand mnt line) = [["echo".toList, line]] := by
  have hguard : Keeps fstab .blank (text ["if awk -v m="]) .word := keeps_text (by decide)
  have hcopy : Keeps fstab .word
      (text [" '$2==m\x7bf=1\x7d END\x7bexit !f\x7d' /etc/fstab 2>/dev/null; then ",
        "echo 'An /etc/fstab entry for that mount point already exists - ",
        "remove it first if you want to replace it.' >&2; exit 1; fi; ",
        "cp /etc/fstab /etc/fstab.bak.$(date +%s) "]) .blank := keeps_text (by decide +kernel)
  have hecho : Leads fstab .blank .init "&& echo ".toList .blank ⟨["echo".toList], none, 0, []⟩ :=
    ⟨by decide, by decide⟩
  have hshown : Keeps fstab .blank (text ["&& echo 'Added to /etc/fstab:' && grep -F "]) .blank :=
    keeps_text (by decide)
  have hfile : Keeps fstab .word (text [" /etc/fstab"]) .word := keeps_text (by decide)
  have h := appenders_single quote_fstab ((hguard.append (keeps_quote rfl mnt)).append hcopy)
    (.inr rfl) hecho (.inl rfl) ((hshown.append (keeps_quote rfl line)).append hfile) line
  refine Eq.trans (congrArg (appenders fstab) ?_) h
  simp only [addCommand, List.append_assoc]

/-- A command that goes on to persist a mount appends the line, with `printf`. -/
theorem appenders_persist {pre : Text} (hpre : Keeps fstab .blank pre .word)
    (mnt fstype line : Text) : appenders fstab (pre ++ persistCommand mnt fstype line) =
      [["printf".toList, "%s\\n".toList, line]] := by
  have hgrep : Keeps fstab .word (text [" && \x7b grep -qsF "]) .blank := keeps_text (by decide)
  have hpast : Keeps fstab .word (text [" /etc/fstab "]) .blank := keeps_text (by decide)
  have hprintf : Leads fstab .blank .init "|| printf '%s\\n' ".toList .blank
      ⟨["printf".toList, "%s\\n".toList], none, 0, []⟩ := ⟨by decide, by decide⟩
  have hshown : Keeps fstab .blank (text [" echo 'Persisted to /etc/fstab.'; \x7d"]) .word :=
    keeps_text (by decide)
  have h := appenders_single quote_fstab
    (((hpre.append hgrep).append (keeps_quote rfl (mnt ++ ' ' :: fstype))).append hpast)
    (.inl rfl) hprintf (.inr rfl) hshown line
  refine Eq.trans (congrArg (appenders fstab) ?_) h
  simp only [persistCommand, List.append_assoc]

theorem keeps_nfs (src mnt opts : Text) : Keeps fstab .blank (nfsCommand src mnt opts) .word := by
  have hmissing : Keeps fstab .blank
      (text ["if ! command -v mount.nfs >/dev/null 2>&1 && ! ls /sbin/mount.nfs* >/dev/null 2>&1; then ",
        "echo 'NFS client not installed - install nfs-common (Debian/Ubuntu) ",
        "or nfs-utils (RHEL/SUSE) first.' >&2; exit 1; fi; ", "mkdir -p "]) .blank :=
    keeps_text (by decide +kernel)
  have hmount : Keeps fstab .word (text [" && mount -t nfs -o "]) .blank := keeps_text (by decide)
  have hgap : Keeps fstab .word (text [" "]) .blank := keeps_text (by decide)
  have hshown : Keeps fstab .word (text [" && printf 'Mounted %s at %s.\\n' "]) .blank :=
    keeps_text (by decide)
  have hquote : ∀ x, Keeps fstab .blank (quote x) .word := keeps_quote rfl
  have h := ((((hmissing.append (hquote mnt)).append hmount).append (hquote opts)).append hgap)
  have h := (((h.append (hquote src)).append hgap).append (hquote mnt)).append hshown
  exact ((h.append (hquote src)).append hgap).append (hquote mnt)

/-- What comes before the line of a CIFS mount, with `persist`. -/
theorem keeps_cifs (unc mnt opts user password : Text) : Keeps fstab .blank
    (cifsMissing mnt ++
      text ["mkdir -p /etc/sysible-cifs && cred="] ++ quote (credPath mnt) ++ text ["; "] ++
      printCredentials user password ++ text [" > \"$cred\" && chmod 600 \"$cred\"; "] ++
      mountCifs unc mnt opts ++ text [" && "] ++
      (text ["printf 'Mounted %s at %s.\\n' "] ++ quote unc ++ text [" "] ++ quote mnt)) .word := by
  have hmissing : Keeps fstab .blank
      (text ["if ! command -v mount.cifs >/dev/null 2>&1 && ! ls /sbin/mount.cifs >/dev/null 2>&1; then ",
        "echo 'CIFS client not installed - install cifs-utils first.' >&2; exit 1; fi; ",
        "mkdir -p "]) .blank := keeps_text (by decide +kernel)
  have hend : Keeps fstab .word (text ["; "]) .blank := keeps_text (by decide)
  have hgap : Keeps fstab .word (text [" "]) .blank := keeps_text (by decide)
  have hand : Keeps fstab .word (text [" && "]) .blank := keeps_text (by decide)
  have hcred : Keeps fstab .blank (text ["mkdir -p /etc/sysible-cifs && cred="]) .word :=
    keeps_text (by decide)
  have hprintf : Keeps fstab .blank (text ["printf 'username=%s\\npassword=%s\\n' "]) .blank :=
    keeps_text (by decide)
  have hchmod : Keeps fstab .word (text [" > \"$cred\" && chmod 600 \"$cred\"; "]) .blank :=
    keeps_text (by decide)
  have hopts : Keeps fstab .blank (text ["O="]) .word := keeps_text (by decide)
  have hmount : Keeps fstab .word
      (text ["; mount -t cifs -o \"credentials=$cred$\x7bO:+,$O\x7d\" "]) .blank :=
    keeps_text (by decide)
  have hshown : Keeps fstab .blank (text ["printf 'Mounted %s at %s.\\n' "]) .blank :=
    keeps_text (by decide)
  have hquote : ∀ x, Keeps fstab .blank (quote x) .word := keeps_quote rfl
  have hquoted : ∀ x, Keeps fstab .word (quote x) .word := keeps_quote rfl
  have hpre := (hmissing.append (hquote mnt)).append hend
  have hwrite := ((hprintf.append (hquote user)).append hgap).append (hquote password)
  have hmounted := (((hopts.append (hquoted opts)).append hmount).append (hquote unc)).append hgap
  have h := ((hpre.append hcred).append (hquoted (credPath mnt))).append hend
  have h := ((h.append hwrite).append hchmod).append (hmounted.append (hquote mnt))
  exact (h.append hand).append (((hshown.append (hquote unc)).append hgap).append (hquote mnt))

/-! ### What is accepted -/

variable {t p o q : Text} {c : Char} {label : String}

theorem head_stripText (h : (stripText t).head? = some c) : isSpace c = false := by
  have hdrop : (stripText t).dropWhile isSpace = stripText t := by
    rw [stripText_eq]
    exact dropWhile_rdropWhile _ _ (List.dropWhile_idempotent _ _)
  generalize stripText t = s at h hdrop
  cases s with
  | nil => cases h
  | cons d rest =>
    obtain rfl := Option.some.inj h
    by_contra hspace
    rw [Bool.not_eq_false] at hspace
    have hlen := (List.dropWhile_sublist (l := rest) isSpace).length_le
    rw [List.dropWhile_cons_of_pos hspace] at hdrop
    rw [hdrop, List.length_cons] at hlen
    omega

theorem last_stripText (h : (stripText t).getLast? = some c) : isSpace c = false := by
  rw [stripText_eq] at h
  obtain ⟨hne, rfl⟩ := List.mem_getLast?_eq_getLast h
  exact Bool.eq_false_iff.mpr (List.rdropWhile_last_not _ _ hne)

theorem runOf_strip {f : Char → Bool} (h : runOf f (stripText t) = true) :
    stripText t ≠ [] ∧ ∀ c ∈ stripText t, f c = true := by
  have hlast : (stripText t).getLast? ≠ some '\n' := fun hl =>
    absurd (last_stripText hl) (by decide)
  unfold runOf at h
  rw [if_neg hlast, Bool.and_eq_true, decide_eq_true_eq] at h
  exact ⟨h.1, List.all_eq_true.mp h.2⟩

theorem validatePath_ok (h : validatePath label p = .ok q) :
    q = stripText p ∧ stripText p ≠ [] ∧ '\n' ∉ stripText p := by
  unfold validatePath CriticalPaths.validatePath at h
  simp only [Bool.false_eq_true, false_and, if_false] at h
  split_ifs at h with hnil hbad
  obtain rfl := Except.ok.inj h
  refine ⟨rfl, hnil, fun hmem => hbad ?_⟩
  exact List.any_eq_true.mpr ⟨'\n', hmem, by decide⟩

theorem validateMountOptions_ok (h : validateMountOptions o = .ok q) :
    q = stripText o ∧ ∀ c ∈ stripText o, isSpace c = false := by
  unfold validateMountOptions at h
  dsimp only at h
  split_ifs at h with hnil hbad
  · obtain rfl := Except.ok.inj h
    exact ⟨rfl, by simp [hnil]⟩
  · obtain rfl := Except.ok.inj h
    refine ⟨rfl, fun c hc => Bool.eq_false_iff.mpr fun hspace => hbad ?_⟩
    exact List.any_eq_true.mpr ⟨c, hc, by simp [hspace]⟩

theorem validateIntRange_ok {lo hi n : ℤ} (h : validateIntRange t lo hi label = .ok n) :
    lo ≤ n ∧ n ≤ hi := by
  unfold validateIntRange at h
  cases hint : PythonInt.pyInt (stripText t) with
  | none => simp [hint] at h
  | some m =>
    simp only [hint] at h
    split_ifs at h with hrange
    obtain rfl := Except.ok.inj h
    exact hrange

/-- What the fields of an accepted entry have in common. -/
structure Field (x : Text) : Prop where
  begins : Begins x
  newline : '\n' ∉ x

theorem isSeparator_of_isSpace (h : isSpace c = false) : isSeparator c = false := by
  by_contra hsep
  rw [Bool.not_eq_false, isSeparator, Bool.or_eq_true, decide_eq_true_eq, decide_eq_true_eq] at hsep
  rcases hsep with rfl | rfl <;> exact absurd h (by decide)

theorem field_strip (hne : stripText t ≠ []) (hnewline : '\n' ∉ stripText t) :
    Field (stripText t) := by
  refine ⟨?_, hnewline⟩
  cases hs : (stripText t).head? with
  | none => exact absurd (List.head?_eq_none_iff.mp hs) hne
  | some d => exact ⟨d, hs, isSeparator_of_isSpace (head_stripText hs)⟩

theorem newline_of_spaceless (h : ∀ c ∈ t, isSpace c = false) : '\n' ∉ t :=
  fun hmem => absurd (h '\n' hmem) (by decide)

theorem field_options (h : ∀ c ∈ stripText o, isSpace c = false) :
    Field (orDefaults (stripText o)) := by
  unfold orDefaults
  split_ifs with hnil
  · exact ⟨⟨'d', rfl, rfl⟩, by decide⟩
  · exact field_strip hnil (newline_of_spaceless h)

theorem newline_of_run {f : Char → Bool} (hf : f '\n' = false) (h : ∀ c ∈ t, f c = true) :
    '\n' ∉ t := by
  intro hmem
  rw [h '\n' hmem] at hf
  cases hf

theorem addLine_eq (d m f o : Text) (x y : ℤ) :
    addLine d m f o x y = Entry.line '\t' ⟨d, m, f, o⟩ (number x ++ '\t' :: number y) := by
  simp [addLine, Entry.line, Entry.fields]

theorem mountLine_eq (s m f o : Text) :
    mountLine s m f o = Entry.line ' ' ⟨s, m, f, o⟩ "0 0".toList := by
  simp [mountLine, Entry.line, Entry.fields]

/-- A number of at most one digit. -/
theorem number_plain {n : ℤ} (h : 0 ≤ n ∧ n ≤ 9) : '\n' ∉ number n ∧ '\\' ∉ number n := by
  obtain ⟨hlo, hhi⟩ := h
  interval_cases n <;> decide

variable {device mountPoint fstype options dump passNum server exportPath share username password
  command : Text}

theorem add_ok
    (h : (Call.add device mountPoint fstype options dump passNum).command = .ok command) :
    ∃ rest, ('\n' ∉ rest ∧ '\\' ∉ rest) ∧
      (Call.add device mountPoint fstype options dump passNum).entry.All Field ∧
      (∀ c ∈ stripText options, isSpace c = false) ∧ fstypeRe (stripText fstype) = true ∧
      appenders fstab command = [["echo".toList,
        (Call.add device mountPoint fstype options dump passNum).entry.line '\t' rest]] := by
  change cmdAddFstabEntry _ _ _ _ _ _ = _ at h
  unfold cmdAddFstabEntry at h
  obtain ⟨d, hd, h⟩ := bind_ok h
  obtain ⟨m, hm, h⟩ := bind_ok h
  obtain ⟨hdeq, hdne, hdline⟩ := validatePath_ok hd
  obtain ⟨hmeq, hmne, hmline⟩ := validatePath_ok hm
  rw [hdeq, hmeq] at h
  obtain ⟨hfne, h⟩ := guard_ok h
  obtain ⟨hftype, h⟩ := guard_ok h
  rw [not_not] at hftype
  obtain ⟨o, ho, h⟩ := bind_ok h
  obtain ⟨x, hx, h⟩ := bind_ok h
  obtain ⟨y, hy, h⟩ := bind_ok h
  obtain ⟨hoeq, hospace⟩ := validateMountOptions_ok ho
  rw [hoeq] at h
  obtain rfl := Except.ok.inj h
  obtain ⟨hxlo, hxhi⟩ := validateIntRange_ok hx
  obtain ⟨hxline, hxslash⟩ := number_plain (n := x) (by omega)
  obtain ⟨hyline, hyslash⟩ := number_plain (validateIntRange_ok hy)
  have hfline : '\n' ∉ stripText fstype := newline_of_run (by decide) (runOf_strip hftype).2
  refine ⟨number x ++ '\t' :: number y, ⟨?_, ?_⟩, ?_, hospace, hftype, ?_⟩
  · simp [hxline, hyline]
  · simp [hxslash, hyslash]
  · simp only [Call.entry, Entry.All]
    exact ⟨field_strip hdne hdline, field_strip hmne hmline, field_strip hfne hfline,
      field_options hospace⟩
  · rw [appenders_add, addLine_eq]
    rfl

theorem field_host {rest : Text} (h : hostRe (stripText server) = true) (hrest : '\n' ∉ rest) :
    Field (stripText server ++ rest) := by
  obtain ⟨hne, hall⟩ := runOf_strip h
  obtain ⟨⟨d, hd, hsep⟩, -⟩ := field_strip hne (newline_of_run (by decide) hall)
  refine ⟨⟨d, ?_, hsep⟩, ?_⟩
  · rw [List.head?_append, hd]
    rfl
  · rw [List.mem_append]
    exact not_or.mpr ⟨newline_of_run (by decide) hall, hrest⟩

theorem nfs_ok (h : (Call.nfs server exportPath mountPoint options).command = .ok command) :
    (Call.nfs server exportPath mountPoint options).entry.All Field ∧
      (∀ c ∈ stripText options, isSpace c = false) ∧ hostRe (stripText server) = true ∧
      appenders fstab command = [["printf".toList, "%s\\n".toList,
        (Call.nfs server exportPath mountPoint options).entry.line ' ' "0 0".toList]] := by
  change cmdMountNfs _ _ _ _ _ = _ at h
  unfold cmdMountNfs at h
  obtain ⟨m, hm, h⟩ := bind_ok h
  obtain ⟨hmeq, hmne, hmline⟩ := validatePath_ok hm
  rw [hmeq] at h
  obtain ⟨hhost, h⟩ := guard_ok h
  rw [not_not] at hhost
  obtain ⟨-, h⟩ := guard_ok h
  obtain ⟨hbad, h⟩ := guard_ok h
  obtain ⟨o, ho, h⟩ := bind_ok h
  obtain ⟨hoeq, hospace⟩ := validateMountOptions_ok ho
  rw [hoeq] at h
  have hcommand := Except.ok.inj h
  rw [if_pos rfl] at hcommand
  have hexport : '\n' ∉ ':' :: stripText exportPath := by
    refine List.not_mem_cons_of_ne_of_not_mem (by decide) fun hmem => hbad ?_
    exact List.any_eq_true.mpr ⟨'\n', hmem, by decide⟩
  refine ⟨?_, hospace, hhost, ?_⟩
  · simp only [Call.entry, Entry.All]
    exact ⟨field_host hhost hexport, field_strip hmne hmline, ⟨⟨'n', rfl, rfl⟩, by decide⟩,
      field_options hospace⟩
  · rw [← hcommand, appenders_persist (keeps_nfs _ _ _), mountLine_eq]
    rfl

theorem newline_credPath (h : '\n' ∉ mnt) : '\n' ∉ credPath mnt := by
  have hname : ∀ c ∈ ((mnt.dropWhile (· = '/')).rdropWhile (· = '/')).map fun c =>
      if c = '/' then '-' else c, c ≠ '\n' := by
    intro c hc
    obtain ⟨d, hd, rfl⟩ := List.mem_map.mp hc
    have hmem : d ∈ mnt :=
      (List.dropWhile_sublist _).subset ((List.rdropWhile_prefix _ _).subset hd)
    split_ifs with hslash
    · decide
    · rintro rfl
      exact h hmem
  unfold credPath
  dsimp only
  rw [List.mem_append, List.mem_append, not_or, not_or]
  refine ⟨⟨by decide, ?_⟩, by decide⟩
  split_ifs
  · decide
  · exact fun hmem => hname _ hmem rfl

theorem field_cifsOptions (hm : '\n' ∉ mnt) (ho : '\n' ∉ opts) : Field (cifsOptions mnt opts) := by
  refine ⟨⟨'c', rfl, rfl⟩, ?_⟩
  unfold cifsOptions
  rw [List.mem_append, List.mem_append, not_or, not_or]
  refine ⟨⟨by decide, newline_credPath hm⟩, ?_⟩
  split_ifs
  · exact nofun
  · exact List.not_mem_cons_of_ne_of_not_mem (by decide) ho

theorem cifs_ok
    (h : (Call.cifs server share mountPoint username password options).command = .ok command) :
    (Call.cifs server share mountPoint username password options).entry.All Field ∧
      (∀ c ∈ stripText options, isSpace c = false) ∧ hostRe (stripText server) = true ∧
      appenders fstab command = [["printf".toList, "%s\\n".toList,
        (Call.cifs server share mountPoint username password options).entry.line ' ' "0 0".toList]] := by
  change cmdMountCifs _ _ _ _ _ _ _ = _ at h
  unfold cmdMountCifs at h
  obtain ⟨m, hm, h⟩ := bind_ok h
  obtain ⟨hmeq, hmne, hmline⟩ := validatePath_ok hm
  rw [hmeq] at h
  obtain ⟨hhost, h⟩ := guard_ok h
  rw [not_not] at hhost
  obtain ⟨hshare, h⟩ := guard_ok h
  rw [not_not] at hshare
  obtain ⟨o, ho, h⟩ := bind_ok h
  obtain ⟨hoeq, hospace⟩ := validateMountOptions_ok ho
  rw [hoeq] at h
  have hcommand := Except.ok.inj h
  rw [if_pos rfl] at hcommand
  have hline : '\n' ∉ '/' :: stripText share := List.not_mem_cons_of_ne_of_not_mem (by decide)
    (newline_of_run (by decide) (runOf_strip hshare).2)
  refine ⟨?_, hospace, hhost, ?_⟩
  · simp only [Call.entry, Entry.All]
    refine ⟨⟨⟨'/', rfl, rfl⟩, ?_⟩, field_strip hmne hmline, ⟨⟨'c', rfl, rfl⟩, by decide⟩,
      field_cifsOptions hmline (newline_of_spaceless hospace)⟩
    rw [List.append_assoc, List.mem_append]
    exact not_or.mpr ⟨by decide, (field_host hhost hline).newline⟩
  · rw [← hcommand, appenders_persist (keeps_cifs _ _ _ _ _), mountLine_eq]
    rfl

end FstabPersist
