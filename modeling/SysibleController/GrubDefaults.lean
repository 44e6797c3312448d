import SysibleController.FstabPersist
import SysibleController.IptablesRules
import SysibleController.SourcedFile

/-! The commands that write a setting into `/etc/default/grub` (`_api_boot.py`), on a host without
grubby. -/
namespace GrubDefaults

open PathText PythonText ShellQuote FixedGrep SourcedFile
open IptablesRules (Unicode isAlnum isDigit)
open ShellReader (word word_quote ordinary)

/-- The host: the file, and what of the script works there: replacing the file as `sed -i` does,
appending to it, rebuilding `grub.cfg` and `grub-set-default`. -/
structure Host where
  file : Option Text
  replaces : Bool
  appends : Bool
  rebuilds : Bool
  sets : Bool

inductive Edit where
  | replace
  | append
  | nothing
  deriving DecidableEq

def Edit.apply (s : Setting) (file : Option Text) : Edit → Option Text
  | .replace => file.map s.sed
  | .append => some (s.echo (file.getD []))
  | .nothing => file

/-- What a script did to the file, and whether it says that all went well. -/
structure Run where
  edit : Edit
  success : Bool
  deriving DecidableEq

/-- `grep -q '^{key}'` -/
def found (s : Setting) (file : Option Text) : Bool :=
  (records (file.getD [])).any fun l => s.key <+: l

/-- `if grep -q ..; then sed -i ..; else echo .. >> ..; fi` -/
def grepThenSed (s : Setting) (h : Host) : Edit × Bool :=
  if found s h.file then
    if h.replaces then (.replace, true) else (.nothing, false)
  else if h.appends then (.append, true)
  else (.nothing, false)

/-- `sed -i .. && grep -q .. || echo .. >> ..`: the `echo` also runs when the `sed` fails. -/
def sedGrepOrEcho (s : Setting) (h : Host) : Edit :=
  if h.file.isSome && h.replaces && found s h.file then .replace
  else if h.appends then .append
  else .nothing

/-! ### The values -/

variable (unicode : Unicode)

/-- `[\w =,.:/+\-]` -/
def cmdlineChar (c : Char) : Bool :=
  isAlnum unicode c || "_ =,.:/+-".toList.contains c

/-- `_CMDLINE_RE`; its `$` also matches before a last newline. -/
def cmdlineRe (t : Text) : Bool :=
  (if t.getLast? = some '\n' then t.dropLast else t).all (cmdlineChar unicode)

def cmdlineName : Text := "GRUB_CMDLINE_LINUX".toList

def timeoutName : Text := "GRUB_TIMEOUT".toList

def defaultName : Text := "GRUB_DEFAULT".toList

theorem isVariable_of {x : Text} (hhead : (x.head?.any fun c => c.isAlpha || c = '_') = true)
    (hall : (x.all fun c => c.isAlphanum || c = '_') = true) : IsVariable x := by
  constructor
  · cases x with
    | nil => cases hhead
    | cons c x =>
      refine ⟨c, rfl, ?_⟩
      simpa using hhead
  · intro c hc
    simpa using List.all_eq_true.mp hall c hc

variable {unicode}

/-- No letter or digit has a meaning of its own. -/
theorem not_alnum_special {c : Char} (h : isAlnum unicode c = true) :
    c ∉ "\"\\$\x60\n~".toList := by
  rw [isAlnum, Bool.or_eq_true, Bool.and_eq_true, decide_eq_true_eq] at h
  intro hspecial
  have hplain : ("\"\\$\x60\n~".toList.all fun d => !d.isAlphanum && d.toNat < 128) = true := by
    decide
  have hc := List.all_eq_true.mp hplain c hspecial
  rw [Bool.and_eq_true, Bool.not_eq_true', decide_eq_true_eq] at hc
  rcases h with halnum | ⟨hbeyond, -⟩
  · rw [hc.1] at halnum
    cases halnum
  · omega

theorem inert_of_not_mem {c : Char} (h : c ∉ "\"\\$\x60\n~".toList) : inert c = true := by
  rw [inert, Bool.not_eq_true', Bool.eq_false_iff]
  intro hspecial
  simp only [Bool.or_eq_true, decide_eq_true_eq] at hspecial
  apply h
  rcases hspecial with (((rfl | rfl) | rfl) | rfl) | rfl <;> decide

theorem inert_cmdline {c : Char} (h : cmdlineChar unicode c = true) : inert c = true := by
  apply inert_of_not_mem
  rw [cmdlineChar, Bool.or_eq_true, List.contains_iff_mem] at h
  rcases h with halnum | hmark
  · exact not_alnum_special halnum
  · intro hspecial
    have hapart : ("\"\\$\x60\n~".toList.all fun d => !"_ =,.:/+-".toList.contains d) = true := by
      decide
    have hc := List.all_eq_true.mp hapart c hspecial
    rw [Bool.not_eq_true', List.contains_iff_mem.mpr hmark] at hc
    cases hc

theorem inert_of_cmdlineRe {params : Text} (h : cmdlineRe unicode (stripText params) = true) :
    ∀ c ∈ stripText params, inert c = true := by
  have hlast : (stripText params).getLast? ≠ some '\n' := fun hlast =>
    absurd (FstabPersist.last_stripText hlast) (by decide)
  rw [cmdlineRe, if_neg hlast] at h
  exact fun c hc => inert_cmdline (List.all_eq_true.mp h c hc)

theorem digit_plain {c : Char} (h : isDigit unicode c = true) : ordinary c = true ∧ c ≠ '~' := by
  refine ⟨IptablesRules.ordinary_of_isDigit h, ?_⟩
  rintro rfl
  rw [isDigit, Bool.or_eq_true, Bool.and_eq_true] at h
  rcases h with h | ⟨h, -⟩
  · exact absurd h (by decide)
  · exact absurd h (by decide)

variable (unicode)

/-- The parameters are quoted for the script and stand in double quotes in the file. -/
def cmdSetKernelCmdline (params : Text) : Except String Setting :=
  if h : cmdlineRe unicode (stripText params) = true then
    .ok {
      name := cmdlineName
      value := stripText params
      line := cmdlineName ++ '=' :: '"' :: (word (quote (stripText params)) ++ ['"'])
      assignment := by
        rw [word_quote]
        exact .quoted (isVariable_of (by decide) (by decide)) (inert_of_cmdlineRe h) }
  else .error "Kernel parameters contain unexpected characters."

/-- Any character is a digit that `str.isdigit` takes for one. -/
def cmdSetGrubTimeout (seconds : Text) : Except String Setting :=
  if h : stripText seconds ≠ [] ∧ (stripText seconds).all (isDigit unicode) = true then
    .ok {
      name := timeoutName
      value := stripText seconds
      line := timeoutName ++ '=' :: stripText seconds
      assignment := .bare (isVariable_of (by decide) (by decide)) fun c hc =>
        digit_plain (List.all_eq_true.mp h.2 c hc) }
  else .error "Timeout must be a whole number of seconds."

/-- The branch of `grub-set-default`, which first makes the file ask for the saved entry. -/
def cmdSetGrubDefault (entry : Text) : Except String Setting :=
  if stripText entry = [] then .error "Default entry (index or title) is required."
  else .ok {
    name := defaultName
    value := "saved".toList
    line := defaultName ++ '=' :: "saved".toList
    assignment := .bare (isVariable_of (by decide) (by decide)) fun c hc =>
      of_decide_eq_true (List.all_eq_true.mp
        (by decide : ("saved".toList.all fun c => ordinary c = true ∧ c ≠ '~') = true) c hc) }

/-! ### The scripts -/

inductive Call where
  | cmdline (params : Text)
  | timeout (seconds : Text)
  | default (entry : Text)

def Call.setting : Call → Except String Setting
  | .cmdline params => cmdSetKernelCmdline unicode params
  | .timeout seconds => cmdSetGrubTimeout unicode seconds
  | .default entry => cmdSetGrubDefault entry

/-- A timeout that was not written is not noticed: the rebuilding comes after a `;`. -/
def Call.run (s : Setting) (h : Host) : Call → Run
  | .cmdline _ => ⟨(grepThenSed s h).1, (grepThenSed s h).2 && h.rebuilds⟩
  | .timeout _ => ⟨sedGrepOrEcho s h, h.rebuilds⟩
  | .default _ => ⟨(grepThenSed s h).1, (grepThenSed s h).2 && h.rebuilds && h.sets⟩

/-- The file is one that comes out right: where lines are found they can be replaced, and else a
line can be added. A timeout that cannot be replaced is added as well, so that it matters there
that this works. -/
def Fit (sh : Shell) (s : Setting) (h : Host) : Call → Prop
  | .timeout _ =>
    if found s h.file = true ∧ h.replaces = true then Replaceable sh s (records (h.file.getD []))
    else h.appends = true ∧ Appendable sh s (h.file.getD [])
  | _ =>
    if found s h.file = true then Replaceable sh s (records (h.file.getD []))
    else Appendable sh s (h.file.getD [])

variable {unicode} {s : Setting} {h : Host}

theorem file_of_found (hfound : found s h.file = true) : ∃ c, h.file = some c := by
  cases hfile : h.file with
  | none =>
    rw [hfile] at hfound
    exact absurd hfound (by simp [found, records, TextLines.lines, unended])
  | some c => exact ⟨c, rfl⟩

theorem stored_replaced {sh : Shell} (hfound : found s h.file = true)
    (hfit : Replaceable sh s (records (h.file.getD []))) :
    Stored sh s h.file (Edit.replace.apply s h.file) := by
  obtain ⟨c, hc⟩ := file_of_found hfound
  rw [hc] at hfit ⊢
  exact stored_sed hfit

/-- With `if grep .. then sed .. else echo ..` a file that is not written is noticed. -/
theorem stored_grepThenSed {sh : Shell} (hsuccess : (grepThenSed s h).2 = true)
    (hfit : if found s h.file = true then Replaceable sh s (records (h.file.getD []))
      else Appendable sh s (h.file.getD [])) :
    Stored sh s h.file ((grepThenSed s h).1.apply s h.file) := by
  rw [grepThenSed] at hsuccess ⊢
  by_cases hfound : found s h.file = true
  · rw [if_pos hfound] at hfit hsuccess ⊢
    by_cases hreplaces : h.replaces = true
    · rw [if_pos hreplaces]
      exact stored_replaced hfound hfit
    · rw [if_neg hreplaces] at hsuccess
      cases hsuccess
  · rw [if_neg hfound] at hfit hsuccess ⊢
    by_cases happends : h.appends = true
    · rw [if_pos happends]
      exact stored_echo hfit
    · rw [if_neg happends] at hsuccess
      cases hsuccess

theorem stored_sedGrepOrEcho {sh : Shell}
    (hfit : if found s h.file = true ∧ h.replaces = true
      then Replaceable sh s (records (h.file.getD []))
      else h.appends = true ∧ Appendable sh s (h.file.getD [])) :
    Stored sh s h.file ((sedGrepOrEcho s h).apply s h.file) := by
  by_cases hsed : found s h.file = true ∧ h.replaces = true
  · rw [if_pos hsed] at hfit
    obtain ⟨c, hc⟩ := file_of_found hsed.1
    have hedit : sedGrepOrEcho s h = .replace := by
      rw [sedGrepOrEcho, if_pos (by rw [hsed.1, hsed.2, hc]; rfl)]
    rw [hedit]
    exact stored_replaced hsed.1 hfit
  · rw [if_neg hsed] at hfit
    have hedit : sedGrepOrEcho s h = .append := by
      rw [sedGrepOrEcho, if_neg, if_pos hfit.1]
      intro hall
      simp only [Bool.and_eq_true] at hall
      exact hsed ⟨hall.2, hall.1.2⟩
    rw [hedit]
    exact stored_echo hfit.2

def quiet : Setting where
  name := cmdlineName
  value := "quiet".toList
  line := cmdlineName ++ '=' :: '"' :: ("quiet".toList ++ ['"'])
  assignment := .quoted (isVariable_of (by decide) (by decide)) fun _ hc =>
    List.all_eq_true.mp (by decide : "quiet".toList.all inert = true) _ hc

theorem quiet_ok : (Call.cmdline "quiet".toList).setting IptablesRules.ascii = .ok quiet := by
  have hstrip : stripText "quiet".toList = "quiet".toList := by decide +kernel
  have hre : cmdlineRe IptablesRules.ascii (stripText "quiet".toList) = true := by
    rw [hstrip]
    decide +kernel
  rw [Call.setting, cmdSetKernelCmdline, dif_pos hre]
  simp only [hstrip, word_quote]
  rfl

def hostWith (file : String) : Host := ⟨some file.toList, true, true, true, true⟩

def ended : String := "GRUB_TIMEOUT=5\n"

theorem appends_ended : (Call.cmdline "quiet".toList).run quiet (hostWith ended) =
    ⟨.append, true⟩ := by decide +kernel

def unendedFile : String := "GRUB_TIMEOUT=5"

theorem appends_unended : (Call.cmdline "quiet".toList).run quiet (hostWith unendedFile) =
    ⟨.append, true⟩ := by decide +kernel

end GrubDefaults
