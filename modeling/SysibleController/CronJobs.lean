import SysibleController.FixedGrep
import SysibleController.FstabAsked
import SysibleController.HeredocBuilders
import SysibleController.ShellArgv

/-! The lines of a user's crontab: adding a job and removing those with some text in them. The
cron of a host may refuse a new crontab, and then the old one stays. -/
namespace CronJobs

open PathText TextLines ShellQuote FixedGrep PythonText EarlyExit
open ShellReader (word word_quote)

/-- `crontab -` with a text; lines that are blank do not matter to it. -/
structure Cron where
  accepts : Text → Bool
  accepts_blank : ∀ n, accepts (blank n) = true

/-- The lines that `crontab -l` prints; where there is no crontab it prints none. -/
abbrev Crontab := Option Text

def Crontab.text (tab : Crontab) : Text := tab.getD []

def Cron.install (cron : Cron) (tab : Crontab) (new : Text) : Crontab :=
  if cron.accepts new then some new else tab

/-- `schedule command  # comment`. -/
def jobLine (schedule command comment : Text) : Text :=
  let line := schedule ++ ' ' :: command
  if stripText comment = [] then line else line ++ "  # ".toList ++ stripText comment

/-- `(crontab -l 2>/dev/null; echo {line}) | crontab -`. -/
def addScript (line : Text) (cron : Cron) (echo : List Text → Text) (tab : Crontab) :
    Crontab × Text :=
  let new := tab.text ++ echo [line]
  (cron.install tab new, if cron.accepts new then "Cron job added.".toList
    else "Failed to add cron job (crontab not available on this host?).".toList)

def cmdAddCronJob (schedule command comment : Text) :
    Except String (Cron → (List Text → Text) → Crontab → Crontab × Text) := do
  let schedule := stripText schedule
  let command := stripText command
  HeredocBuilders.rejectNewlines "schedule" schedule
  HeredocBuilders.rejectNewlines "command" command
  HeredocBuilders.rejectNewlines "comment" comment
  if schedule = [] then .error "Schedule cannot be empty (e.g. '*/15 * * * *', or '@reboot')"
  else if command = [] then .error "Command cannot be empty"
  else if schedule.head? ≠ some '@' ∧ HeredocBuilders.splitCount schedule ≠ 5 then
    .error ("Schedule must have exactly 5 fields (minute hour day month weekday), " ++
      "or be an '@'-style shortcut like @reboot/@daily")
  else .ok (addScript (word (quote (jobLine schedule command comment))))

def removeScript (pattern : Text) (cron : Cron) (grep : Grep) (tab : Crontab) : Crontab × Text :=
  -- count=$(crontab -l 2>/dev/null | grep -F {q} | wc -l | tr -d ' ')
  let count := (grep (find false) pattern tab.text).1.count '\n'
  if count = 0 then (tab, "No crontab line matched that text.".toList)
  else
    -- crontab -l 2>/dev/null | grep -vF {q} | crontab -
    let new := (grep (keep false) pattern tab.text).1
    (cron.install tab new, if cron.accepts new then
      "Removed ".toList ++ FstabPersist.number count ++ " matching line(s).".toList
    else "Failed to update crontab.".toList)

def cmdRemoveCronJob (matchText : Text) :
    Except String (Cron → Grep → Crontab → Crontab × Text) :=
  let matchText := stripText matchText
  if matchText = [] then
    .error "Provide the exact line (or a unique snippet/comment) to remove"
  else .ok (removeScript (word (quote matchText)))

/-- One line is added to the former ones. -/
def Adds (script : Cron → (List Text → Text) → Crontab → Crontab × Text) (line : Text)
    (cron : Cron) (tab : Crontab) : Prop :=
  ∀ echo, FstabPersist.Conforming echo →
    records (script cron echo tab).1.text = records tab.text ++ [line]

/-- The lines with the text are gone and the others are kept in order. -/
def RemovesAlone (script : Cron → Grep → Crontab → Crontab × Text) (text : Text) (cron : Cron)
    (tab : Crontab) : Prop :=
  ∀ grep, FixedGrep.Conforming grep →
    records (script cron grep tab).1.text = without text tab.text

/-- No backslash is in the line, the crontab ends with a line break, and cron accepts it. -/
def Addable (line : Text) (cron : Cron) (tab : Crontab) : Prop :=
  '\\' ∉ line ∧ unended tab.text = [] ∧ cron.accepts (tab.text ++ (line ++ ['\n'])) = true

/-- The text is no option. Where grep finds lines for it, cron accepts the others just if the
text is of one line. -/
def Removable (text : Text) (cron : Cron) (tab : Crontab) : Prop :=
  Plain false text tab.text ∧ (selected (find false) text tab.text = [] ∨
    (cron.accepts (terminated (selected (keep false) text tab.text)) = true ↔ '\n' ∉ text))

variable {line text : Text} {cron : Cron} {tab : Crontab}

theorem install_text (new : Text) :
    (cron.install tab new).text = if cron.accepts new then new else tab.text := by
  rw [Cron.install]
  split_ifs <;> rfl

theorem length_records_append_line (hline : '\n' ∉ line) (c : Text) (hend : unended c ≠ []) :
    (records (c ++ (line ++ ['\n']))).length = (records c).length := by
  rw [records_append_line hline, records, if_neg hend]
  simp

theorem adds_iff (hline : '\n' ∉ line) (hdash : line ≠ "-n".toList) :
    Adds (addScript line) line cron tab ↔ Addable line cron tab := by
  have htext : ∀ echo, (addScript line cron echo tab).1.text =
      if cron.accepts (tab.text ++ echo [line]) then tab.text ++ echo [line] else tab.text :=
    fun echo => install_text _
  have hmore : records tab.text ≠ records tab.text ++ [line] := by simp
  constructor
  · intro h
    have hsparing := h _ FstabPersist.conforming_sparing
    rw [htext] at hsparing
    have hslash : '\\' ∉ line := by
      intro hslash
      have hnone : FstabPersist.sparing [line] = [] := if_pos (.inr hslash)
      rw [hnone, List.append_nil, ite_self] at hsparing
      exact hmore hsparing
    rw [FstabPersist.conforming_sparing line hdash hslash] at hsparing
    split_ifs at hsparing with haccepts
    · refine ⟨hslash, ?_, haccepts⟩
      by_contra hend
      have hlength := congrArg List.length hsparing
      rw [length_records_append_line hline _ hend] at hlength
      simp at hlength
    · exact absurd hsparing hmore
  · rintro ⟨hslash, hend, haccepts⟩ echo hecho
    have hone : line ++ ['\n'] = terminated [line] := by simp [terminated]
    rw [htext, hecho line hdash hslash, if_pos haccepts, hone, records_append hend]
    simpa using hline

theorem removeScript_plain {grep : Grep} (hgrep : FixedGrep.Conforming grep)
    (hplain : Plain false text tab.text) : (removeScript text cron grep tab).1.text =
      if selected (find false) text tab.text = [] then tab.text
      else if cron.accepts (terminated (selected (keep false) text tab.text)) then
        terminated (selected (keep false) text tab.text)
      else tab.text := by
  have hcount : (grep (find false) text tab.text).1.count '\n' =
      (selected (find false) text tab.text).length := by
    rw [hgrep _ _ _ hplain]
    exact count_terminated fun l hl => newline_records l (List.mem_filter.mp hl).1
  have hkept : (grep (keep false) text tab.text).1 =
      terminated (selected (keep false) text tab.text) := by
    rw [hgrep _ _ _ hplain]
    rfl
  simp only [removeScript, hcount, hkept, List.length_eq_zero_iff]
  split_ifs with hnone haccepts
  · rfl
  · rw [install_text, if_pos haccepts]
  · rw [install_text, if_neg haccepts]

theorem removesAlone_iff :
    RemovesAlone (removeScript text) text cron tab ↔ Removable text cron tab := by
  by_cases hplain : Plain false text tab.text
  swap
  · refine iff_of_false ?_ fun h => hplain h.1
    intro h
    let other : Text × Bool := (blank ((records tab.text).length + 1), true)
    have hfind : wayward other (find false) text tab.text = other := wayward_of_not hplain
    have hkept : wayward other (keep false) text tab.text = other := wayward_of_not hplain
    have hcount : other.1.count '\n' ≠ 0 := by simp [other, blank]
    have hscript : (removeScript text cron (wayward other) tab).1.text = other.1 := by
      simp only [removeScript, hfind, hkept, if_neg hcount, install_text]
      exact if_pos (cron.accepts_blank _)
    have hbad := h _ (conforming_wayward other)
    rw [hscript] at hbad
    have hlength := congrArg List.length hbad
    rw [records_blank, List.length_replicate] at hlength
    have hfew := length_without_le text tab.text
    omega
  have hkeep : records (terminated (selected (keep false) text tab.text)) =
      selected (keep false) text tab.text := records_filter _
  have hstep : RemovesAlone (removeScript text) text cron tab ↔
      records (if selected (find false) text tab.text = [] then tab.text
        else if cron.accepts (terminated (selected (keep false) text tab.text)) then
          terminated (selected (keep false) text tab.text)
        else tab.text) = without text tab.text := by
    constructor
    · intro h
      have := h _ (conforming_wayward ([], true))
      rwa [removeScript_plain (conforming_wayward _) hplain] at this
    · intro h grep hgrep
      rw [removeScript_plain hgrep hplain, h]
  rw [hstep, Removable]
  simp only [hplain, true_and]
  by_cases hline : '\n' ∈ text
  · rw [without_of_newline hline]
    by_cases hnone : selected (find false) text tab.text = []
    · simp [hnone]
    · have hless := mt selected_find_eq_nil.mpr hnone
      by_cases haccepts : cron.accepts (terminated (selected (keep false) text tab.text))
      · simp [hnone, haccepts, hkeep, hless, hline]
      · simp [hnone, haccepts, hline]
  · rw [← selected_keep false hline]
    by_cases hnone : selected (find false) text tab.text = []
    · simp [hnone, selected_find_eq_nil.mp hnone]
    · have hless := mt selected_find_eq_nil.mpr hnone
      by_cases haccepts : cron.accepts (terminated (selected (keep false) text tab.text))
      · simp [hnone, haccepts, hkeep, hline]
      · simp [hnone, haccepts, hline, Ne.symm hless]

theorem add_ok {schedule command comment : Text}
    {script : Cron → (List Text → Text) → Crontab → Crontab × Text}
    (h : cmdAddCronJob schedule command comment = .ok script) :
    script = addScript (jobLine (stripText schedule) (stripText command) comment) ∧
      '\n' ∉ jobLine (stripText schedule) (stripText command) comment ∧
      jobLine (stripText schedule) (stripText command) comment ≠ "-n".toList := by
  obtain ⟨⟨⟩, hschedule, h⟩ := bind_ok h
  obtain ⟨⟨⟩, hcommand, h⟩ := bind_ok h
  obtain ⟨⟨⟩, hcomment, h⟩ := bind_ok h
  obtain ⟨hempty, h⟩ := guard_ok h
  obtain ⟨-, h⟩ := guard_ok h
  obtain ⟨-, h⟩ := guard_ok h
  obtain ⟨hschedule, -⟩ := guard_ok hschedule
  obtain ⟨hcommand, -⟩ := guard_ok hcommand
  obtain ⟨hcomment, -⟩ := guard_ok hcomment
  rw [word_quote] at h
  refine ⟨(Except.ok.inj h).symm, ?_, ?_⟩
  · have hline : '\n' ∉ stripText schedule ++ ' ' :: stripText command := by
      intro hmem
      rcases List.mem_append.mp hmem with hmem | hmem
      · exact hschedule (.inl hmem)
      · rcases List.mem_cons.mp hmem with hmem | hmem
        · exact absurd hmem (by decide)
        · exact hcommand (.inl hmem)
    rw [jobLine]
    split_ifs
    · exact hline
    · intro hmem
      rcases List.mem_append.mp hmem with hmem | hmem
      · rcases List.mem_append.mp hmem with hmem | hmem
        · exact hline hmem
        · exact absurd hmem (by decide)
      · exact hcomment (.inl (mem_of_mem_stripText hmem))
  · -- a blank is in the line
    intro hdash
    have hblank : ' ' ∈ jobLine (stripText schedule) (stripText command) comment := by
      rw [jobLine]
      split_ifs <;> simp
    rw [hdash] at hblank
    exact absurd hblank (by decide)

theorem remove_ok {matchText : Text} {script : Cron → Grep → Crontab → Crontab × Text}
    (h : cmdRemoveCronJob matchText = .ok script) :
    script = removeScript (stripText matchText) := by
  rw [cmdRemoveCronJob] at h
  obtain ⟨-, h⟩ := guard_ok h
  rw [word_quote] at h
  exact (Except.ok.inj h).symm

/-- A job is stored as typed and removed alone under these conditions and no others. -/
theorem cron_jobs_iff {schedule command comment matchText : Text}
    {add : Cron → (List Text → Text) → Crontab → Crontab × Text}
    {remove : Cron → Grep → Crontab → Crontab × Text} (cron : Cron) (tab : Crontab)
    (hadd : cmdAddCronJob schedule command comment = .ok add)
    (hremove : cmdRemoveCronJob matchText = .ok remove) :
    (Adds add (jobLine (stripText schedule) (stripText command) comment) cron tab ↔
        Addable (jobLine (stripText schedule) (stripText command) comment) cron tab) ∧
      (RemovesAlone remove (stripText matchText) cron tab ↔
        Removable (stripText matchText) cron tab) := by
  obtain ⟨rfl, hline, hdash⟩ := add_ok hadd
  obtain rfl := remove_ok hremove
  exact ⟨adds_iff hline hdash, removesAlone_iff⟩

/-- A cron that accepts everything. -/
def anyCron : Cron := ⟨fun _ => true, fun _ => rfl⟩

def nightly : Crontab := some "0 3 * * * /usr/local/bin/backup\n".toList

theorem remove_two_lines : cmdRemoveCronJob "old job\n\nsecond".toList =
    .ok (removeScript "old job\n\nsecond".toList) := rfl

/-- A text with an empty line in it takes every line for one of its own. -/
theorem crontab_wiped :
    cmdRemoveCronJob "old job\n\nsecond".toList = .ok (removeScript "old job\n\nsecond".toList) ∧
      ¬RemovesAlone (removeScript "old job\n\nsecond".toList) "old job\n\nsecond".toList anyCron
        nightly := by
  refine ⟨remove_two_lines, ?_⟩
  rw [removesAlone_iff]
  rintro ⟨-, h | h⟩
  · exact absurd h (by decide)
  · exact h.mp rfl (by decide)

theorem add_weekly : cmdAddCronJob "@weekly".toList "/usr/local/bin/rotate".toList [] =
    .ok (addScript "@weekly /usr/local/bin/rotate".toList) := rfl

theorem remove_backup : cmdRemoveCronJob "backup".toList = .ok (removeScript "backup".toList) := rfl

theorem weekly_added_and_backup_removed :
    Adds (addScript "@weekly /usr/local/bin/rotate".toList)
        "@weekly /usr/local/bin/rotate".toList anyCron nightly ∧
      RemovesAlone (removeScript "backup".toList) "backup".toList anyCron nightly := by
  obtain ⟨hadds, hremoves⟩ := cron_jobs_iff anyCron nightly add_weekly remove_backup
  exact ⟨hadds.mpr ⟨by decide, by decide, rfl⟩,
    hremoves.mpr ⟨by decide, .inr (iff_of_true rfl (by decide))⟩⟩

end CronJobs
