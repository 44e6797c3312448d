import SysibleController.HeredocBuilders

/-! Which here-documents of the builders a parameter can close before their end. -/
namespace HeredocBuilders

open PathText PythonText ShellQuote ShellReader TextLines

/-- A shell takes the bodies that were formed, line for line. -/
def Built.Intact (b : Built) : Prop := heredocs b.command = b.formed.map lines

variable {s : State} {x v value delim body unit : Text} {fields : List Text}

/-- Outside quotes, with no here-document announced. -/
def word : State := ⟨.word, [], []⟩

def dquote : State := ⟨.double, [], []⟩

theorem quote_word (x : Text) : Quiet start (quote x) word := quote_quiet rfl x

/-- From the name of the file into the here-document. -/
theorem target_inBody (hd : delim = sysibleEof ∨ delim = sysibleRepoEof ∨ delim = sysEof) :
    Quiet word (" <<'".toList ++ delim ++ "'\n".toList) (inBody [] delim) := by
  rcases hd with rfl | rfl | rfl <;> decide

theorem newline_notMem_delim (hd : delim = sysibleEof ∨ delim = sysibleRepoEof ∨ delim = sysEof) :
    '\n' ∉ delim := by
  rcases hd with rfl | rfl | rfl <;> decide

theorem regroup (pre a target b delim e body post : Text) :
    pre ++ (a ++ target ++ b ++ delim ++ e ++ (body ++ '\n' :: (delim ++ ['\n'])) ++ post) =
      (pre ++ ((a ++ target) ++ (b ++ delim ++ e))) ++ (body ++ '\n' :: (delim ++ '\n' :: post)) := by
  simp

/-- A command that writes a file is read as it was formed exactly if no line of the body is the
delimiter and the rest is. -/
theorem catFile_iff {target pre post : Text} {formed : List (List Text)}
    (hd : delim = sysibleEof ∨ delim = sysibleRepoEof ∨ delim = sysEof)
    (hpre : Quiet s pre start) (htarget : Quiet start ("cat > ".toList ++ target) word) :
    bodies [] (read s (pre ++ (catFile target delim body ++ post))).2 = lines body :: formed ↔
      delim ∉ lines body ∧ bodies [] (read start post).2 = formed := by
  have htext : pre ++ (catFile target delim body ++ post) =
      (pre ++ (("cat > ".toList ++ target) ++ (" <<'".toList ++ delim ++ "'\n".toList))) ++
        (body ++ '\n' :: (delim ++ '\n' :: post)) := by
    unfold catFile
    exact regroup _ _ _ _ _ _ _ _
  have hin := hpre.append (htarget.append (target_inBody hd))
  have hiff := heredoc_cons_iff [] body post formed (newline_notMem_delim hd)
  rw [htext, bodies_of_quiet [] hin]
  exact hiff

theorem cat_quote (x : Text) : Quiet start ("cat > ".toList ++ quote x) word :=
  Quiet.append (t := start) (by decide) (quote_word x)

/-! ### Lines of a body -/

/-- None of the lines closes the here-document. -/
def Open (delim : Text) (ls : List Text) : Prop := ∀ l ∈ ls, delim ∉ lines l

theorem open_append {ls ms : List Text} : Open delim (ls ++ ms) ↔ Open delim ls ∧ Open delim ms := by
  simp [Open, or_imp, forall_and]

theorem open_cons {l : Text} {ls : List Text} :
    Open delim (l :: ls) ↔ delim ∉ lines l ∧ Open delim ls := by
  simp [Open]

theorem open_nil : Open delim [] := by simp [Open]

theorem notMem_unlines {ls : List Text} (h : ls ≠ []) :
    delim ∉ lines (unlines ls) ↔ Open delim ls := by
  simp [lines_unlines h, Open]

theorem newline_notMem_of_rejected {name : String} (h : rejectNewlines name value = .ok ()) :
    '\n' ∉ value := by
  intro hmem
  simp [rejectNewlines, hmem] at h

theorem newline_notMem_strip (h : '\n' ∉ value) : '\n' ∉ stripText value :=
  fun hmem => h (mem_of_mem_stripText hmem)

/-- A line with a key that the delimiter does not begin with closes nothing, if its value is one
line. -/
theorem keyed_line {key : Text} (hkey : '\n' ∉ key) (hd : ¬ key <+: delim) (hv : '\n' ∉ v) :
    delim ∉ lines (key ++ v) := by
  rw [mem_lines_prefixed hkey hd, tail_lines_plain hv]
  exact List.not_mem_nil

theorem open_field {key : String} (hkey : '\n' ∉ key.toList) (hd : ¬ key.toList <+: delim)
    (hv : '\n' ∉ v) : Open delim (field key v) := by
  unfold field
  split_ifs
  · exact open_nil
  · exact open_cons.mpr ⟨keyed_line hkey hd (newline_notMem_strip hv), open_nil⟩

theorem newline_notMem_orElse {d : Text} (hv : '\n' ∉ v) (hd : '\n' ∉ d) : '\n' ∉ orElse v d := by
  unfold orElse
  split_ifs <;> assumption

/-- The description line, where the name stands in for a blank description. -/
theorem description_line {name : Text} (hv : '\n' ∉ v) :
    sysibleEof ∉ lines ("Description=".toList ++ orElse (stripText v) name) ↔
      stripText v ≠ [] ∨ sysibleEof ∉ (lines name).tail := by
  rw [mem_lines_prefixed (by decide) (by decide)]
  unfold orElse
  split_ifs with h
  · simp [h]
  · simp [h, tail_lines_plain (newline_notMem_strip hv)]

theorem reload_quiet (enableNow : Bool) (unit : Text) :
    Quiet start (reload enableNow unit) word := by
  unfold reload
  have hreload : Quiet start "systemctl daemon-reload".toList word := quiet_of_bytes (by decide)
  cases enableNow with
  | false => simpa using hreload
  | true =>
    rw [if_pos rfl]
    exact hreload.append (Quiet.append (t := start) (by decide) (quote_word unit))

theorem ok_of_bind {α β : Type} {m : Except String α} {f : α → Except String β} {b : β}
    (h : m >>= f = .ok b) : ∃ a, m = .ok a ∧ f a = .ok b := by
  cases m with
  | error e => exact nomatch h
  | ok a => exact ⟨a, rfl, h⟩

theorem ok_of_guard {β : Type} {c : Prop} [Decidable c] {e : String}
    {f : Unit → Except String β} {b : β} (h : (if c then throw e >>= f else f ()) = .ok b) :
    ¬ c ∧ f () = .ok b := by
  split_ifs at h with hc
  · exact nomatch h
  · exact ⟨hc, h⟩

theorem eof_open {ls : List Text} (h : ∀ l ∈ ls, '\n' ∉ l ∧ l ≠ delim) : Open delim ls := by
  intro l hl hmem
  rw [lines_plain (h l hl).1] at hmem
  exact (h l hl).2 (List.mem_singleton.mp hmem).symm

theorem setServiceDependencies_intact {name after requires wants : Text} {b : Built}
    (h : cmdSetServiceDependencies name after requires wants = .ok b) : b.Intact := by
  unfold cmdSetServiceDependencies at h
  obtain ⟨unit, -, h⟩ := ok_of_bind h
  obtain ⟨_, hafter, h⟩ := ok_of_bind h
  obtain ⟨_, hrequires, h⟩ := ok_of_bind h
  obtain ⟨_, hwants, h⟩ := ok_of_bind h
  obtain ⟨-, h⟩ := ok_of_guard h
  obtain rfl := Except.ok.inj h
  have hopen : Open sysibleEof ("[Unit]".toList :: (field "After=" after ++
      field "Requires=" requires ++ field "Wants=" wants)) := by
    rw [open_cons, open_append, open_append]
    exact ⟨by decide, ⟨open_field (by decide) (by decide) (newline_notMem_of_rejected hafter),
      open_field (by decide) (by decide) (newline_notMem_of_rejected hrequires)⟩,
      open_field (by decide) (by decide) (newline_notMem_of_rejected hwants)⟩
  have hpre : ∀ dir, Quiet start ("mkdir -p ".toList ++ quote dir ++ " && ".toList) start := by
    intro dir
    have hmkdir : Quiet start "mkdir -p ".toList start := by decide
    have hand : Quiet word " && ".toList start := by decide
    exact (hmkdir.append (quote_word dir)).append hand
  have hpost : Quiet start "systemctl daemon-reload".toList word := quiet_of_bytes (by decide)
  rw [Built.Intact, heredocs, List.append_assoc _ (catFile _ _ _)]
  exact (catFile_iff (.inl rfl) (hpre _) (cat_quote _)).mpr
    ⟨(notMem_unlines (List.cons_ne_nil _ _)).mpr hopen, bodies_end [] hpost⟩

theorem Service.lines_ne_nil (p : Service) : p.lines ≠ [] := by
  simp only [Service.lines, List.append_assoc, List.cons_append]
  exact List.cons_ne_nil _ _

theorem createSystemdService_intact_iff {p : Service} {b : Built}
    (h : cmdCreateSystemdService p = .ok b) :
    b.Intact ↔ stripText p.description ≠ [] ∨ sysibleEof ∉ (lines p.name).tail := by
  unfold cmdCreateSystemdService at h
  obtain ⟨unit, -, h⟩ := ok_of_bind h
  obtain ⟨-, h⟩ := ok_of_guard h
  obtain ⟨_, hdescription, h⟩ := ok_of_bind h
  obtain ⟨_, hexec, h⟩ := ok_of_bind h
  obtain ⟨_, hdirectory, h⟩ := ok_of_bind h
  obtain ⟨_, huser, h⟩ := ok_of_bind h
  obtain ⟨_, hrestart, h⟩ := ok_of_bind h
  obtain ⟨_, hafter, h⟩ := ok_of_bind h
  obtain rfl := Except.ok.inj h
  have hrest : Open sysibleEof (field "After=" p.after) ∧
      Open sysibleEof [[], "[Service]".toList, "ExecStart=".toList ++ stripText p.execStart,
        "Restart=".toList ++ orElse (stripText p.restartPolicy) "on-failure".toList,
        "User=".toList ++ orElse (stripText p.runAsUser) "root".toList] ∧
      Open sysibleEof (field "WorkingDirectory=" p.workingDirectory) ∧
      Open sysibleEof [[], "[Install]".toList, "WantedBy=multi-user.target".toList] := by
    have hplain := fun {name value} => @newline_notMem_of_rejected value name
    refine ⟨open_field (by decide) (by decide) (hplain hafter), ?_,
      open_field (by decide) (by decide) (hplain hdirectory), eof_open (by decide)⟩
    simp only [open_cons]
    exact ⟨by decide, by decide,
      keyed_line (by decide) (by decide) (newline_notMem_strip (hplain hexec)),
      keyed_line (by decide) (by decide)
        (newline_notMem_orElse (newline_notMem_strip (hplain hrestart)) (by decide)),
      keyed_line (by decide) (by decide)
        (newline_notMem_orElse (newline_notMem_strip (hplain huser)) (by decide)), open_nil⟩
  have hopen : Open sysibleEof p.lines ↔
      stripText p.description ≠ [] ∨ sysibleEof ∉ (lines p.name).tail := by
    rw [← description_line (newline_notMem_of_rejected hdescription), Service.lines]
    simp only [open_append, hrest, and_true, open_cons, open_nil]
    exact ⟨fun h => h.2, fun h => ⟨by decide, h⟩⟩
  have hiff := @catFile_iff start sysibleEof (unlines p.lines)
    (quote ("/etc/systemd/system/".toList ++ unit)) [] (reload p.enableNow unit) []
    (.inl rfl) .nil (cat_quote _)
  rw [List.nil_append, bodies_end [] (reload_quiet _ _), notMem_unlines (Service.lines_ne_nil p),
    hopen, and_iff_left rfl] at hiff
  exact hiff

theorem createSystemdTimer_intact_iff {p : Timer} {b : Built}
    (h : cmdCreateSystemdTimer p = .ok b) :
    b.Intact ↔ stripText p.description ≠ [] ∨ sysibleEof ∉ (lines p.base).tail := by
  unfold cmdCreateSystemdTimer at h
  obtain ⟨_, -, h⟩ := ok_of_bind h
  obtain ⟨-, h⟩ := ok_of_guard h
  obtain ⟨-, h⟩ := ok_of_guard h
  obtain ⟨_, hexec, h⟩ := ok_of_bind h
  obtain ⟨_, hdescription, h⟩ := ok_of_bind h
  obtain ⟨_, huser, h⟩ := ok_of_bind h
  obtain ⟨_, hcalendar, h⟩ := ok_of_bind h
  obtain ⟨_, hboot, h⟩ := ok_of_bind h
  obtain ⟨_, hactive, h⟩ := ok_of_bind h
  obtain ⟨-, h⟩ := ok_of_guard h
  obtain rfl := Except.ok.inj h
  have hplain := fun {name value} => @newline_notMem_of_rejected value name
  have htimer : Open sysibleEof p.timerLines := by
    rw [Timer.timerLines, List.cons_append, open_cons, open_append, Timer.schedule, open_append,
      open_append]
    exact ⟨by decide, ⟨⟨open_field (by decide) (by decide) (hplain hcalendar),
      open_field (by decide) (by decide) (hplain hboot)⟩,
      open_field (by decide) (by decide) (hplain hactive)⟩, eof_open (by decide)⟩
  have hservice : Open sysibleEof p.serviceLines ↔
      stripText p.description ≠ [] ∨ sysibleEof ∉ (lines p.base).tail := by
    rw [← description_line (hplain hdescription), Timer.serviceLines]
    simp only [open_cons]
    refine ⟨fun h => h.2.1, fun h => ⟨by decide, h, by decide, by decide, by decide,
      keyed_line (by decide) (by decide) (newline_notMem_strip (hplain hexec)),
      keyed_line (by decide) (by decide)
        (newline_notMem_orElse (newline_notMem_strip (hplain huser)) (by decide)), open_nil⟩⟩
  have hsecond := @catFile_iff start sysibleEof (unlines p.timerLines)
    (quote ("/etc/systemd/system/".toList ++ p.base ++ ".timer".toList)) []
    (reload p.enableNow (p.base ++ ".timer".toList)) [] (.inl rfl) .nil (cat_quote _)
  have hfirst := @catFile_iff start sysibleEof (unlines p.serviceLines)
    (quote ("/etc/systemd/system/".toList ++ p.base ++ ".service".toList)) []
    (catFile (quote ("/etc/systemd/system/".toList ++ p.base ++ ".timer".toList)) sysibleEof
      (unlines p.timerLines) ++ reload p.enableNow (p.base ++ ".timer".toList))
    [lines (unlines p.timerLines)] (.inl rfl) .nil (cat_quote _)
  have hsome : p.timerLines ≠ [] := List.cons_ne_nil _ _
  have hsome' : p.serviceLines ≠ [] := List.cons_ne_nil _ _
  rw [List.nil_append, bodies_end [] (reload_quiet _ _), notMem_unlines hsome] at hsecond
  rw [List.nil_append, notMem_unlines hsome', hservice] at hfirst
  rw [and_iff_left (hsecond.mpr ⟨htimer, rfl⟩)] at hfirst
  rw [Built.Intact, heredocs, List.append_assoc]
  exact hfirst

/-! ### Repositories -/

/-- A text of an alias is read as itself outside quotes and within double quotes. -/
theorem alias_word (h : x.all aliasChar = true) (hne : x ≠ []) : Quiet word x word := by
  refine ordinary_quiet rfl (fun c hc => ordinary_of_safe ?_) hne
  have hc := List.all_eq_true.mp h c hc
  simp only [aliasChar, Bool.or_eq_true, decide_eq_true_eq] at hc
  rcases hc with ((hc | rfl) | rfl) | rfl
  · simp [safe, hc]
  all_goals decide

theorem alias_dquote (h : x.all aliasChar = true) : Quiet dquote x dquote := by
  induction x with
  | nil => exact .nil
  | cons c rest ih =>
    simp only [List.all_cons, Bool.and_eq_true] at h
    have hne : ∀ d ∈ "\"\\$\x60".toList, c ≠ d := by
      rintro d hd rfl
      have hno : ("\"\\$\x60".toList.all fun d => !aliasChar d) = true := by decide
      have halias := List.all_eq_true.mp hno c hd
      rw [h.1] at halias
      exact absurd halias (by decide)
    have hstep : step dquote c = (dquote, [.char c]) := by
      have h1 := hne '"' (by decide)
      have h2 := hne '\\' (by decide)
      have h3 := hne '$' (by decide)
      have h4 := hne '\x60' (by decide)
      simp [step, dquoted, dquote, h1, h2, h3, h4]
    exact .cons (congrArg Prod.fst hstep) (by simp [hstep, Event.quiet]) (ih h.2)

theorem newline_notMem_of_rejected' {label : String} (h : rejectNewline label v = .ok ()) :
    '\n' ∉ v := by
  intro hmem
  simp [rejectNewline, hmem] at h

section

variable {p : Repository}

theorem alias_all (h : validateRepoAlias p.repoAlias = .ok x) :
    p.aliasSafe.all aliasChar = true ∧ p.aliasSafe ≠ [] := by
  simp only [validateRepoAlias] at h
  split_ifs at h with hnil hall
  exact ⟨hall, hnil⟩

theorem newline_notMem_alias (h : x.all aliasChar = true) : '\n' ∉ x := fun hmem =>
  absurd (List.all_eq_true.mp h '\n' hmem) (by decide)

theorem rpmImport_quiet (p : Repository) : Quiet start p.rpmImport start := by
  unfold Repository.rpmImport
  split_ifs
  · have himport : Quiet start "rpm --import ".toList start := quiet_of_bytes (by decide)
    have hend : Quiet word " 2>&1; ".toList start := by decide
    exact (himport.append (quote_word _)).append hend
  · exact .nil

theorem keySetup_quiet (p : Repository) : Quiet start p.keySetup start := by
  unfold Repository.keySetup
  split_ifs
  · have hcurl : Quiet start "mkdir -p /etc/apt/keyrings && (curl -fsSL ".toList start :=
      quiet_of_bytes (by decide)
    have hwget : Quiet word " || wget -qO- ".toList start := quiet_of_bytes (by decide)
    have hgpg : Quiet word ") | gpg --batch --yes --dearmor -o ".toList start :=
      quiet_of_bytes (by decide)
    have hend : Quiet word " 2>&1; ".toList start := by decide
    exact (((((hcurl.append (quote_word _)).append hwget).append (quote_word _)).append
      hgpg).append (quote_word _)).append hend
  · exact .nil

theorem zypperCmd_quiet (h : p.aliasSafe.all aliasChar = true) : Quiet start p.zypperCmd word := by
  unfold Repository.zypperCmd
  have hadd : Quiet start "zypper --non-interactive addrepo --name ".toList start :=
    quiet_of_bytes (by decide)
  have hspace : Quiet word " ".toList start := by decide
  have hflag : Quiet start (if p.gpgcheck then "--gpgcheck".toList else "--no-gpgcheck".toList)
      word := by
    split_ifs <;> decide
  have hend : Quiet word " 2>&1; ".toList start := by decide
  have hrefresh : Quiet start "zypper --non-interactive --gpg-auto-import-keys refresh ".toList
      start :=
    quiet_of_bytes (by decide)
  have hecho : Quiet word " 2>&1; echo \"Created repository ".toList dquote :=
    quiet_of_bytes (by decide)
  have hdot : Quiet dquote ".\"".toList word := by decide
  have hnamed := ((hadd.append (quote_word p.fullName)).append hspace).append hflag
  have hadded := ((((hnamed.append hspace).append (quote_word p.url)).append hspace).append
    (quote_word p.aliasSafe)).append hend
  have hkeyed := ((hadded.append (rpmImport_quiet p)).append hrefresh).append
    (quote_word p.aliasSafe)
  exact ((hkeyed.append hecho).append (alias_dquote h)).append hdot

/-- What stands between the two here-documents. -/
def Repository.between (p : Repository) : Text :=
  p.rpmImport ++ "\"$PKGMGR\" makecache -y 2>&1; echo \"Created repository ".toList ++
    p.aliasSafe ++ " (/etc/yum.repos.d/".toList ++ p.aliasSafe ++ ".repo).\"".toList ++
    "; elif [ \"$PKGMGR\" = \"zypper\" ]; then ".toList ++ p.zypperCmd ++
    "; elif [ \"$PKGMGR\" = \"pacman\" ]; then ".toList ++ pacmanRepoManual ++
    "; else ".toList ++ p.keySetup

theorem between_quiet (h : p.aliasSafe.all aliasChar = true) : Quiet start p.between start := by
  unfold Repository.between
  have hmake : Quiet start "\"$PKGMGR\" makecache -y 2>&1; echo \"Created repository ".toList
      dquote :=
    quiet_of_bytes (by decide)
  have hdir : Quiet dquote " (/etc/yum.repos.d/".toList dquote := quiet_of_bytes (by decide)
  have hrepo : Quiet dquote ".repo).\"".toList word := by decide
  have hzypper : Quiet word "; elif [ \"$PKGMGR\" = \"zypper\" ]; then ".toList start :=
    quiet_of_bytes (by decide)
  have hpacman : Quiet word "; elif [ \"$PKGMGR\" = \"pacman\" ]; then ".toList start :=
    quiet_of_bytes (by decide)
  have hmanual : Quiet start pacmanRepoManual word :=
    text_of_bytes (P := (Quiet start · word)) (by decide)
  have helse : Quiet word "; else ".toList start := by decide
  have hrpm := (((((rpmImport_quiet p).append hmake).append (alias_dquote h)).append hdir).append
    (alias_dquote h)).append hrepo
  exact (((((hrpm.append hzypper).append (zypperCmd_quiet h)).append hpacman).append
    hmanual).append helse).append (keySetup_quiet p)

/-- What stands behind them. -/
def Repository.closing (p : Repository) : Text :=
  "apt-get update 2>&1; echo \"Created repository ".toList ++ p.aliasSafe ++ " (".toList ++
    p.listPath ++ ").\"".toList ++ "; fi".toList

theorem closing_quiet (h : p.aliasSafe.all aliasChar = true) : Quiet start p.closing word := by
  unfold Repository.closing Repository.listPath
  have hapt : Quiet start "apt-get update 2>&1; echo \"Created repository ".toList dquote :=
    quiet_of_bytes (by decide)
  have hopen : Quiet dquote " (".toList dquote := by decide
  have hdir : Quiet dquote "/etc/apt/sources.list.d/".toList dquote := quiet_of_bytes (by decide)
  have hlist : Quiet dquote ".list".toList dquote := by decide
  have hclose : Quiet dquote ").\"".toList word := by decide
  have hfi : Quiet word "; fi".toList word := by decide
  have hpath := (hdir.append (alias_dquote h)).append hlist
  exact ((((hapt.append (alias_dquote h)).append hopen).append hpath).append hclose).append hfi

theorem dispatch_regroup (detect dnf cat₁ imp make al dir repo zypper zyp pacman pac els key cat₂
    apt op path cl fi : Text) :
    detect ++ dnf ++ (cat₁ ++ imp ++ make ++ al ++ dir ++ al ++ repo) ++ zypper ++ zyp ++ pacman ++
        pac ++ els ++ (key ++ cat₂ ++ apt ++ al ++ op ++ path ++ cl) ++ fi =
      (detect ++ dnf) ++ (cat₁ ++ ((imp ++ make ++ al ++ dir ++ al ++ repo ++ zypper ++ zyp ++
        pacman ++ pac ++ els ++ key) ++ (cat₂ ++ (apt ++ al ++ op ++ path ++ cl ++ fi)))) := by
  simp only [List.append_assoc]

theorem dispatch_eq (p : Repository) :
    pkgmgrDispatch p.rpmCmd p.zypperCmd p.aptCmd pacmanRepoManual =
      (pkgmgrDetectFragment ++
        "; if [ \"$PKGMGR\" = \"dnf\" ] || [ \"$PKGMGR\" = \"yum\" ]; then ".toList) ++
      (catFile ("/etc/yum.repos.d/".toList ++ p.aliasSafe ++ ".repo".toList) sysibleRepoEof
        (unlines p.repoLines) ++ (p.between ++
      (catFile (quote p.listPath) sysibleRepoEof p.debLine ++ p.closing))) :=
  dispatch_regroup _ _ _ _ _ _ _ _ _ _ _ _ _ _ _ _ _ _ _ _

/-- None of the lines of the file that is written for dnf and yum is the delimiter. -/
theorem repoLines_open (halias : p.aliasSafe.all aliasChar = true) (hname : '\n' ∉ p.fullName)
    (hurl : '\n' ∉ p.url) (hkey : '\n' ∉ p.key) : Open sysibleRepoEof p.repoLines := by
  have hbracket : '\n' ∉ p.aliasSafe ++ "]".toList := by
    rw [List.mem_append, not_or]
    exact ⟨newline_notMem_alias halias, by decide⟩
  rw [Repository.repoLines, open_append]
  refine ⟨?_, ?_⟩
  · simp only [open_cons, List.append_assoc]
    exact ⟨keyed_line (by decide) (by decide) hbracket, keyed_line (by decide) (by decide) hname,
      keyed_line (by decide) (by decide) hurl, by decide, open_nil⟩
  · split_ifs
    · exact eof_open (by decide)
    · exact open_cons.mpr ⟨by decide, open_cons.mpr
        ⟨keyed_line (by decide) (by decide) hkey, open_nil⟩⟩
    · exact eof_open (by decide)

theorem debLine_open (halias : p.aliasSafe.all aliasChar = true) (hurl : '\n' ∉ p.url)
    (hdistro : '\n' ∉ p.distro) (hcomps : '\n' ∉ p.comps) :
    sysibleRepoEof ∉ lines p.debLine := by
  have hrest : '\n' ∉ p.url ++ (" ".toList ++ (p.distro ++ (" ".toList ++ p.comps))) := by
    simp only [List.mem_append, not_or]
    exact ⟨hurl, by decide, hdistro, by decide, hcomps⟩
  have hopts : '\n' ∉ p.debOpts := by
    unfold Repository.debOpts Repository.keyringPath
    split_ifs
    · simp only [List.mem_append, not_or]
      exact ⟨by decide, ⟨by decide, newline_notMem_alias halias⟩, by decide⟩
    · exact List.not_mem_nil
    · decide
  rw [Repository.debLine]
  simp only [List.append_assoc]
  split_ifs
  · exact keyed_line (by decide) (by decide) hrest
  · simp only [List.append_assoc]
    refine keyed_line (by decide) (by decide) ?_
    rw [List.mem_append, List.mem_append, not_or, not_or]
    exact ⟨hopts, by decide, hrest⟩

end

theorem createRepository_intact {p : Repository} {b : Built}
    (h : cmdCreateRepository p = .ok b) : b.Intact := by
  unfold cmdCreateRepository at h
  obtain ⟨_, halias, h⟩ := ok_of_bind h
  obtain ⟨-, h⟩ := ok_of_guard h
  obtain ⟨_, hname, h⟩ := ok_of_bind h
  obtain ⟨_, hurl, h⟩ := ok_of_bind h
  obtain ⟨_, hkey, h⟩ := ok_of_bind h
  obtain ⟨_, hdistro, h⟩ := ok_of_bind h
  obtain ⟨_, hcomps, h⟩ := ok_of_bind h
  obtain rfl := Except.ok.inj h
  obtain ⟨hall, hne⟩ := alias_all halias
  have hplain := fun {label value} => @newline_notMem_of_rejected' value label
  have hfragment : Quiet start pkgmgrDetectFragment word :=
    text_of_bytes (P := (Quiet start · word)) (by decide +kernel)
  have hbranch : Quiet word
      "; if [ \"$PKGMGR\" = \"dnf\" ] || [ \"$PKGMGR\" = \"yum\" ]; then ".toList start :=
    quiet_of_bytes (by decide)
  have hdetect := hfragment.append hbranch
  have htarget : Quiet start ("cat > ".toList ++
      ("/etc/yum.repos.d/".toList ++ p.aliasSafe ++ ".repo".toList)) word := by
    have hcat : Quiet start "cat > ".toList start := by decide
    have hdir : Quiet start "/etc/yum.repos.d/".toList word := quiet_of_bytes (by decide)
    have hrepo : Quiet word ".repo".toList word := by decide
    exact hcat.append ((hdir.append (alias_word hall hne)).append hrepo)
  rw [Built.Intact, heredocs, dispatch_eq]
  refine (catFile_iff (.inr (.inl rfl)) hdetect htarget).mpr ⟨?_, ?_⟩
  · have hsome : p.repoLines ≠ [] :=
      List.append_ne_nil_of_left_ne_nil (List.cons_ne_nil _ _) _
    rw [notMem_unlines hsome]
    exact repoLines_open hall (hplain hname) (hplain hurl) (hplain hkey)
  · refine (catFile_iff (.inr (.inl rfl)) (between_quiet hall) (cat_quote _)).mpr ⟨?_, ?_⟩
    · exact debLine_open hall (hplain hurl) (hplain hdistro) (hplain hcomps)
    · exact bodies_end [] (closing_quiet hall)

/-! ### Backups -/

theorem newline_notMem_of_control {label : String} (h : rejectControlChars label v = .ok ()) :
    '\n' ∉ v := by
  intro hmem
  have hany : v.any (fun c => c.toNat < 0x20 || c.toNat = 0x7f) = true :=
    List.any_eq_true.mpr ⟨'\n', hmem, by decide⟩
  simp [rejectControlChars, hany] at h

theorem backupLines_open {source dest : Text} (hsource : '\n' ∉ source) (hdest : '\n' ∉ dest) :
    Open sysEof (backupLines source dest) := by
  simp only [backupLines, open_cons]
  exact ⟨by decide, keyed_line (by decide) (by decide) (newline_notMem_quote hsource),
    keyed_line (by decide) (by decide) (newline_notMem_quote hdest), by decide,
    by decide +kernel, open_nil⟩

/-- What stands behind the backup script. -/
def backupClosing (source dest cron : Text) : Text :=
  backupEnable ++ quote cron ++ " > /etc/cron.d/sysible-backup && ".toList ++ cronPresent ++
    backupReport ++ quote source ++ " ".toList ++ quote dest ++ " ".toList ++ quote cron

theorem chmod_quiet : Quiet start backupEnable start :=
  text_of_bytes (P := (Quiet start · start)) (by decide)

theorem cronPresent_quiet : Quiet start cronPresent start :=
  text_of_bytes (P := (Quiet start · start)) (by decide +kernel)

theorem printf_quiet : Quiet start backupReport start := quiet_of_bytes (by decide)

theorem backupClosing_quiet (source dest cron : Text) :
    Quiet start (backupClosing source dest cron) word := by
  have hcrond : Quiet word " > /etc/cron.d/sysible-backup && ".toList start :=
    quiet_of_bytes (by decide)
  have hspace : Quiet word " ".toList start := by decide
  have hcron := ((((chmod_quiet.append (quote_word cron)).append hcrond).append
    cronPresent_quiet).append printf_quiet).append (quote_word source)
  exact (((hcron.append hspace).append (quote_word dest)).append hspace).append (quote_word cron)

theorem backup_regroup (cat chmod cron crond present printf source space dest : Text) :
    cat ++ chmod ++ cron ++ crond ++ present ++ printf ++ source ++ space ++ dest ++ space ++ cron =
      cat ++ (chmod ++ cron ++ crond ++ present ++ printf ++ source ++ space ++ dest ++ space ++
        cron) := by
  simp only [List.append_assoc]

theorem configureBackupSchedule_intact {source destDir cronExpr : Text} {b : Built}
    (h : cmdConfigureBackupSchedule source destDir cronExpr = .ok b) : b.Intact := by
  unfold cmdConfigureBackupSchedule at h
  obtain ⟨-, h⟩ := ok_of_guard h
  obtain ⟨_, hsource, h⟩ := ok_of_bind h
  obtain ⟨_, hdest, h⟩ := ok_of_bind h
  obtain ⟨-, h⟩ := ok_of_guard h
  obtain rfl := Except.ok.inj h
  have hopen := backupLines_open (newline_notMem_of_control hsource)
    (newline_notMem_of_control hdest)
  have htarget : Quiet start ("cat > ".toList ++ "/usr/local/sbin/sysible-backup.sh".toList)
      word :=
    Quiet.append (t := start) (by decide) (quiet_of_bytes (by decide))
  have hiff := @catFile_iff start sysEof
    (unlines (backupLines (stripText source) (stripText destDir)))
    "/usr/local/sbin/sysible-backup.sh".toList []
    (backupClosing (stripText source) (stripText destDir) (stripText cronExpr)) []
    (.inr (.inr rfl)) .nil htarget
  have hsome : backupLines (stripText source) (stripText destDir) ≠ [] := List.cons_ne_nil _ _
  rw [List.nil_append, notMem_unlines hsome] at hiff
  rw [Built.Intact, heredocs, backup_regroup]
  exact hiff.mpr ⟨hopen, bodies_end [] (backupClosing_quiet _ _ _)⟩

/-! ### All builders -/

inductive Call where
  | setServiceDependencies (name after requires wants : Text)
  | createSystemdService (p : Service)
  | createSystemdTimer (p : Timer)
  | createRepository (p : Repository)
  | configureBackupSchedule (source destDir cronExpr : Text)

def Call.build : Call → Except String Built
  | setServiceDependencies name after requires wants =>
    cmdSetServiceDependencies name after requires wants
  | createSystemdService p => cmdCreateSystemdService p
  | createSystemdTimer p => cmdCreateSystemdTimer p
  | createRepository p => cmdCreateRepository p
  | configureBackupSchedule source destDir cronExpr =>
    cmdConfigureBackupSchedule source destDir cronExpr

/-- A service or a timer is described, or no line of its name but the first is the delimiter. -/
def Call.Described : Call → Prop
  | createSystemdService p => stripText p.description ≠ [] ∨ sysibleEof ∉ (lines p.name).tail
  | createSystemdTimer p => stripText p.description ≠ [] ∨ sysibleEof ∉ (lines p.base).tail
  | _ => True

/-- A shell takes from a command that was built exactly the bodies that were formed, unless a blank
description lets a line of the name close the unit file. -/
theorem heredocs_intact_iff (c : Call) (b : Built) (h : c.build = .ok b) :
    b.Intact ↔ c.Described := by
  cases c with
  | setServiceDependencies name after requires wants =>
    rw [Call.build] at h
    exact iff_of_true (setServiceDependencies_intact h) trivial
  | createSystemdService p =>
    rw [Call.build] at h
    rw [Call.Described]
    exact createSystemdService_intact_iff h
  | createSystemdTimer p =>
    rw [Call.build] at h
    rw [Call.Described]
    exact createSystemdTimer_intact_iff h
  | createRepository p =>
    rw [Call.build] at h
    exact iff_of_true (createRepository_intact h) trivial
  | configureBackupSchedule source destDir cronExpr =>
    rw [Call.build] at h
    exact iff_of_true (configureBackupSchedule_intact h) trivial

/-- A service of this name that runs `true`, without a description. -/
def undescribed (name : String) : Service :=
  ⟨name.toList, [], "true".toList, [], "root".toList, [], [], false⟩

theorem build_undescribed {name : String} {unit : Text}
    (h : serviceUnit name.toList = .ok unit) :
    ∃ b, cmdCreateSystemdService (undescribed name) = .ok b := by
  have hexec : stripText "true".toList ≠ [] := by decide
  have hrun : rejectNewlines "ExecStart" "true".toList = .ok () := by decide
  have huser : rejectNewlines "User" "root".toList = .ok () := by decide
  have hempty : ∀ field, rejectNewlines field [] = .ok () := fun field => by simp [rejectNewlines]
  simp only [cmdCreateSystemdService, undescribed, h, hexec, hrun, huser, hempty, bind,
    Except.bind, if_false, pure, Except.pure]
  exact ⟨_, rfl⟩

theorem nginx_intact : ∃ b, (Call.createSystemdService (undescribed "nginx")).build = .ok b ∧
    b.Intact := by
  obtain ⟨b, hb⟩ := @build_undescribed "nginx" "nginx.service".toList (by decide)
  exact ⟨b, hb, (heredocs_intact_iff (.createSystemdService (undescribed "nginx")) b hb).mpr
    (.inr (by decide))⟩

/-- The second line of this name closes the here-document, and the third is run. -/
theorem name_closes_heredoc : ∃ b,
    (Call.createSystemdService (undescribed "x\nSYSIBLE_EOF\nreboot")).build = .ok b ∧
      ¬ b.Intact := by
  obtain ⟨b, hb⟩ := @build_undescribed "x\nSYSIBLE_EOF\nreboot"
    "x\nSYSIBLE_EOF\nreboot.service".toList (by decide)
  refine ⟨b, hb, fun h => ?_⟩
  rcases (createSystemdService_intact_iff hb).mp h with hd | hn
  · exact hd (by decide)
  · exact hn (by decide)

end HeredocBuilders
