import SysibleController.EarlyExit
import SysibleController.PythonRepr
import SysibleController.PythonStrip
import SysibleController.ShellArgv

/-! The package commands: what an operator types becomes words of the commands of every package
manager. Of each branch, the simple commands that such a word is a whole word of are kept. -/
namespace PackageFields

open PathText ShellQuote PythonText EarlyExit
open ShellReader (word word_quote)

/-- A word of the program's own, or one that comes from the operator and is written in quotes. -/
inductive Word where
  | fixed (t : Text)
  | typed (t : Text)
  deriving DecidableEq

/-- What the shell reads. -/
def Word.value : Word → Text
  | .fixed t => t
  | .typed t => word (quote t)

abbrev Command := List Word

/-- No word of the operator's before a `--` begins with a dash. -/
def guarded : Command → Bool
  | [] => true
  | .fixed t :: rest => t = "--".toList || guarded rest
  | .typed t :: rest => (Word.typed t).value.head? ≠ some '-' && guarded rest

/-- The commands for each family of managers. -/
structure Branches where
  rpm : List Command
  zypper : List Command
  apt : List Command
  pacman : List Command

def Branches.all (b : Branches) : List Command := b.rpm ++ b.zypper ++ b.apt ++ b.pacman

/-- Some words of the program's own, and then the operator's. -/
def call (words : List String) (typed : List Text) : Command :=
  words.map (fun w => .fixed w.toList) ++ typed.map .typed

def noName : String := "Specify at least one package name."

/-- The tokens, which are quoted one by one; an error shows the characters that Python prints. -/
def pkgQuoteList (printable : Char → Bool) (names : Text) : Except String (List Text) :=
  let tokens := (names.splitOnP isSpace).filter (· ≠ [])
  match tokens.find? fun t => t.head? = some '-' with
  | some t => .error ("Invalid package name " ++ String.ofList (PythonRepr.repr printable t) ++
      ": package names cannot begin with '-' (it would be interpreted as a command-line option).")
  | none => .ok tokens

def cmdInstallPackages (printable : Char → Bool) (names : Text) : Except String Branches := do
  let pkgs ← pkgQuoteList printable names
  if pkgs = [] then .error noName
  else .ok {
    rpm := [call ["$PKGMGR", "install", "-y", "--"] pkgs]
    zypper := [call ["zypper", "--non-interactive", "install", "--"] pkgs]
    apt := [call ["apt-get", "install", "-y", "--"] pkgs]
    pacman := [call ["pacman", "-Sy", "--needed", "--noconfirm"] pkgs] }

def cmdInstallLocalPackage (remotePath : Text) : Except String Branches :=
  let path := stripText remotePath
  if path = [] then .error "No package file path given."
  else if path.head? = some '-' then
    .error ("Package file path cannot begin with '-' (it would be parsed as a command-line " ++
      "option); use an absolute path such as /tmp/foo.rpm.")
  else .ok {
    rpm := [call ["$PKGMGR", "install", "-y", "--"] [path]]
    zypper := [call ["zypper", "--non-interactive", "install", "--allow-unsigned-rpm", "--"] [path]]
    apt := [call ["apt-get", "install", "-y", "--"] [path]]
    pacman := [call ["pacman", "-U", "--noconfirm", "--"] [path]] }

def cmdRemovePackages (printable : Char → Bool) (names : Text) : Except String Branches := do
  let pkgs ← pkgQuoteList printable names
  if pkgs = [] then .error noName
  else .ok {
    rpm := [call ["$PKGMGR", "remove", "-y", "--"] pkgs]
    zypper := [call ["zypper", "--non-interactive", "remove", "--"] pkgs]
    apt := [call ["apt-get", "remove", "-y", "--"] pkgs]
    pacman := [call ["pacman", "-R", "--noconfirm"] pkgs] }

def rpmFlag (token : Text) : Option String :=
  [("nobest", "--nobest"), ("skip-broken", "--skip-broken"),
    ("allowerasing", "--allowerasing")].lookup (String.ofList (token.dropWhile (· = '-')))

/-- `_rpm_update_flags`: what is known is replaced by the program's own words. -/
def rpmUpdateFlags (flags : Text) : List String :=
  ((flags.splitOnP fun c => isSpace c || c = ',').filter (· ≠ [])).foldl
    (fun out token => match rpmFlag token with
      | some flag => if flag ∈ out then out else out ++ [flag]
      | none => out) []

/-- Arch upgrades everything, and so does every manager without names. -/
def cmdUpdatePackages (printable : Char → Bool) (names flags : Text) : Except String Branches := do
  let pkgs ← pkgQuoteList printable names
  if pkgs = [] then .ok ⟨[], [], [], []⟩
  else .ok {
    rpm := [call (["$PKGMGR", "update", "-y"] ++ rpmUpdateFlags flags ++ ["--"]) pkgs]
    zypper := [call ["zypper", "--non-interactive", "update", "--"] pkgs]
    apt := [call ["apt-get", "install", "--only-upgrade", "-y", "--"] pkgs]
    pacman := [] }

/-- The names go through a loop variable, one by one. -/
def cmdPackageStatus (printable : Char → Bool) (names : Text) : Except String Branches := do
  let pkgs ← pkgQuoteList printable names
  let rpm := pkgs.map fun p => call ["rpm", "-q", "--qf", "%\x7bVERSION\x7d-%\x7bRELEASE\x7d"] [p]
  if pkgs = [] then .error noName
  else .ok {
    rpm := rpm
    zypper := rpm
    apt := pkgs.flatMap fun p => [call ["dpkg-query", "-W", "-f=$\x7bdb:Status-Status\x7d"] [p],
      call ["dpkg-query", "-W", "-f=$\x7bVersion\x7d"] [p]]
    pacman := pkgs.map fun p => call ["pacman", "-Q"] [p] }

def oneName (name : Text) (missing : String) (branches : Text → Branches) :
    Except String Branches :=
  if stripText name = [] then .error missing else .ok (branches (stripText name))

def cmdQueryPackage (name : Text) : Except String Branches :=
  oneName name "Specify a package name." fun pkg => {
    rpm := [call ["$PKGMGR", "info"] [pkg], call ["rpm", "-qi"] [pkg]]
    zypper := [call ["zypper", "info"] [pkg]]
    apt := [call ["apt-cache", "show"] [pkg], call ["dpkg", "-s"] [pkg],
      call ["echo", "Package not found:"] [pkg]]
    pacman := [call ["pacman", "-Qi"] [pkg], call ["pacman", "-Si"] [pkg],
      call ["echo", "Package not found:"] [pkg]] }

def noDiscrepancies (pkg : Text) : Command :=
  call ["echo", "OK -"] [pkg] ++ [.fixed "- no discrepancies found.".toList]

def cmdVerifyPackage (name : Text) : Except String Branches :=
  oneName name "Specify a package name." fun pkg => {
    rpm := [call ["rpm", "-V"] [pkg], noDiscrepancies pkg]
    zypper := [call ["rpm", "-V"] [pkg], noDiscrepancies pkg]
    apt := [call ["debsums"] [pkg], noDiscrepancies pkg]
    pacman := [call ["pacman", "-Qkk"] [pkg], noDiscrepancies pkg] }

def cmdSearchPackages (term : Text) : Except String Branches :=
  oneName term "Type something to search for first." fun t => {
    rpm := [call ["$PKGMGR", "-q", "search"] [t]]
    zypper := [call ["zypper", "-q", "search"] [t]]
    apt := [call ["apt-cache", "search"] [t]]
    pacman := [call ["pacman", "-Ss"] [t]] }

inductive Builder where
  | install
  | installLocal
  | remove
  | update (flags : Text)
  | status
  | query
  | verify
  | search

def Builder.build (printable : Char → Bool) (text : Text) : Builder → Except String Branches
  | .install => cmdInstallPackages printable text
  | .installLocal => cmdInstallLocalPackage text
  | .remove => cmdRemovePackages printable text
  | .update flags => cmdUpdatePackages printable text flags
  | .status => cmdPackageStatus printable text
  | .query => cmdQueryPackage text
  | .verify => cmdVerifyPackage text
  | .search => cmdSearchPackages text

/-- The text is quoted as it is, neither refused for its dash nor put after a `--`. -/
def Builder.plain : Builder → Bool
  | .query => true
  | .verify => true
  | .search => true
  | _ => false

variable {words : List String} {typed : List Text} {rest : Command} {t text : Text}

theorem guarded_typed (h : ∀ t ∈ typed, t.head? ≠ some '-') :
    guarded (typed.map .typed) = true := by
  induction typed with
  | nil => rfl
  | cons t more ih =>
    have hhead := h t List.mem_cons_self
    rw [List.map_cons, guarded, ih fun u hu => h u (List.mem_cons_of_mem _ hu), Word.value,
      word_quote]
    simpa using hhead

theorem guarded_fixed (words : List String) (h : guarded rest = true) :
    guarded (words.map (fun w => .fixed w.toList) ++ rest) = true := by
  induction words with
  | nil => exact h
  | cons w more ih =>
    rw [List.map_cons, List.cons_append, guarded, ih, Bool.or_true]

/-- Words that are no options are none anywhere. -/
theorem guarded_call (words : List String) (h : ∀ t ∈ typed, t.head? ≠ some '-') :
    guarded (call words typed) = true := guarded_fixed words (guarded_typed h)

/-- Without a `--`, a command is as good as its word. -/
theorem guarded_bare (hwords : words.all (fun w => w.toList ≠ "--".toList) = true)
    (hrest : guarded rest = true) :
    guarded (call words [t] ++ rest) = true ↔ t.head? ≠ some '-' := by
  induction words with
  | nil =>
    change (decide ((Word.typed t).value.head? ≠ some '-') && guarded rest) = true ↔ _
    rw [hrest, Word.value, word_quote, Bool.and_true, decide_eq_true_eq]
  | cons w more ih =>
    rw [List.all_cons, Bool.and_eq_true, decide_eq_true_eq] at hwords
    rw [← ih hwords.2]
    change (decide (w.toList = "--".toList) || guarded (call more [t] ++ rest)) = true ↔ _
    rw [decide_eq_false hwords.1, Bool.false_or]

theorem guarded_one (hwords : words.all (fun w => w.toList ≠ "--".toList) = true) :
    guarded (call words [t]) = true ↔ t.head? ≠ some '-' := by
  have hnil : guarded (call words [t] ++ []) = true ↔ t.head? ≠ some '-' := guarded_bare hwords rfl
  rwa [List.append_nil] at hnil

variable {printable : Char → Bool} {branches : Branches}

theorem pkgQuoteList_ok {names : Text} {pkgs : List Text}
    (h : pkgQuoteList printable names = .ok pkgs) : ∀ t ∈ pkgs, t.head? ≠ some '-' := by
  simp only [pkgQuoteList] at h
  split at h
  · cases h
  · next hnone =>
    obtain rfl := Except.ok.inj h
    intro t ht
    simpa using List.find?_eq_none.mp hnone t ht

/-- Every command is the program's own words and then names that are no options. -/
def Called (branches : Branches) : Prop :=
  ∀ c ∈ branches.all, ∃ words typed, c = call words typed ∧ ∀ t ∈ typed, t.head? ≠ some '-'

theorem Called.guarded (h : Called branches) : ∀ c ∈ branches.all, guarded c = true := by
  intro c hc
  obtain ⟨words, typed, rfl, htyped⟩ := h c hc
  exact guarded_call words htyped

theorem called_four {a b c d : List String} (h : ∀ t ∈ typed, t.head? ≠ some '-') :
    Called ⟨[call a typed], [call b typed], [call c typed], [call d typed]⟩ := by
  intro x hx
  simp only [Branches.all, List.mem_append, List.mem_singleton] at hx
  rcases hx with ((rfl | rfl) | rfl) | rfl <;> exact ⟨_, typed, rfl, h⟩

theorem called_install (h : cmdInstallPackages printable text = .ok branches) :
    Called branches := by
  obtain ⟨pkgs, hpkgs, h⟩ := bind_ok h
  obtain ⟨-, h⟩ := guard_ok h
  obtain rfl := Except.ok.inj h
  exact called_four (pkgQuoteList_ok hpkgs)

theorem called_remove (h : cmdRemovePackages printable text = .ok branches) : Called branches := by
  obtain ⟨pkgs, hpkgs, h⟩ := bind_ok h
  obtain ⟨-, h⟩ := guard_ok h
  obtain rfl := Except.ok.inj h
  exact called_four (pkgQuoteList_ok hpkgs)

theorem called_installLocal (h : cmdInstallLocalPackage text = .ok branches) :
    Called branches := by
  rw [cmdInstallLocalPackage] at h
  obtain ⟨-, h⟩ := guard_ok h
  obtain ⟨hdash, h⟩ := guard_ok h
  obtain rfl := Except.ok.inj h
  exact called_four (by simpa using hdash)

theorem called_update {flags : Text} (h : cmdUpdatePackages printable text flags = .ok branches) :
    Called branches := by
  obtain ⟨pkgs, hpkgs, h⟩ := bind_ok h
  split_ifs at h
  · obtain rfl := Except.ok.inj h
    simp [Called, Branches.all]
  · obtain rfl := Except.ok.inj h
    intro x hx
    simp only [Branches.all, List.mem_append, List.mem_singleton, List.not_mem_nil, or_false] at hx
    rcases hx with (rfl | rfl) | rfl <;> exact ⟨_, pkgs, rfl, pkgQuoteList_ok hpkgs⟩

theorem called_status (h : cmdPackageStatus printable text = .ok branches) : Called branches := by
  obtain ⟨pkgs, hpkgs, h⟩ := bind_ok h
  obtain ⟨-, h⟩ := guard_ok h
  obtain rfl := Except.ok.inj h
  have hone : ∀ p ∈ pkgs, ∀ t ∈ [p], t.head? ≠ some '-' := by
    intro p hp t ht
    rw [List.mem_singleton.mp ht]
    exact pkgQuoteList_ok hpkgs p hp
  intro x hx
  simp only [Branches.all, List.mem_append, List.mem_map, List.mem_flatMap, List.mem_cons,
    List.not_mem_nil, or_false] at hx
  rcases hx with ((⟨p, hp, rfl⟩ | ⟨p, hp, rfl⟩) | ⟨p, hp, rfl | rfl⟩) | ⟨p, hp, rfl⟩ <;>
    exact ⟨_, [p], rfl, hone p hp⟩

theorem all_iff {p : Command → Prop} {cs : List Command} {q : Prop} (hne : cs ≠ [])
    (h : ∀ c ∈ cs, p c ↔ q) : (∀ c ∈ cs, p c) ↔ q := by
  obtain ⟨c, hc⟩ := List.exists_mem_of_ne_nil cs hne
  exact ⟨fun hall => (h c hc).mp (hall c hc), fun hq c hc => (h c hc).mpr hq⟩

theorem guarded_noDiscrepancies : guarded (noDiscrepancies t) = true ↔ t.head? ≠ some '-' :=
  guarded_bare (by decide) (by decide)

/-- Where the text is quoted as it is, it must not begin with a dash. -/
theorem guarded_plain (b : Builder) (hplain : b.plain = true)
    (h : b.build printable text = .ok branches) :
    (∀ c ∈ branches.all, guarded c = true) ↔ (stripText text).head? ≠ some '-' := by
  cases b with
  | query =>
    rw [Builder.build, cmdQueryPackage, oneName] at h
    obtain ⟨-, h⟩ := guard_ok h
    obtain rfl := Except.ok.inj h
    refine all_iff (by simp [Branches.all]) ?_
    simp only [Branches.all, List.forall_mem_append, List.forall_mem_cons, List.not_mem_nil,
      false_imp_iff, implies_true, and_true]
    refine ⟨⟨⟨⟨?_, ?_⟩, ?_⟩, ?_, ?_, ?_⟩, ?_, ?_, ?_⟩ <;> exact guarded_one (by decide)
  | verify =>
    rw [Builder.build, cmdVerifyPackage, oneName] at h
    obtain ⟨-, h⟩ := guard_ok h
    obtain rfl := Except.ok.inj h
    refine all_iff (by simp [Branches.all]) ?_
    simp only [Branches.all, List.forall_mem_append, List.forall_mem_cons, List.not_mem_nil,
      false_imp_iff, implies_true, and_true]
    exact ⟨⟨⟨⟨guarded_one (by decide), guarded_noDiscrepancies⟩,
      guarded_one (by decide), guarded_noDiscrepancies⟩,
      guarded_one (by decide), guarded_noDiscrepancies⟩,
      guarded_one (by decide), guarded_noDiscrepancies⟩
  | search =>
    rw [Builder.build, cmdSearchPackages, oneName] at h
    obtain ⟨-, h⟩ := guard_ok h
    obtain rfl := Except.ok.inj h
    refine all_iff (by simp [Branches.all]) ?_
    simp only [Branches.all, List.forall_mem_append, List.forall_mem_cons, List.not_mem_nil,
      false_imp_iff, implies_true, and_true]
    refine ⟨⟨⟨?_, ?_⟩, ?_⟩, ?_⟩ <;> exact guarded_one (by decide)
  | _ => cases hplain

/-- What an operator types is no option for any manager, but for a dash that begins the text of
a query, a verification or a search. -/
theorem package_field_iff (b : Builder) (h : b.build printable text = .ok branches) :
    (∀ c ∈ branches.all, guarded c = true) ↔
      (b.plain = true → (stripText text).head? ≠ some '-') := by
  by_cases hplain : b.plain = true
  · rw [guarded_plain b hplain h]
    simp [hplain]
  · refine iff_of_true ?_ fun hb => absurd hb hplain
    cases b with
    | install =>
      rw [Builder.build] at h
      exact (called_install h).guarded
    | installLocal =>
      rw [Builder.build] at h
      exact (called_installLocal h).guarded
    | remove =>
      rw [Builder.build] at h
      exact (called_remove h).guarded
    | update flags =>
      rw [Builder.build] at h
      exact (called_update h).guarded
    | status =>
      rw [Builder.build] at h
      exact (called_status h).guarded
    | _ => exact absurd rfl hplain

/-- A search for an option of dnf. -/
theorem search_option : ∃ branches,
    Builder.search.build (fun _ => true) "--setopt=reposdir=/tmp/x".toList = .ok branches ∧
      ¬∀ c ∈ branches.all, guarded c = true := by
  refine ⟨_, rfl, ?_⟩
  intro h
  have := h (call ["zypper", "-q", "search"] ["--setopt=reposdir=/tmp/x".toList]) (by decide)
  exact absurd this (by decide)

theorem install_guarded : ∃ branches,
    Builder.install.build (fun _ => true) "nginx  php-fpm".toList = .ok branches ∧
      ∀ c ∈ branches.all, guarded c = true :=
  ⟨_, rfl, (package_field_iff .install (show Builder.install.build (fun _ => true)
    "nginx  php-fpm".toList = .ok _ from rfl)).mpr nofun⟩

end PackageFields
