import SysibleController.FixedGrep
import SysibleController.FstabPersist
import SysibleController.ShellArgv

/-! The keys that may log in as a user: installing one and retiring those with some text in
their lines. A script is given by what it does to the file, with the words that a shell reads;
its directories and modes do not matter to the lines. -/
namespace AuthorizedKeys

open PathText TextLines ShellQuote FixedGrep PythonText EarlyExit
open ShellReader (word word_quote)

structure Tools where
  grep : Grep
  echo : List Text → Text

structure Tools.Conforming (tools : Tools) : Prop where
  grep : FixedGrep.Conforming tools.grep
  echo : FstabPersist.Conforming tools.echo

/-- The home directory of the user, empty where there is no such user, and the file in it. -/
structure Host where
  home : Text
  keys : Option Text

/-- What becomes of the host, and what the script says at its end. -/
abbrev Script := Tools → Host → Host × Option Text

def validateUsername (isAlnum : Char → Bool) (value label : Text) : Except String Text :=
  let value := stripText value
  if value = [] then .error (String.ofList label ++ " is required.")
  else if (value.any fun c => !(isAlnum c || c = '_' || c = '-' || c = '.')) ∨
      value.head? = some '-' then
    .error (String.ofList label ++
      " may only contain letters, numbers, dots, dashes, and underscores.")
  else .ok value

def validateNonemptyLine (value label : Text) : Except String Text :=
  let value := stripText value
  if value = [] then .error (String.ofList label ++ " is required.")
  else if '\n' ∈ value ∨ '\r' ∈ value then
    .error (String.ofList label ++ " cannot span multiple lines.")
  else .ok value

def installed (user : Text) : Text := "Public key installed for ".toList ++ user ++ ['.']

def removed (user : Text) : Text := "Removed matching key(s) for ".toList ++ user ++ ['.']

/-- The words are those that the shell reads. -/
def installScript (user key : Text) : Script := fun tools host =>
  if host.home = [] then (host, none)
  else
    -- touch "$home/.ssh/authorized_keys"
    let keys := host.keys.getD []
    -- grep -qxF {q_key} "$home/.ssh/authorized_keys" || echo {q_key} >> …
    let keys := if (tools.grep holds key keys).2 then keys else keys ++ tools.echo [key]
    ({ host with keys := some keys }, some (installed user))

def removeScript (user pattern : Text) : Script := fun tools host =>
  if host.home = [] then (host, none)
  else match host.keys with
    | none => (host, none)
    | some keys =>
      -- grep -vF {q_match} "$f" > "$f.tmp" && mv "$f.tmp" "$f" && chmod 600 "$f"; echo …
      let kept := tools.grep (keep false) pattern keys
      (if kept.2 then { host with keys := some kept.1 } else host, some (removed user))

def cmdInstallAuthorizedKey (isAlnum : Char → Bool) (user publicKey : Text) :
    Except String Script := do
  let user ← validateUsername isAlnum user "User".toList
  let publicKey ← validateNonemptyLine publicKey "Public key".toList
  .ok (installScript user (word (quote publicKey)))

def cmdRemoveAuthorizedKey (isAlnum : Char → Bool) (user matchText : Text) :
    Except String Script := do
  let user ← validateUsername isAlnum user "User".toList
  let matchText ← validateNonemptyLine matchText "Key match text".toList
  .ok (removeScript user (word (quote matchText)))

def Host.text (host : Host) : Text := host.keys.getD []

/-- Where the script says that it removed the keys, the lines with the text are gone and the
others are kept in order. -/
def Retires (script : Script) (name text : Text) (host : Host) : Prop :=
  ∀ tools : Tools, tools.Conforming → (script tools host).2 = some (removed name) →
    records (script tools host).1.text = without text host.text

/-- A key that is installed and retired leaves the lines without it as they were. -/
def LeavesOthers (install remove : Script) (key : Text) (host : Host) : Prop :=
  ∀ tools : Tools, tools.Conforming →
    without key (remove tools (install tools host).1).1.text = without key host.text

/-- The text is no option, and a line without it stays unless there is none at all. -/
def Retirable (text : Text) (host : Host) : Prop :=
  host.home = [] ∨ host.keys = none ∨
    (Plain false text host.text ∧ (records host.text = [] ∨ without text host.text ≠ []))

/-- The key is no option; where it is not there yet it has no backslash, and the last line is
ended or has the key in it. -/
def Installable (key : Text) (host : Host) : Prop :=
  host.home = [] ∨
    (Plain false key host.text ∧ (key ∈ records host.text ∨
      ('\\' ∉ key ∧ (unended host.text = [] ∨ key <:+: unended host.text))))

variable {isAlnum : Char → Bool} {user matchText publicKey : Text} {script install remove : Script}
  {host : Host}

theorem validateUsername_ok {value label name : Text}
    (h : validateUsername isAlnum value label = .ok name) : name = stripText value := by
  rw [validateUsername] at h
  obtain ⟨-, h⟩ := guard_ok h
  obtain ⟨-, h⟩ := guard_ok h
  exact (Except.ok.inj h).symm

theorem validateNonemptyLine_ok {value label line : Text}
    (h : validateNonemptyLine value label = .ok line) :
    line = stripText value ∧ stripText value ≠ [] ∧ '\n' ∉ stripText value := by
  rw [validateNonemptyLine] at h
  obtain ⟨hne, h⟩ := guard_ok h
  obtain ⟨hline, h⟩ := guard_ok h
  exact ⟨(Except.ok.inj h).symm, hne, fun hmem => hline (.inl hmem)⟩

theorem install_ok (h : cmdInstallAuthorizedKey isAlnum user publicKey = .ok script) :
    script = installScript (stripText user) (stripText publicKey) ∧
      stripText publicKey ≠ [] ∧ '\n' ∉ stripText publicKey := by
  rw [cmdInstallAuthorizedKey] at h
  obtain ⟨name, hname, h⟩ := bind_ok h
  obtain ⟨key, hkey, h⟩ := bind_ok h
  obtain ⟨heq, hne, hline⟩ := validateNonemptyLine_ok hkey
  rw [validateUsername_ok hname, heq, word_quote] at h
  exact ⟨(Except.ok.inj h).symm, hne, hline⟩

theorem remove_ok (h : cmdRemoveAuthorizedKey isAlnum user matchText = .ok script) :
    script = removeScript (stripText user) (stripText matchText) ∧
      stripText matchText ≠ [] ∧ '\n' ∉ stripText matchText := by
  rw [cmdRemoveAuthorizedKey] at h
  obtain ⟨name, hname, h⟩ := bind_ok h
  obtain ⟨text, htext, h⟩ := bind_ok h
  obtain ⟨heq, hne, hline⟩ := validateNonemptyLine_ok htext
  rw [validateUsername_ok hname, heq, word_quote] at h
  exact ⟨(Except.ok.inj h).symm, hne, hline⟩

/-- An echo that writes every line. -/
def plainEcho (args : List Text) : Text := args.flatten ++ ['\n']

theorem conforming_plainEcho : FstabPersist.Conforming plainEcho := by
  intro t _ _
  simp [plainEcho]

/-- What a file becomes that grep does not take for a text, or a pattern for an option. -/
def adrift (c : Text) : Tools := ⟨wayward (blank ((records c).length + 1), true), plainEcho⟩

theorem conforming_adrift (c : Text) : (adrift c).Conforming :=
  ⟨conforming_wayward _, conforming_plainEcho⟩

section Scripts

variable {tools : Tools} {name text key keys : Text}

theorem removeScript_text (hhome : host.home ≠ []) (hkeys : host.keys = some keys) :
    (removeScript name text tools host).1.text =
        (if (tools.grep (keep false) text keys).2 then (tools.grep (keep false) text keys).1
          else keys) ∧
      (removeScript name text tools host).2 = some (removed name) := by
  simp only [removeScript, if_neg hhome, hkeys]
  split_ifs <;> simp [Host.text, hkeys]

theorem installScript_host (hhome : host.home ≠ []) :
    (installScript name key tools host).1 = ⟨host.home, some
      (if (tools.grep holds key host.text).2 then host.text
        else host.text ++ tools.echo [key])⟩ := by
  simp only [installScript, if_neg hhome]
  rfl

/-- What the removal leaves, where grep is held to its lines. -/
theorem removeScript_plain (htools : tools.Conforming) (hline : '\n' ∉ text)
    (hplain : Plain false text keys) (hhome : host.home ≠ []) (hkeys : host.keys = some keys) :
    (removeScript name text tools host).1.text =
      if without text keys = [] then keys else terminated (without text keys) := by
  rw [(removeScript_text hhome hkeys).1, htools.grep _ _ _ hplain, answer_keep false hline]
  cases without text keys <;> rfl

theorem removeScript_adrift (c : Text) (hplain : ¬Plain false text keys)
    (hhome : host.home ≠ []) (hkeys : host.keys = some keys) :
    (removeScript name text (adrift c) host).1.text = blank ((records c).length + 1) := by
  have hgrep : (adrift c).grep (keep false) text keys = (blank ((records c).length + 1), true) :=
    wayward_of_not (show ¬Plain (keep false).ended text keys from hplain)
  rw [(removeScript_text hhome hkeys).1, hgrep]
  rfl

theorem text_of_some (hkeys : host.keys = some keys) : host.text = keys := by
  rw [Host.text, hkeys, Option.getD_some]

theorem retires_iff (hne : text ≠ []) (hline : '\n' ∉ text) :
    Retires (removeScript name text) name text host ↔
      Retirable text host := by
  by_cases hhome : host.home = []
  · refine iff_of_true ?_ (.inl hhome)
    intro tools _ hsaid
    simp [removeScript, hhome] at hsaid
  cases hkeys : host.keys with
  | none =>
    refine iff_of_true ?_ (.inr (.inl hkeys))
    intro tools _ hsaid
    simp [removeScript, hhome, hkeys] at hsaid
  | some keys =>
    rw [Retirable, text_of_some hkeys]
    simp only [hhome, hkeys, false_or, reduceCtorEq]
    constructor
    · intro h
      have hplain : Plain false text keys := by
        by_contra hplain
        have hbad := h (adrift keys) (conforming_adrift keys) (removeScript_text hhome hkeys).2
        rw [removeScript_adrift keys hplain hhome hkeys, text_of_some hkeys] at hbad
        refine blank_ne_without hne keys ?_
        rw [without, hbad, without, List.filter_filter]
        simp
      refine ⟨hplain, ?_⟩
      let tools : Tools := ⟨wayward ([], false), plainEcho⟩
      have htools : tools.Conforming := ⟨conforming_wayward _, conforming_plainEcho⟩
      have hgood := h tools htools (removeScript_text hhome hkeys).2
      rw [removeScript_plain htools hline hplain hhome hkeys, text_of_some hkeys] at hgood
      split_ifs at hgood with hnone
      · exact .inl (hgood.trans hnone)
      · exact .inr hnone
    · rintro ⟨hplain, hsome⟩ tools htools -
      rw [removeScript_plain htools hline hplain hhome hkeys, text_of_some hkeys]
      split_ifs with hnone
      · rw [hsome.resolve_right (not_not.mpr hnone), hnone]
      · exact without_terminated _ _

/-- Retiring changes no line without the text. -/
theorem without_removeScript (htools : tools.Conforming) (hline : '\n' ∉ text)
    (hplain : Plain false text keys) (hhome : host.home ≠ []) (hkeys : host.keys = some keys) :
    without text (removeScript name text tools host).1.text = without text keys := by
  rw [removeScript_plain htools hline hplain hhome hkeys]
  split_ifs
  · rfl
  · exact without_without text keys

theorem holds_plain (htools : tools.Conforming) (hline : '\n' ∉ key)
    (hplain : Plain false key keys) :
    (tools.grep holds key keys).2 = decide (key ∈ records keys) := by
  rw [htools.grep _ _ _ hplain, answer_holds hline]

/-- The line of a key that is appended. -/
theorem echo_key (htools : tools.Conforming) (hplain : Plain false key keys)
    (hslash : '\\' ∉ key) : tools.echo [key] = key ++ ['\n'] := by
  refine htools.echo key ?_ hslash
  rintro rfl
  exact hplain.1.resolve_left nofun ⟨rfl, by decide⟩

theorem without_append_key (hline : '\n' ∉ key) (keys : Text) :
    without key (keys ++ (key ++ ['\n'])) =
      (lines keys).dropLast.filter fun l => !decide (key <:+: l) := by
  have hin : key <:+: unended keys ++ key := (List.suffix_append _ _).isInfix
  rw [without, records_append_line hline, List.filter_append]
  simp [hin]

theorem without_append_key_iff (hline : '\n' ∉ key) (keys : Text) :
    without key (keys ++ (key ++ ['\n'])) = without key keys ↔
      unended keys = [] ∨ key <:+: unended keys := by
  rw [without_append_key hline, without, records, List.filter_append]
  by_cases hend : unended keys = []
  · simp [hend]
  · simp [hend]

/-- An echo that writes line breaks for one key with a backslash. -/
def strayEcho (key c : Text) (args : List Text) : Text :=
  if args = [key] then blank ((records c).length + 2) else plainEcho args

theorem conforming_strayEcho (hslash : '\\' ∈ key) (c : Text) :
    FstabPersist.Conforming (strayEcho key c) := by
  intro t ht hclean
  have hne : [t] ≠ [key] := by
    intro h
    obtain rfl := List.singleton_inj.mp h
    exact hclean hslash
  rw [strayEcho, if_neg hne]
  exact conforming_plainEcho t ht hclean

/-- Where grep is not held to the lines, they are lost. -/
theorem adrift_not_without (hne : key ≠ []) (hplain : ¬Plain false key host.text)
    (hhome : host.home ≠ []) :
    without key (removeScript name key (adrift host.text)
      (installScript name key (adrift host.text) host).1).1.text ≠ without key host.text := by
  have hgrep : (adrift host.text).grep holds key host.text =
      (blank ((records host.text).length + 1), true) :=
    wayward_of_not (show ¬Plain holds.ended key host.text from hplain)
  have hsame : (installScript name key (adrift host.text) host).1 =
      ⟨host.home, some host.text⟩ := by
    rw [installScript_host hhome, hgrep]
    rfl
  have hhome' : (⟨host.home, some host.text⟩ : Host).home ≠ [] := hhome
  rw [hsame, removeScript_adrift host.text hplain hhome' rfl]
  exact blank_ne_without hne host.text

theorem leavesOthers_iff (hne : key ≠ []) (hline : '\n' ∉ key) :
    LeavesOthers (installScript name key) (removeScript name key) key host ↔
      Installable key host := by
  by_cases hhome : host.home = []
  · refine iff_of_true ?_ (.inl hhome)
    intro tools _
    simp [installScript, removeScript, hhome]
  have hhome' : ∀ keys, (⟨host.home, keys⟩ : Host).home ≠ [] := fun _ => hhome
  by_cases hplain : Plain false key host.text
  swap
  · refine iff_of_false ?_ fun h => hplain (h.resolve_left hhome).1
    intro h
    exact adrift_not_without hne hplain hhome (h _ (conforming_adrift host.text))
  rw [Installable]
  simp only [hhome, hplain, false_or, true_and]
  by_cases hmem : key ∈ records host.text
  · refine iff_of_true ?_ (.inl hmem)
    intro tools htools
    rw [installScript_host hhome, holds_plain htools hline hplain, decide_eq_true hmem,
      if_pos rfl, without_removeScript htools hline hplain (hhome' _) rfl]
  simp only [hmem, false_or]
  have hinstall : ∀ tools : Tools, tools.Conforming →
      (installScript name key tools host).1 = ⟨host.home, some (host.text ++ tools.echo [key])⟩ := by
    intro tools htools
    rw [installScript_host hhome, holds_plain htools hline hplain, decide_eq_false hmem,
      if_neg (by simp)]
  by_cases hslash : '\\' ∈ key
  · refine iff_of_false ?_ fun h => h.1 hslash
    intro h
    let tools : Tools := ⟨wayward ([], false), strayEcho key host.text⟩
    have htools : tools.Conforming := ⟨conforming_wayward _, conforming_strayEcho hslash _⟩
    have hecho : tools.echo [key] = blank ((records host.text).length + 2) := if_pos rfl
    have hplain' : Plain false key (host.text ++ blank ((records host.text).length + 2)) :=
      hplain.append (null_blank _)
    have hbad := h tools htools
    rw [hinstall tools htools, hecho,
      without_removeScript htools hline hplain' (hhome' _) rfl] at hbad
    have hmany := le_length_without hne (records_append_blank host.text
      ((records host.text).length + 1))
    have hfew := length_without_le key host.text
    rw [hbad] at hmany
    omega
  · have hafter : ∀ tools : Tools, tools.Conforming →
        without key (removeScript name key tools (installScript name key tools host).1).1.text =
          without key (host.text ++ (key ++ ['\n'])) := by
      intro tools htools
      have hplain' : Plain false key (host.text ++ (key ++ ['\n'])) :=
        hplain.append (null_line hplain.2.1)
      rw [hinstall tools htools, echo_key htools hplain hslash,
        without_removeScript htools hline hplain' (hhome' _) rfl]
    rw [← without_append_key_iff hline]
    constructor
    · intro h
      refine ⟨hslash, ?_⟩
      rw [← hafter _ (conforming_adrift host.text)]
      exact h _ (conforming_adrift host.text)
    · rintro ⟨-, h⟩ tools htools
      rw [hafter tools htools, h]

end Scripts

/-- Retiring keys does what it says, and undoes an installation, under these conditions and no
others. -/
theorem authorized_keys_iff (host : Host)
    (hinstall : cmdInstallAuthorizedKey isAlnum user publicKey = .ok install)
    (hretire : cmdRemoveAuthorizedKey isAlnum user publicKey = .ok remove)
    (hremove : cmdRemoveAuthorizedKey isAlnum user matchText = .ok script) :
    (Retires script (stripText user) (stripText matchText) host ↔
        Retirable (stripText matchText) host) ∧
      (LeavesOthers install remove (stripText publicKey) host ↔
        Installable (stripText publicKey) host) := by
  obtain ⟨rfl, hkey, hkeyline⟩ := install_ok hinstall
  obtain ⟨rfl, -, -⟩ := remove_ok hretire
  obtain ⟨rfl, htext, htextline⟩ := remove_ok hremove
  exact ⟨retires_iff htext htextline, leavesOthers_iff hkey hkeyline⟩

def rootHost (keys : String) : Host := ⟨"/root".toList, some keys.toList⟩

theorem remove_root : cmdRemoveAuthorizedKey Char.isAlphanum "root".toList "old".toList =
    .ok (removeScript "root".toList "old".toList) := by
  rfl

/-- The only key of a user is not retired, and the script says that it was. -/
theorem only_key_stays :
    cmdRemoveAuthorizedKey Char.isAlphanum "root".toList "old".toList =
        .ok (removeScript "root".toList "old".toList) ∧
      ¬Retires (removeScript "root".toList "old".toList) "root".toList "old".toList
        (rootHost "ssh-rsa AAAA old\n") := by
  refine ⟨remove_root, ?_⟩
  rw [retires_iff (by decide) (by decide)]
  rintro (h | h | ⟨-, h | h⟩)
  · exact absurd h (by decide)
  · cases h
  · exact absurd h (by decide)
  · exact h (by decide)

theorem install_root : cmdInstallAuthorizedKey Char.isAlphanum "root".toList
    "ssh-rsa BBBB new".toList = .ok (installScript "root".toList "ssh-rsa BBBB new".toList) := by
  rfl

theorem remove_new : cmdRemoveAuthorizedKey Char.isAlphanum "root".toList
    "ssh-rsa BBBB new".toList = .ok (removeScript "root".toList "ssh-rsa BBBB new".toList) := by
  rfl

/-- One of two keys is retired, and a third one comes and goes. -/
theorem one_of_two_retired :
    Retires (removeScript "root".toList "old".toList) "root".toList "old".toList
        (rootHost "ssh-rsa AAAA old\nssh-rsa CCCC kept\n") ∧
      LeavesOthers (installScript "root".toList "ssh-rsa BBBB new".toList)
        (removeScript "root".toList "ssh-rsa BBBB new".toList) "ssh-rsa BBBB new".toList
        (rootHost "ssh-rsa AAAA old\nssh-rsa CCCC kept\n") := by
  obtain ⟨hretires, hleaves⟩ := authorized_keys_iff
    (rootHost "ssh-rsa AAAA old\nssh-rsa CCCC kept\n") install_root remove_new remove_root
  exact ⟨hretires.mpr (.inr (.inr ⟨by decide, .inr (by decide)⟩)),
    hleaves.mpr (.inr ⟨by decide, .inr ⟨by decide, .inl (by decide)⟩⟩)⟩

end AuthorizedKeys
