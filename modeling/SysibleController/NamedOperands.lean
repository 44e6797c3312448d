import SysibleController.FstabPersist
import SysibleController.OptionPlaces

/-! The commands that get the name of a domain, an account, a certificate or a boot entry
(`_api_directory.py`, `_api_certs.py`, `_api_boot.py`). Of each script, the simple commands that
such a name is a word of are kept, but for those of `[`, `echo` and `printf`. -/
namespace NamedOperands

open EarlyExit PathText PythonText OptionPlaces
open FstabPersist (runOf hostChar)

/-! ### The tools -/

inductive Program where
  | realm
  | kinit
  | openssl
  | install
  | mkdir
  | host
  | nslookup
  | grubSetDefault
  | grub2SetDefault

/-- The options that take the next word. -/
def Program.options : Program → Tool
  | .realm => ["-U", "--user", "-R", "--realm", "--computer-ou", "--computer-name",
      "--client-software", "--server-software", "--membership-software", "--user-principal",
      "--one-time-password", "--os-name", "--os-version", "--automatic-id-mapping"].map
      String.toList
  | .kinit => ["-l", "-s", "-r", "-t", "-S", "-c", "-I", "-T", "-X"].map String.toList
  | .openssl => ["-in", "-inform", "-out", "-outform", "-untrusted", "-trusted", "-CAfile",
      "-CApath", "-certfile"].map String.toList
  | .install => ["-m", "--mode", "-o", "--owner", "-g", "--group", "-t", "--target-directory",
      "-S", "--suffix"].map String.toList
  | .mkdir => ["-m", "--mode"].map String.toList
  | .host => ["-t", "-c", "-N", "-R", "-W", "-m", "-p"].map String.toList
  | .nslookup => []
  | .grubSetDefault => ["--boot-directory"].map String.toList
  | .grub2SetDefault => ["--boot-directory"].map String.toList

structure Command where
  program : Program
  words : List Word

/-- Nothing of the operator's is taken for anything but what it is meant as. -/
def Command.Sound (c : Command) : Prop :=
  ∀ pw ∈ placed c.program.options .open c.words, OptionPlaces.Sound pw

def fixed (words : List String) : List Word := words.map fun w => .fixed w.toList

def name (x : Text) : Word := .operand [] x []

/-! ### Directory services -/

/-- `_DOMAIN_RE` -/
def domainRe : Text → Bool := runOf hostChar

/-- `_PRINCIPAL_RE` -/
def principalRe : Text → Bool :=
  runOf fun c => c.isAlphanum || c = ' ' || c = '.' || c = '_' || c = '@' || c = '-'

/-- `_KRB_PRINCIPAL_RE`: the realm behind the first `@` is a domain. -/
def krbPrincipalRe (t : Text) : Bool :=
  let body := if t.getLast? = some '\n' then t.dropLast else t
  let user := body.takeWhile (· ≠ '@')
  user ≠ [] && (user.all fun c => c.isAlphanum || c = '.' || c = '_' || c = '/' || c = '-') &&
    match body.dropWhile (· ≠ '@') with
    | [] => true
    | _ :: realm => realm ≠ [] && realm.all hostChar

def cmdPrepareAdJoin (domain : Text) : Except String (List Command) :=
  let domain := stripText domain
  if domain ≠ [] ∧ domainRe domain = false then
    .error "Enter a valid AD domain (e.g. corp.example.com)."
  else if domain = [] then .ok []
  else .ok [⟨.realm, fixed ["discover"] ++ [name domain]⟩]

def cmdKerberosKinit (principal password : Text) : Except String (List Command) :=
  let principal := stripText principal
  if principal = [] ∨ krbPrincipalRe principal = false then
    .error "Enter a principal, e.g. jdoe or jdoe@CORP.EXAMPLE.COM."
  else if password = [] then .error "Password is required to obtain a ticket."
  else .ok [⟨.kinit, [name principal]⟩]

/-- `_ldap._tcp."$dom"` -/
def srvName (domain : Text) : Word := .operand "_ldap._tcp.".toList domain []

def computerOuWords (computerOu : Text) : List Word :=
  if computerOu = [] then [] else [.attached "--computer-ou=".toList computerOu]

def cmdJoinAd (domain adminUser password computerOu : Text) : Except String (List Command) :=
  let domain := stripText domain
  let adminUser := stripText adminUser
  let computerOu := stripText computerOu
  if domainRe domain = false ∨ '.' ∉ domain then
    .error "Enter the AD domain (e.g. corp.example.com)."
  else if adminUser = [] ∨ ' ' ∈ adminUser then
    .error "Enter the joining account (e.g. Administrator)."
  else if password = [] then .error "The joining account's password is required."
  else .ok [
    ⟨.realm, fixed ["discover"] ++ [name domain]⟩,
    ⟨.host, fixed ["-t", "SRV"] ++ [srvName domain]⟩,
    ⟨.nslookup, fixed ["-type=SRV"] ++ [srvName domain]⟩,
    ⟨.realm, fixed ["join"] ++ (computerOuWords computerOu ++
      (fixed ["-U"] ++ [.value adminUser, name domain]))⟩]

def cmdLeaveAd (domain : Text) : Except String (List Command) :=
  let domain := stripText domain
  if domainRe domain = false ∨ '.' ∉ domain then
    .error "Enter the AD domain to leave (e.g. corp.example.com)."
  else .ok [⟨.realm, fixed ["leave"] ++ [name domain]⟩]

/-- The `-g` says that the names are those of groups. -/
def permitWords (isGroup : Bool) : List String := if isGroup then ["permit", "-g"] else ["permit"]

def cmdRealmPermit (principal : Text) (isGroup : Bool) : Except String (List Command) :=
  let principal := stripText principal
  if principal = [] ∨ principalRe principal = false then
    .error "Enter a user (e.g. jdoe@corp.example.com) or group name."
  else .ok [⟨.realm, fixed (permitWords isGroup) ++ [name principal]⟩]

/-! ### Certificates and boot entries -/

/-- `(dest_dir or "/etc/ssl/sysible").strip()` -/
def destination (destDir : Text) : Text :=
  stripText (if destDir = [] then "/etc/ssl/sysible".toList else destDir)

/-- `"$d/"` -/
def into (d : Text) : Word := .operand [] d ['/']

def keyCommands (keySrc d : Text) : List Command :=
  if keySrc = [] then [] else [⟨.install, fixed ["-m", "600"] ++ [name keySrc, into d]⟩]

def cmdInstallCertificate (certSrc keySrc destDir : Text) : Except String (List Command) :=
  let certSrc := stripText certSrc
  let keySrc := stripText keySrc
  let d := destination destDir
  if certSrc = [] then .error "Certificate file path is required."
  else .ok ([
    ⟨.mkdir, fixed ["-p"] ++ [name d]⟩,
    ⟨.openssl, fixed ["x509", "-in"] ++ (.value certSrc ::
      fixed ["-noout", "-subject", "-enddate"])⟩,
    ⟨.install, fixed ["-m", "644"] ++ [name certSrc, into d]⟩] ++ keyCommands keySrc d)

def verifyWords (certPath chainPath : Text) : List Word :=
  if chainPath = [] then fixed ["verify"] ++ [name certPath]
  else fixed ["verify", "-untrusted"] ++ [.value chainPath, name certPath]

def cmdVerifyChain (certPath chainPath : Text) : Except String (List Command) :=
  let certPath := stripText certPath
  let chainPath := stripText chainPath
  if certPath = [] then .error "Certificate file path is required."
  else .ok [
    ⟨.openssl, verifyWords certPath chainPath⟩,
    ⟨.openssl, fixed ["crl2pkcs7", "-nocrl", "-certfile"] ++ [.value certPath]⟩,
    ⟨.openssl, fixed ["x509", "-in"] ++ (.value certPath ::
      fixed ["-noout", "-subject", "-issuer"])⟩]

def cmdSetGrubDefault (entry : Text) : Except String (List Command) :=
  let entry := stripText entry
  if entry = [] then .error "Default entry (index or title) is required."
  else .ok [⟨.grub2SetDefault, [name entry]⟩, ⟨.grubSetDefault, [name entry]⟩]

/-! ### What is taken for an option -/

/-- A call of one of them, with what the operator typed. -/
inductive Call where
  | prepare (domain : Text)
  | kinit (principal password : Text)
  | join (domain adminUser password computerOu : Text)
  | leave (domain : Text)
  | permit (principal : Text) (isGroup : Bool)
  | installCertificate (certSrc keySrc destDir : Text)
  | verifyChain (certPath chainPath : Text)
  | grubDefault (entry : Text)

def Call.commands : Call → Except String (List Command)
  | .prepare domain => cmdPrepareAdJoin domain
  | .kinit principal password => cmdKerberosKinit principal password
  | .join domain adminUser password computerOu => cmdJoinAd domain adminUser password computerOu
  | .leave domain => cmdLeaveAd domain
  | .permit principal isGroup => cmdRealmPermit principal isGroup
  | .installCertificate certSrc keySrc destDir => cmdInstallCertificate certSrc keySrc destDir
  | .verifyChain certPath chainPath => cmdVerifyChain certPath chainPath
  | .grubDefault entry => cmdSetGrubDefault entry

/-- The names that are not the value of an option. -/
def Call.names : Call → List Text
  | .prepare domain => [stripText domain]
  | .kinit principal _ => [stripText principal]
  | .join domain _ _ _ => [stripText domain]
  | .leave domain => [stripText domain]
  | .permit principal _ => [stripText principal]
  | .installCertificate certSrc keySrc destDir =>
    [stripText certSrc, stripText keySrc, destination destDir]
  | .verifyChain certPath _ => [stripText certPath]
  | .grubDefault entry => [stripText entry]

theorem proper (p : Program) : Proper p.options := by
  cases p <;> decide

/-- No operand begins with a dash. -/
def Dashless (words : List Word) : Prop :=
  ∀ w ∈ words, w.isOperand = true → w.text.head? ≠ some '-'

theorem sound_iff {c : Command} (h : fits c.program.options .open c.words = true) :
    c.Sound ↔ Dashless c.words := OptionPlaces.sound_iff (proper c.program) h

theorem dashless_nil : Dashless [] := fun _ h => by cases h

/-- A word that is no operand does not matter. -/
theorem dashless_cons_of_not {w : Word} (hw : w.isOperand = false) (rest : List Word) :
    Dashless (w :: rest) ↔ Dashless rest := by
  rw [Dashless, List.forall_mem_cons]
  refine and_iff_right fun h => ?_
  rw [hw] at h
  cases h

/-- The words are the program's own. -/
theorem dashless_fixed (words : List String) (rest : List Word) :
    Dashless (fixed words ++ rest) ↔ Dashless rest := by
  induction words with
  | nil => rfl
  | cons t words ih => exact (dashless_cons_of_not rfl _).trans ih

theorem dashless_name (x : Text) (rest : List Word) :
    Dashless (name x :: rest) ↔ x.head? ≠ some '-' ∧ Dashless rest := by
  have htext : (name x).text = x := by
    rw [name, Word.text, ShellReader.word_quote, List.nil_append, List.append_nil]
  rw [Dashless, List.forall_mem_cons, htext]
  exact and_congr_left fun _ => ⟨fun h => h rfl, fun h _ => h⟩

theorem dashless_into (d : Text) (rest : List Word) :
    Dashless (into d :: rest) ↔ d.head? ≠ some '-' ∧ Dashless rest := by
  have htext : (into d).text = d ++ ['/'] := by
    rw [into, Word.text, ShellReader.word_quote, List.nil_append]
  have hhead : (d ++ ['/']).head? ≠ some '-' ↔ d.head? ≠ some '-' := by
    cases d with
    | nil => decide
    | cons c d => rfl
  rw [Dashless, List.forall_mem_cons, htext]
  exact and_congr_left fun _ => ⟨fun h => hhead.mp (h rfl), fun h _ => hhead.mpr h⟩

/-- The word has the characters of the program's own before it. -/
theorem dashless_srvName (domain : Text) (rest : List Word) :
    Dashless (srvName domain :: rest) ↔ Dashless rest := by
  have hhead : (srvName domain).text.head? = some '_' := rfl
  rw [Dashless, List.forall_mem_cons, hhead]
  exact and_iff_right fun _ => by decide

theorem dashless_value (x : Text) (rest : List Word) :
    Dashless (.value x :: rest) ↔ Dashless rest := dashless_cons_of_not rfl rest

theorem dashless_computerOu (x : Text) (rest : List Word) :
    Dashless (computerOuWords x ++ rest) ↔ Dashless rest := by
  rw [computerOuWords]
  split_ifs
  · rfl
  · exact dashless_cons_of_not rfl rest

theorem dashless_only_fixed (words : List String) : Dashless (fixed words) := by
  have hfixed := dashless_fixed words []
  rw [List.append_nil] at hfixed
  exact hfixed.mpr dashless_nil

theorem prepare_iff {domain : Text} {commands : List Command}
    (h : cmdPrepareAdJoin domain = .ok commands) :
    (∀ c ∈ commands, c.Sound) ↔ (stripText domain).head? ≠ some '-' := by
  rw [cmdPrepareAdJoin] at h
  split_ifs at h with hvalid hnil
  · rw [← Except.ok.inj h, hnil]
    exact iff_of_true (fun _ h => by cases h) (by decide)
  · rw [← Except.ok.inj h, List.forall_mem_singleton, sound_iff rfl, dashless_fixed, dashless_name,
      and_iff_left dashless_nil]

theorem kinit_iff {principal password : Text} {commands : List Command}
    (h : cmdKerberosKinit principal password = .ok commands) :
    (∀ c ∈ commands, c.Sound) ↔ (stripText principal).head? ≠ some '-' := by
  rw [cmdKerberosKinit] at h
  split_ifs at h with hvalid hpassword
  rw [← Except.ok.inj h, List.forall_mem_singleton, sound_iff rfl, dashless_name,
    and_iff_left dashless_nil]

theorem fits_join (domain adminUser computerOu : Text) :
    fits Program.realm.options .open (fixed ["join"] ++ (computerOuWords computerOu ++
      (fixed ["-U"] ++ [.value adminUser, name domain]))) = true := by
  rw [computerOuWords]
  split_ifs <;> rfl

theorem join_iff {domain adminUser password computerOu : Text} {commands : List Command}
    (h : cmdJoinAd domain adminUser password computerOu = .ok commands) :
    (∀ c ∈ commands, c.Sound) ↔ (stripText domain).head? ≠ some '-' := by
  rw [cmdJoinAd] at h
  split_ifs at h with hdomain huser hpassword
  rw [← Except.ok.inj h]
  simp only [List.forall_mem_cons]
  rw [sound_iff rfl, sound_iff rfl, sound_iff rfl, sound_iff (fits_join _ _ _)]
  simp only [dashless_fixed, dashless_name, dashless_srvName, dashless_computerOu, dashless_value,
    dashless_nil, and_true, true_and, List.not_mem_nil, false_imp_iff, implies_true, and_self]

theorem leave_iff {domain : Text} {commands : List Command}
    (h : cmdLeaveAd domain = .ok commands) :
    (∀ c ∈ commands, c.Sound) ↔ (stripText domain).head? ≠ some '-' := by
  rw [cmdLeaveAd] at h
  split_ifs at h with hdomain
  rw [← Except.ok.inj h, List.forall_mem_singleton, sound_iff rfl, dashless_fixed, dashless_name,
    and_iff_left dashless_nil]

theorem permit_iff {principal : Text} {isGroup : Bool} {commands : List Command}
    (h : cmdRealmPermit principal isGroup = .ok commands) :
    (∀ c ∈ commands, c.Sound) ↔ (stripText principal).head? ≠ some '-' := by
  rw [cmdRealmPermit] at h
  split_ifs at h with hvalid
  have hfits : fits Program.realm.options .open
      (fixed (permitWords isGroup) ++ [name (stripText principal)]) = true := by
    cases isGroup <;> rfl
  rw [← Except.ok.inj h, List.forall_mem_singleton, sound_iff hfits, dashless_fixed, dashless_name,
    and_iff_left dashless_nil]

theorem keyCommands_iff (keySrc d : Text) : (∀ c ∈ keyCommands keySrc d, c.Sound) ↔
    keySrc = [] ∨ keySrc.head? ≠ some '-' ∧ d.head? ≠ some '-' := by
  rw [keyCommands]
  split_ifs with hnil
  · exact iff_of_true (fun _ h => by cases h) (.inl hnil)
  · rw [List.forall_mem_singleton, sound_iff rfl, dashless_fixed, dashless_name, dashless_into,
      and_iff_left dashless_nil, or_iff_right hnil]

theorem installCertificate_iff {certSrc keySrc destDir : Text} {commands : List Command}
    (h : cmdInstallCertificate certSrc keySrc destDir = .ok commands) :
    (∀ c ∈ commands, c.Sound) ↔ (stripText certSrc).head? ≠ some '-' ∧
      (stripText keySrc).head? ≠ some '-' ∧ (destination destDir).head? ≠ some '-' := by
  have hempty : stripText keySrc = [] → (stripText keySrc).head? ≠ some '-' := by
    intro hnil
    rw [hnil]
    decide
  rw [cmdInstallCertificate] at h
  split_ifs at h with hcert
  rw [← Except.ok.inj h, List.forall_mem_append, keyCommands_iff]
  simp only [List.forall_mem_cons]
  rw [sound_iff rfl, sound_iff rfl, sound_iff rfl]
  simp only [dashless_fixed, dashless_name, dashless_into, dashless_value, dashless_only_fixed,
    dashless_nil, and_true, true_and, List.not_mem_nil, false_imp_iff, implies_true]
  constructor
  · rintro ⟨⟨hd, hc, -⟩, hkey⟩
    refine ⟨hc, ?_, hd⟩
    rcases hkey with hnil | ⟨hk, -⟩
    · exact hempty hnil
    · exact hk
  · rintro ⟨hc, hk, hd⟩
    exact ⟨⟨hd, hc, hd⟩, .inr ⟨hk, hd⟩⟩

theorem fits_verify (certPath chainPath : Text) :
    fits Program.openssl.options .open (verifyWords certPath chainPath) = true := by
  rw [verifyWords]
  split_ifs <;> rfl

theorem dashless_verify (certPath chainPath : Text) :
    Dashless (verifyWords certPath chainPath) ↔ certPath.head? ≠ some '-' := by
  rw [verifyWords]
  split_ifs
  · rw [dashless_fixed, dashless_name, and_iff_left dashless_nil]
  · rw [dashless_fixed, dashless_value, dashless_name, and_iff_left dashless_nil]

theorem verifyChain_iff {certPath chainPath : Text} {commands : List Command}
    (h : cmdVerifyChain certPath chainPath = .ok commands) :
    (∀ c ∈ commands, c.Sound) ↔ (stripText certPath).head? ≠ some '-' := by
  rw [cmdVerifyChain] at h
  split_ifs at h with hcert
  rw [← Except.ok.inj h]
  simp only [List.forall_mem_cons]
  rw [sound_iff (fits_verify _ _), sound_iff rfl, sound_iff rfl]
  simp only [dashless_verify, dashless_fixed, dashless_value, dashless_only_fixed, dashless_nil,
    and_true, List.not_mem_nil, false_imp_iff, implies_true]

theorem grubDefault_iff {entry : Text} {commands : List Command}
    (h : cmdSetGrubDefault entry = .ok commands) :
    (∀ c ∈ commands, c.Sound) ↔ (stripText entry).head? ≠ some '-' := by
  rw [cmdSetGrubDefault] at h
  split_ifs at h with hentry
  rw [← Except.ok.inj h]
  simp only [List.forall_mem_cons]
  rw [sound_iff rfl, sound_iff rfl]
  simp only [dashless_name, dashless_nil, and_true, List.not_mem_nil, false_imp_iff, implies_true,
    and_self]

/-- A name stays a name exactly where it does not begin with a dash. -/
theorem names_are_no_options_iff (call : Call) (commands : List Command)
    (h : call.commands = .ok commands) :
    (∀ c ∈ commands, c.Sound) ↔ ∀ x ∈ call.names, x.head? ≠ some '-' := by
  cases call with
  | prepare domain =>
    rw [Call.commands] at h
    rw [Call.names, List.forall_mem_singleton, prepare_iff h]
  | kinit principal password =>
    rw [Call.commands] at h
    rw [Call.names, List.forall_mem_singleton, kinit_iff h]
  | join domain adminUser password computerOu =>
    rw [Call.commands] at h
    rw [Call.names, List.forall_mem_singleton, join_iff h]
  | leave domain =>
    rw [Call.commands] at h
    rw [Call.names, List.forall_mem_singleton, leave_iff h]
  | permit principal isGroup =>
    rw [Call.commands] at h
    rw [Call.names, List.forall_mem_singleton, permit_iff h]
  | installCertificate certSrc keySrc destDir =>
    rw [Call.commands] at h
    rw [installCertificate_iff h, Call.names, List.forall_mem_cons, List.forall_mem_cons,
      List.forall_mem_singleton]
  | verifyChain certPath chainPath =>
    rw [Call.commands] at h
    rw [Call.names, List.forall_mem_singleton, verifyChain_iff h]
  | grubDefault entry =>
    rw [Call.commands] at h
    rw [Call.names, List.forall_mem_singleton, grubDefault_iff h]

theorem permit_ok {x : Text} (hstrip : stripText x = x) (hne : x ≠ [])
    (hvalid : principalRe x = true) :
    (Call.permit x false).commands = .ok [⟨.realm, fixed ["permit"] ++ [name x]⟩] := by
  have hgood : ¬(x = [] ∨ principalRe x = false) := by
    rw [hvalid]
    simpa using hne
  rw [Call.commands, cmdRealmPermit, hstrip, if_neg hgood]
  rfl

theorem jdoe_is_no_option :
    Command.Sound ⟨.realm, fixed ["permit"] ++ [name "jdoe".toList]⟩ := by
  have hok := @permit_ok "jdoe".toList (by decide +kernel) (by decide +kernel) (by decide +kernel)
  exact (names_are_no_options_iff _ _ hok).mpr (by decide +kernel) _ List.mem_cons_self

/-- `realm permit -a` lets in the whole domain. -/
theorem all_are_permitted : ¬∀ (call : Call) (commands : List Command),
    call.commands = .ok commands → ∀ c ∈ commands, c.Sound := by
  intro h
  have hok := @permit_ok "-a".toList (by decide) (by decide) (by decide)
  have hsound := h _ _ hok _ List.mem_cons_self
  have hdash := (sound_iff rfl).mp hsound (name "-a".toList) (by decide) rfl
  exact absurd hdash (by decide)

end NamedOperands
