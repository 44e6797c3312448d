import SysibleController.JumpHop

/-! The relay that hosts are reached through (`backend/relay.py`): the settings in effect, saving
them, and the proxy for a host. -/
namespace RelayConfig

open PathText PythonText PythonInt JumpHop

inductive Field where
  | relayHost
  | relayUser
  | relayPort
  | relayIdentity
  | routeAllowlist
  | relayOs
  deriving DecidableEq

/-- A value of the settings: the port is a number, once it has been read. -/
inductive Value where
  | text (t : Text)
  | port (n : ℕ)
  deriving DecidableEq

/-- What the module asks of its surroundings: the environment, the default path of the key, the
controller's own addresses, and `ipaddress` (whether a text is a loopback address or a network,
and whether an address is in a network). -/
structure System where
  env : Field → Text
  defaultIdentity : Text
  ownAddresses : List Text
  loopback : Text → Bool
  network : Text → Bool
  member : Text → Text → Bool

/-- The stored row; a fresh install reads as blank. -/
abbrev Row := Field → Text

def defaultRelayUser : Text := "sysible-relay".toList

def lowerText (t : Text) : Text := t.map Char.toLower

/-- Python's `or` on texts. -/
def orElse (a b : Text) : Text := if a = [] then b else a

def Value.str : Value → Text
  | .text t => t
  | .port n => decimal n

/-- `_clean` -/
def clean (v : Value) : Text := stripText v.str

def coercePort : Value → ℕ
  | .port n => if 1 ≤ n ∧ n ≤ 65535 then n else 22
  | .text t =>
    match pyInt t with
    | some n => if 1 ≤ n ∧ n ≤ 65535 then n.toNat else 22
    | none => 22

variable (sys : System)

def pick (row : Row) (f : Field) : Text := orElse (stripText (row f)) (stripText (sys.env f))

/-- A picked text as the setting that it stands for. -/
def setting : Field → Text → Value
  | .relayHost, t | .routeAllowlist, t => .text t
  | .relayUser, t => .text (orElse t defaultRelayUser)
  | .relayPort, t => .port (coercePort (.text t))
  | .relayIdentity, t => .text (orElse t sys.defaultIdentity)
  | .relayOs, t => .text (lowerText (orElse t "auto".toList))

def config (row : Row) (f : Field) : Value := setting sys f (pick sys row f)

/-! ### Saving -/

def stripBrackets (t : Text) : Text :=
  (t.dropWhile fun c => c = '[' ∨ c = ']').rdropWhile fun c => c = '[' ∨ c = ']'

def bare (host : Text) : Text := lowerText (stripBrackets (stripText host))

def isLoopbackHost (host : Text) : Bool :=
  bare host = "localhost".toList || bare host = "localhost.localdomain".toList ||
    sys.loopback (bare host)

def identityBad : Text := " \t\r\n;|&$\x60<>()\"'*?!\\".toList

def safeIdentity (path : Text) : Text :=
  if path = [] ∨ path.head? = some '-' then []
  else if path.any fun c => c ∈ identityBad then [] else path

def validateConfig (cfg : Field → Value) : Except String Unit :=
  let ident := clean (cfg .relayIdentity)
  let host := clean (cfg .relayHost)
  let user := orElse (clean (cfg .relayUser)) defaultRelayUser
  if ident ≠ [] ∧ ".pub".toList <:+ lowerText ident then
    .error <| "The relay identity must be the PRIVATE key path, not the public key — " ++
      "remove the '.pub' (use '" ++ String.ofList (ident.take (ident.length - 4)) ++
      "'). The controller authenticates to the relay with the private key."
  else if ident ≠ [] ∧ safeIdentity ident = [] then
    .error <| "The relay identity has characters that aren't allowed in a key path — " ++
      "no spaces, shell metacharacters, or a leading '-'."
  else if host = [] then .ok ()
  else if !validJump (jumpOf user host (coercePort (cfg .relayPort))) then
    .error <| "The relay host / user / port don't form a valid SSH endpoint. " ++
      "Use [user@]host[:port] with no spaces or shell metacharacters; " ++
      "bracket IPv6 literals (e.g. [2001:db8::1])."
  else if isLoopbackHost sys host then
    .error <| "The relay host is a loopback address. It must be the BASTION / jump " ++
      "box (the machine where you ran install-*-bastion), not the controller " ++
      "itself or localhost."
  else if bare host ∈ sys.ownAddresses then
    .error <| "The relay host is THIS controller's own address. A relay is the jump " ++
      "box the controller connects THROUGH — set it to the bastion's " ++
      "IP/hostname (the machine where you ran install-*-bastion)."
  else .ok ()

/-- The fields of an update, each `None` or the text of what was given for it. -/
abbrev Updates := Field → Option (Option Text)

/-- The settings in effect, with the update applied. -/
def merged (row : Row) (updates : Updates) (f : Field) : Value :=
  match updates f with
  | none => config sys row f
  | some none => .text []
  | some (some t) => .text (stripText t)

/-- What `set_relay_config` writes for a value. -/
def column : Value → Text
  | .text t => stripText t
  | .port n => if n = 0 then [] else stripText (decimal n)

/-- The row that is written. -/
def saveConfig (row : Row) (updates : Updates) : Except String Row :=
  (validateConfig sys (merged sys row updates)).map fun _ f => column (merged sys row updates f)

/-! ### Routing -/

/-- `host["relay"]` -/
inductive Opt where
  | absent
  | flag (on : Bool)
  | text (t : Text)

structure ManagedHost where
  relay : Opt
  ip : Text
  name : Text

def trueTokens : List Text :=
  ["true", "1", "yes", "on", "enable", "enabled"].map String.toList

def optedIn : Opt → Bool
  | .absent => false
  | .flag on => on
  | .text t =>
    lowerText (stripText t) = "sysible-relay".toList || lowerText (stripText t) ∈ trueTokens

/-- The tokens of an allowlist: networks, and suffixes of names. -/
def parseAllowlist (raw : Text) : List Text × List Text :=
  let tokens := (raw.splitOnP fun c => isSpace c || c = ',' || c = ';').filter (· ≠ [])
  (tokens.filter sys.network,
    ((tokens.filter fun t => !sys.network t).map fun t => (lowerText t).dropWhile (· = '.')).filter
      (· ≠ []))

def ipInCidrs (ip : Text) (cidrs : List Text) : Bool :=
  ip ≠ [] && cidrs.any fun net => sys.member (stripText ip) net

def nameHasSuffix (name : Text) (suffixes : List Text) : Bool :=
  let lowered := lowerText (stripText name)
  name ≠ [] && suffixes.any fun s => lowered = s || ('.' :: s) <:+ lowered

def shouldRoute (cfg : Field → Value) (host : ManagedHost) : Bool :=
  optedIn host.relay ||
    (let (cidrs, suffixes) := parseAllowlist sys (cfg .routeAllowlist).str
     ipInCidrs sys host.ip cidrs || nameHasSuffix host.name suffixes)

structure Proxy where
  jump : Text
  identity : Option Text
  deriving DecidableEq

def resolveSshProxy (row : Row) (host : ManagedHost) : Option Proxy :=
  let cfg := config sys row
  let relayHost := clean (cfg .relayHost)
  if relayHost = [] then none
  else if !shouldRoute sys cfg host then none
  else
    let user := orElse (clean (cfg .relayUser)) defaultRelayUser
    let jump := jumpOf user relayHost (coercePort (cfg .relayPort))
    if !validJump jump then none
    else
      let identity := safeIdentity (clean (cfg .relayIdentity))
      some ⟨jump, if identity = [] then none else some identity⟩

/-! ### What was saved is used -/

/-- The merged settings by themselves, without an environment. -/
def view (m : Field → Value) (f : Field) : Value := setting sys f (column (m f))

/-- The environment changes nothing about a field that the merged settings leave blank. -/
def EnvSilent (m : Field → Value) : Prop :=
  ∀ f, column (m f) = [] → setting sys f (stripText (sys.env f)) = setting sys f []

/-- The proxy for a host leads to the relay of the settings, which is another machine. -/
structure LeadsToRelay (cfg : Field → Value) (proxy : Proxy) : Prop where
  split : ∃ user host name, ∃ port : ℕ,
    parseJumpHop proxy.jump = some (some user, name, (port : ℤ)) ∧
    cfg .relayUser = .text user ∧ cfg .relayHost = .text host ∧ cfg .relayPort = .port port ∧
    Names host name ∧ (1 ≤ port ∧ port ≤ 65535) ∧ isLoopbackHost sys name = false ∧
    bare name ∉ sys.ownAddresses

structure SavedIsUsed (m : Field → Value) (row : Row) : Prop where
  same : config sys row = view sys m
  used : config sys row .relayHost ≠ .text [] → ∀ host,
    shouldRoute sys (config sys row) host = true →
    ∃ proxy, resolveSshProxy sys row host = some proxy ∧ LeadsToRelay sys (config sys row) proxy

variable {sys} {row row' : Row} {m : Field → Value} {updates : Updates} {f : Field}
  {user host name t : Text} {c : Char} {n : ℕ}

/-! ### Texts without blanks -/

theorem isSpace_of_range (h : 45 ≤ c.toNat ∧ c.toNat ≤ 122) : isSpace c = false := by
  simp only [isSpace, isBlank, List.contains_eq_mem, List.mem_cons, List.not_mem_nil, or_false,
    Bool.or_eq_false_iff, Bool.and_eq_false_iff, decide_eq_false_iff_not]
  omega

theorem isSpace_of_digit (h : c.isDigit = true) : isSpace c = false := by
  apply isSpace_of_range
  have hrange : 48 ≤ c.toNat ∧ c.toNat ≤ 57 := by
    simpa [Char.isDigit, UInt32.le_iff_toNat_le] using h
  omega

theorem isSpace_of_literal (h : literalChar c = true) : isSpace c = false := by
  simp only [literalChar, Bool.or_eq_true, Bool.and_eq_true, decide_eq_true_eq] at h
  rcases h with ((hdigit | ⟨hlow, hhigh⟩) | ⟨hlow, hhigh⟩) | rfl
  · exact isSpace_of_digit hdigit
  · apply isSpace_of_range
    change 65 ≤ c.toNat at hlow
    change c.toNat ≤ 70 at hhigh
    omega
  · apply isSpace_of_range
    change 97 ≤ c.toNat at hlow
    change c.toNat ≤ 102 at hhigh
    omega
  · decide

theorem stripText_decimal (n : ℕ) : stripText (decimal n) = decimal n :=
  stripText_of_all fun _ hc => isSpace_of_digit (digit_of_mem_decimal hc)

theorem stripText_nil : stripText [] = [] := by rw [stripText_eq]; rfl

theorem isLoopbackHost_congr (h : bare host = bare name) :
    isLoopbackHost sys host = isLoopbackHost sys name := by
  rw [isLoopbackHost, isLoopbackHost, h]

/-- Brackets around an address are not a part of it. -/
theorem bare_of_form (h : HostForm host name) : bare host = bare name := by
  cases h with
  | name => rfl
  | literal chars =>
    have hname : stripText name = name := stripText_of_all fun c hc => isSpace_of_literal (chars c hc)
    have hhost : stripText ('[' :: (name ++ [']'])) = '[' :: (name ++ [']']) := by
      apply stripText_of_all
      intro c hc
      simp only [List.mem_cons, List.mem_append, List.not_mem_nil, or_false] at hc
      rcases hc with rfl | hc | rfl
      · decide
      · exact isSpace_of_literal (chars c hc)
      · decide
    have hbrackets : stripBrackets ('[' :: (name ++ [']'])) = stripBrackets name := by
      cases name with
      | nil => rfl
      | cons c rest =>
        have hplain : decide (c = '[' ∨ c = ']') = false := by
          rw [decide_eq_false_iff_not]
          rintro (rfl | rfl) <;> exact absurd (chars _ List.mem_cons_self) (by decide)
        have hdrop : ∀ l : Text, (c :: l).dropWhile (fun c => decide (c = '[' ∨ c = ']')) = c :: l :=
          fun l => List.dropWhile_cons_of_neg (by simp only [hplain]; decide)
        have hfirst : ('[' :: (c :: rest ++ [']'])).dropWhile
            (fun c => decide (c = '[' ∨ c = ']')) = c :: rest ++ [']'] := by
          rw [List.dropWhile_cons_of_pos (by decide), List.cons_append, hdrop]
        rw [stripBrackets, stripBrackets, hfirst, hdrop, List.rdropWhile_concat_pos _ _ _ (by decide)]
    rw [bare, bare, hhost, hname, hbrackets]

/-! ### Settings -/

theorem coercePort_range (v : Value) : 1 ≤ coercePort v ∧ coercePort v ≤ 65535 := by
  unfold coercePort
  split
  · split_ifs <;> omega
  · split
    · split_ifs <;> omega
    · omega

theorem coercePort_port (h : 1 ≤ n ∧ n ≤ 65535) : coercePort (.port n) = n := if_pos h

theorem coercePort_decimal (h : 1 ≤ n ∧ n ≤ 65535) : coercePort (.text (decimal n)) = n := by
  have hint : (1 : ℤ) ≤ n ∧ (n : ℤ) ≤ 65535 := by omega
  simp only [coercePort, pyInt_decimal h.2, if_pos hint, Int.toNat_natCast]

@[simp] theorem stripText_column (v : Value) : stripText (column v) = column v := by
  cases v with
  | text t => exact stripText_stripText t
  | port n =>
    simp only [column]
    split_ifs
    · exact stripText_nil
    · exact stripText_stripText (decimal n)

/-- The stored settings are in effect exactly where the environment adds nothing to them. -/
theorem config_eq_view_iff :
    config sys (fun f => column (m f)) = view sys m ↔ EnvSilent sys m := by
  simp only [funext_iff, config, view, EnvSilent, pick, stripText_column]
  refine forall_congr' fun f => ?_
  by_cases h : column (m f) = []
  · simp [orElse, h]
  · simp [orElse, h]

theorem merged_text (hf : f ≠ .relayPort) : ∃ t, merged sys row updates f = .text t := by
  unfold merged
  split
  · cases f <;> first | exact ⟨_, rfl⟩ | exact absurd rfl hf
  · exact ⟨_, rfl⟩
  · exact ⟨_, rfl⟩

theorem column_eq_clean (hf : f ≠ .relayPort) :
    column (merged sys row updates f) = clean (merged sys row updates f) := by
  obtain ⟨t, ht⟩ := @merged_text sys row updates f hf
  rw [ht]
  rfl

theorem coercePort_column : coercePort (.text (column (merged sys row updates .relayPort))) =
    coercePort (merged sys row updates .relayPort) := by
  unfold merged
  split
  · have hrange := coercePort_range (.text (pick sys row .relayPort))
    have hconfig : config sys row .relayPort = .port (coercePort (.text (pick sys row .relayPort))) :=
      rfl
    rw [hconfig, column, if_neg (by omega), stripText_decimal, coercePort_decimal hrange,
      coercePort_port hrange]
  · rw [column, stripText_nil]
  · rw [column, stripText_stripText]

theorem stripText_user : stripText defaultRelayUser = defaultRelayUser := by decide

theorem stripText_orElse (ht : stripText t = t) :
    orElse (stripText (orElse t defaultRelayUser)) defaultRelayUser = orElse t defaultRelayUser := by
  have hdefault : defaultRelayUser ≠ [] := by decide
  by_cases h : t = []
  · rw [orElse, orElse, if_pos h, stripText_user, if_neg hdefault]
  · rw [orElse, orElse, if_neg h, ht, if_neg h]

/-! ### What validation promises -/

theorem last_jumpOf (hne : host ≠ []) (hstrip : stripText host = host) :
    (jumpOf user host n).getLast? ≠ some '\n' := by
  have hsplit : jumpOf user host n = (user ++ ['@']) ++ (host ++ portSuffix n) := by
    rw [jumpOf_eq]
    simp
  rw [hsplit, List.getLast?_append_of_ne_nil _ (by simp [hne]), portSuffix]
  intro hlast
  split_ifs at hlast
  · have hdigits : host ++ ':' :: decimal n = (host ++ [':']) ++ decimal n := by simp
    rw [hdigits, List.getLast?_append_of_ne_nil _ decimal_ne_nil] at hlast
    exact absurd (digit_of_mem_decimal (List.mem_of_getLast? hlast)) (by decide)
  · rw [List.append_nil, List.getLast?_eq_some_getLast hne, Option.some.injEq] at hlast
    rw [stripText_eq] at hstrip
    have hback : host.rdropWhile isSpace = host := by
      conv_lhs => rw [← hstrip]
      rw [List.rdropWhile_idempotent, hstrip]
    rw [List.rdropWhile_eq_self_iff] at hback
    exact hback hne (hlast ▸ by decide)

theorem matchesHop_of_valid (hne : host ≠ []) (hstrip : stripText host = host)
    (h : validJump (jumpOf user host n) = true) : matchesHop (jumpOf user host n) = true := by
  simp only [validJump, Bool.and_eq_true] at h
  have hre := h.1.2
  rwa [jumpHopRe, if_neg (last_jumpOf hne hstrip)] at hre

/-- The user and the port of the merged settings, as they are validated. -/
def savedUser (m : Field → Value) : Text := orElse (clean (m .relayUser)) defaultRelayUser

def savedPort (m : Field → Value) : ℕ := coercePort (m .relayPort)

theorem validateConfig_ok (h : validateConfig sys m = .ok ()) (hne : clean (m .relayHost) ≠ []) :
    validJump (jumpOf (savedUser m) (clean (m .relayHost)) (savedPort m)) = true ∧
      isLoopbackHost sys (clean (m .relayHost)) = false ∧
      bare (clean (m .relayHost)) ∉ sys.ownAddresses := by
  simp only [validateConfig] at h
  split_ifs at h with _ _ hvalid hloop hown
  exact ⟨by simpa [savedUser, savedPort] using hvalid, by simpa using hloop, hown⟩

theorem saveConfig_ok (h : saveConfig sys row updates = .ok row') :
    validateConfig sys (merged sys row updates) = .ok () ∧
      row' = fun f => column (merged sys row updates f) := by
  unfold saveConfig at h
  cases hv : validateConfig sys (merged sys row updates) with
  | error e => simp [hv, Except.map] at h
  | ok u =>
    simp only [hv, Except.map, Except.ok.injEq] at h
    exact ⟨rfl, h.symm⟩

/-! ### The proxy of the merged settings -/

section Merged

variable (hm : m = merged sys row updates)
include hm

theorem view_host : view sys m .relayHost = .text (clean (m .relayHost)) := by
  subst hm
  exact congrArg Value.text (column_eq_clean (by decide))

theorem view_user : view sys m .relayUser = .text (savedUser m) := by
  subst hm
  have hcolumn := @column_eq_clean sys row updates .relayUser (by decide)
  simp only [view, setting, hcolumn, savedUser]

theorem view_port : view sys m .relayPort = .port (savedPort m) := by
  subst hm
  exact congrArg Value.port coercePort_column

/-- With the merged settings in effect, a host that is routed has the hop that was validated. -/
theorem resolveSshProxy_view {managed : ManagedHost} (hview : config sys row' = view sys m)
    (hne : clean (m .relayHost) ≠ []) (hroute : shouldRoute sys (config sys row') managed = true)
    (hvalid : validJump (jumpOf (savedUser m) (clean (m .relayHost)) (savedPort m)) = true) :
    ∃ proxy, resolveSshProxy sys row' managed = some proxy ∧
      proxy.jump = jumpOf (savedUser m) (clean (m .relayHost)) (savedPort m) := by
  have hhost : clean (config sys row' .relayHost) = clean (m .relayHost) := by
    rw [hview, view_host hm, clean, Value.str]
    exact stripText_stripText _
  have huser : orElse (clean (config sys row' .relayUser)) defaultRelayUser = savedUser m := by
    rw [hview, view_user hm, clean, Value.str, savedUser, clean]
    exact stripText_orElse (stripText_stripText _)
  have hport : coercePort (config sys row' .relayPort) = savedPort m := by
    rw [hview, view_port hm]
    exact coercePort_port (coercePort_range _)
  let identity := safeIdentity (clean (config sys row' .relayIdentity))
  refine ⟨⟨jumpOf (savedUser m) (clean (m .relayHost)) (savedPort m),
    if identity = [] then none else some identity⟩, ?_, rfl⟩
  simp only [resolveSshProxy, hhost, huser, hport, if_neg hne, hroute, hvalid]
  rfl

end Merged

/-- A controller with no environment and one address of its own; 127.0.0.1 is the loopback
address and there are no networks. -/
def plainSystem : System :=
  ⟨fun _ => [], "/etc/sysible/relay".toList, ["10.0.0.5".toList], fun t => t = "127.0.0.1".toList,
    fun _ => false, fun _ _ => false⟩

/-- An update of the host, on a fresh install. -/
def hostUpdate (host : String) : Updates := fun f =>
  if f = .relayHost then some (some host.toList) else none

end RelayConfig
