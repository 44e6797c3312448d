import SysibleController.AgentReport
import SysibleController.FstabPersist

/-! The address of the controller in the agent it hands out: what the configuration accepts, the
text that is written into `agent.py`, and the version that the controller and the agent compute
from it. The digest, `hexdigest` of the SHA-256 of a text in UTF-8, is a parameter. -/
namespace AgentBundle

open PathText PythonText JsonText AgentCommand

/-! ### Controller Configuration -/

def addrChar (c : Char) : Bool :=
  c.isAlphanum || c = '.' || c = '_' || c = ':' || c = '-'

/-- `_CTRL_ADDR_RE`; its `$` also matches before a last newline. -/
def ctrlAddrRe (t : Text) : Bool :=
  match if t.getLast? = some '\n' then t.dropLast else t with
  | [] => false
  | c :: more => c.isAlphanum && more.all addrChar

inductive AddressMode where
  | ip
  | all
  deriving DecidableEq

/-- `SetControllerConfigRequest`; every mode but `all` is taken as `ip`. -/
structure ConfigRequest where
  ip : Text
  addressMode : Text
  port : ℤ

structure Config where
  ip : Text
  addressMode : AddressMode
  port : ℤ

def validateIp (v : Text) : Except String Text :=
  if v = [] then .ok v
  else if ctrlAddrRe v then .ok v
  else .error ("ip must be a plain host address (letters, digits, . _ : - ; no leading '-', " ++
    "quotes, spaces, or control characters)")

def validated (body : ConfigRequest) : Except HTTPException Config :=
  match validateIp body.ip with
  | .error e => .error ⟨422, e⟩
  | .ok v =>
    .ok ⟨stripText v, if body.addressMode = "all".toList then .all else .ip, body.port⟩

/-- `set_controller_config_route`, with what `detect_local_ips` returns. -/
def setControllerConfigRoute (detected : List Text) (body : ConfigRequest) :
    Except HTTPException Config :=
  match validated body with
  | .error e => .error e
  | .ok config =>
    if config.addressMode = .ip ∧ config.ip = [] then
      .error ⟨400, "Enter the controller's IP address (or choose 'all detected IPs')."⟩
    else if config.addressMode = .all ∧ detected = [] then
      .error ⟨400, "No local IP addresses were detected on this controller - check its " ++
        "network interfaces."⟩
    else if ¬(1 ≤ config.port ∧ config.port ≤ 65535) then
      .error ⟨400, "Port must be between 1 and 65535"⟩
    else .ok config

def resolveControllerAddresses (detected : List Text) (config : Config) : List Text :=
  if config.addressMode = .all then detected
  else if config.ip ≠ [] then [config.ip]
  else detected

/-- A private address that no interface has any more is replaced, except in a container. -/
def bundleAddresses (container : Bool) (isPrivate : Text → Bool) (detected : List Text)
    (config : Config) : List Text :=
  if config.addressMode ≠ .all ∧ config.ip ≠ [] ∧ container = false ∧ detected ≠ [] ∧
      config.ip ∉ detected ∧ isPrivate config.ip = true then detected
  else resolveControllerAddresses detected config

/-- An address as the configuration keeps it: it is checked, and stripped before it is stored. -/
def HostAddr (a : Text) : Prop := ctrlAddrRe a = true ∧ stripText a = a

instance (a : Text) : Decidable (HostAddr a) := inferInstanceAs (Decidable (_ ∧ _))

/-- The addresses and the port that a bundle can be built with. -/
structure Accepted (addrs : List Text) (port : ℤ) : Prop where
  nonempty : addrs ≠ []
  address : ∀ a ∈ addrs, HostAddr a
  port : 1 ≤ port ∧ port ≤ 65535

/-! ### The text of the agent -/

/-- How both the fragment and the expression that finds it begin. -/
def callee : Text := "os.getenv(\"SYSIBLE_CONTROLLER\",".toList

/-- `_CONTROLLER_DEFAULT_LINE`, and `_CONTROLLER_DEFAULT_CANON` of the agent -/
def defaultLine : Text := "os.getenv(\"SYSIBLE_CONTROLLER\", \"https://127.0.0.1:9000\")".toList

/-- `[^"]*"\)`: what is left after it. -/
def closing (t : Text) : Option Text :=
  match t.dropWhile (· ≠ '"') with
  | '"' :: ')' :: after => some after
  | _ => none

/-- `\s*"[^"]*"\)` -/
def opening (t : Text) : Option Text :=
  match t.dropWhile isSpace with
  | '"' :: body => closing body
  | _ => none

/-- `os\.getenv\("SYSIBLE_CONTROLLER",\s*"[^"]*"\)` -/
def defaultCall (t : Text) : Option Text :=
  if callee <+: t then opening (t.drop callee.length) else none

theorem closing_shorter {t after : Text} (h : closing t = some after) :
    after.length < t.length := by
  have hle := (List.dropWhile_sublist (fun c => decide (c ≠ '"')) (l := t)).length_le
  rw [closing] at h
  split at h
  · rename_i rest hrest
    cases h
    rw [hrest, List.length_cons, List.length_cons] at hle
    omega
  · cases h

theorem opening_shorter {t after : Text} (h : opening t = some after) :
    after.length < t.length := by
  have hle := (List.dropWhile_sublist isSpace (l := t)).length_le
  rw [opening] at h
  split at h
  · rename_i body hbody
    have hlt := closing_shorter h
    rw [hbody, List.length_cons] at hle
    omega
  · cases h

theorem defaultCall_shorter {t after : Text} (h : defaultCall t = some after) :
    after.length < t.length := by
  rw [defaultCall] at h
  split at h
  · have hlt := opening_shorter h
    rw [List.length_drop] at hlt
    omega
  · cases h

/-- The text with every such call written as the default one. -/
def canonical : Text → Text
  | [] => []
  | c :: t =>
    match _hcall : defaultCall (c :: t) with
    | some after => defaultLine ++ canonical after
    | none => c :: canonical t
termination_by t => t.length
decreasing_by
  · exact defaultCall_shorter _hcall
  · exact Nat.lt_succ_self _

variable (digest : Text → Text)

def agentVersionOf (src : Text) : Text := (digest (canonical src)).take 12

/-- A file is read in text mode, which leaves no carriage return. -/
def readText (file : Text) : Text := translateNewlines file

/-- `_source_version` of the agent, of an installed file -/
def sourceVersion (file : Text) : Text := (digest (canonical (readText file))).take 12

/-! ### `_patch_agent_controller_default` -/

/-- The parts before and after the first occurrence. -/
def splitFirst (old : Text) : Text → Option (Text × Text)
  | [] => if old = [] then some ([], []) else none
  | c :: t =>
    if old <+: c :: t then some ([], (c :: t).drop old.length)
    else (splitFirst old t).map fun parts => (c :: parts.1, parts.2)

def fragment (url : Text) : Text := callee ++ ' ' :: (dumps url ++ [')'])

def patchAgentControllerDefault (agentSource controllerUrl : Text) : Except String Text :=
  match splitFirst defaultLine agentSource with
  | none => .error ("host_agent/agent.py's CONTROLLER default fragment has changed - update " ++
      "backend/agent_bundle.py's _CONTROLLER_DEFAULT_LINE/" ++
      "_patch_agent_controller_default to match.")
  | some (before, after) => .ok (before ++ (fragment controllerUrl ++ after))

/-- The candidates of `build_agent_bundle`, joined with commas. -/
def controllerUrl (addrs : List Text) (port : ℤ) : Text :=
  [','].intercalate (addrs.map fun a => "https://".toList ++ (a ++ ':' :: FstabPersist.number port))

/-- What stands between the quotes of a literal without escapes. -/
def literalBody : Text → Option Text
  | [] => none
  | ['"'] => some []
  | c :: t => if c = '"' ∨ c = '\\' ∨ c = '\n' then none else (literalBody t).map (c :: ·)

/-- The value of a Python literal in double quotes that needs no escapes; nothing is said of any
other text. -/
def literalValue : Text → Option Text
  | '"' :: t => literalBody t
  | _ => none

/-- What baking an address in has to keep. -/
structure Baked (src url patched : Text) : Prop where
  replaced : ∃ before after literal, src = before ++ (defaultLine ++ after) ∧
    patched = before ++ (callee ++ ' ' :: (literal ++ [')']) ++ after) ∧
    literalValue literal = some url
  controller : agentVersionOf digest patched = agentVersionOf digest src
  installed : sourceVersion digest patched = agentVersionOf digest src

/-! ### Addresses -/

/-- A character that json writes as itself. -/
def Plain (c : Char) : Prop := (0x20 ≤ c.toNat ∧ c.toNat < 0x7f) ∧ c ≠ '"' ∧ c ≠ '\\'

instance (c : Char) : Decidable (Plain c) := inferInstanceAs (Decidable (_ ∧ _))

theorem plain_alphanum {c : Char} (h : c.isAlphanum = true) : Plain c := by
  refine ⟨?_, ?_, ?_⟩
  · have hranges : c.isAlphanum = (decide ('A'.val ≤ c.val ∧ c.val ≤ 'Z'.val) ||
        decide ('a'.val ≤ c.val) && decide (c.val ≤ 'z'.val) ||
        decide ('0'.val ≤ c.val) && decide (c.val ≤ '9'.val)) := rfl
    rw [hranges] at h
    simp only [Bool.or_eq_true, Bool.and_eq_true, decide_eq_true_eq,
      UInt32.le_iff_toNat_le, Char.reduceVal, UInt32.reduceToNat] at h
    have hval : c.val.toNat = c.toNat := rfl
    omega
  · rintro rfl
    exact absurd h (by decide)
  · rintro rfl
    exact absurd h (by decide)

theorem plain_addrChar {c : Char} (h : addrChar c = true) : Plain c := by
  simp only [addrChar, Bool.or_eq_true, decide_eq_true_eq] at h
  rcases h with (((h | rfl) | rfl) | rfl) | rfl
  · exact plain_alphanum h
  all_goals exact ⟨by decide, by decide, by decide⟩

theorem plain_not_space {c : Char} (hc : Plain c) (hspace : c ≠ ' ') : isSpace c = false := by
  have hcode : c.toNat ≠ 0x20 := by
    intro heq
    exact hspace (Char.ext (UInt32.toNat_inj.mp heq))
  rw [Bool.eq_false_iff]
  intro h
  obtain ⟨hascii, -⟩ := hc
  simp [isSpace, PythonInt.isBlank] at h
  omega

theorem addrChar_not_space {c : Char} (h : addrChar c = true) : isSpace c = false := by
  apply plain_not_space (plain_addrChar h)
  rintro rfl
  exact absurd h (by decide)

/-- What is left of an address when its ends are stripped is still one. -/
theorem ctrlAddrRe_strip {v : Text} (h : ctrlAddrRe v = true) :
    ctrlAddrRe (stripText v) = true := by
  have hbody : ∀ b : Text, (match b with
      | [] => false
      | c :: more => c.isAlphanum && more.all addrChar) = true →
      (∀ c ∈ b, isSpace c = false) ∧ ctrlAddrRe b = true := by
    intro b hb
    cases b with
    | nil => cases hb
    | cons c more =>
      rw [Bool.and_eq_true] at hb
      have hall : ∀ d ∈ c :: more, addrChar d = true := by
        intro d hd
        rcases List.mem_cons.mp hd with rfl | hd
        · simp [addrChar, hb.1]
        · exact List.all_eq_true.mp hb.2 d hd
      have hspace := fun d hd => addrChar_not_space (hall d hd)
      refine ⟨hspace, ?_⟩
      have hlast : (c :: more).getLast? ≠ some '\n' := by
        intro hlast
        exact absurd (hspace _ (List.mem_of_getLast? hlast)) (by decide)
      rw [ctrlAddrRe, if_neg hlast]
      exact Bool.and_eq_true _ _ ▸ hb
  rw [ctrlAddrRe] at h
  by_cases hlast : v.getLast? = some '\n'
  · rw [if_pos hlast] at h
    obtain ⟨hspace, hre⟩ := hbody _ h
    have hv : v = v.dropLast ++ ['\n'] := by
      rw [← List.dropLast_append_getLast? _ hlast]
      simp
    rw [hv, stripText_concat hspace (by decide)]
    exact hre
  · rw [if_neg hlast] at h
    obtain ⟨hspace, hre⟩ := hbody _ h
    rw [stripText_of_all hspace]
    exact hre

theorem validated_ip {body : ConfigRequest} {config : Config} (h : validated body = .ok config) :
    config.ip = [] ∨ HostAddr config.ip := by
  rw [validated] at h
  split at h
  · cases h
  rename_i v hv
  have hip : config.ip = stripText v := by rw [← Except.ok.inj h]
  rw [hip]
  rw [validateIp] at hv
  split_ifs at hv with hnil hre
  · rw [← Except.ok.inj hv, hnil]
    exact .inl (stripText_of_all fun c hc => absurd hc List.not_mem_nil)
  · rw [← Except.ok.inj hv]
    exact .inr ⟨ctrlAddrRe_strip hre, stripText_stripText _⟩

/-- Where the addresses that are detected are host addresses, so are those of a bundle for any
configuration that is accepted. -/
theorem Accepted.of_route {detected : List Text} {body : ConfigRequest} {config : Config}
    {container : Bool} {isPrivate : Text → Bool}
    (h : setControllerConfigRoute detected body = .ok config)
    (hdetected : ∀ a ∈ detected, HostAddr a)
    (hne : bundleAddresses container isPrivate detected config ≠ []) :
    Accepted (bundleAddresses container isPrivate detected config) config.port := by
  rw [setControllerConfigRoute] at h
  split at h
  · cases h
  rename_i stored hstored
  split_ifs at h with hip hall hport
  obtain rfl := Except.ok.inj h
  refine ⟨hne, ?_, hport⟩
  intro a ha
  rw [bundleAddresses, resolveControllerAddresses] at ha
  split_ifs at ha with hheal hmode hempty
  · exact hdetected a ha
  · exact hdetected a ha
  · rw [List.mem_singleton.mp ha]
    exact (validated_ip hstored).resolve_left hempty
  · exact hdetected a ha

/-! ### The version -/

theorem canonical_some {t after : Text} (h : defaultCall t = some after) :
    canonical t = defaultLine ++ canonical after := by
  cases t with
  | nil => cases h
  | cons c t =>
    rw [canonical]
    split
    · rename_i rest hrest
      cases h.symm.trans hrest
      rfl
    · rename_i hnone
      cases h.symm.trans hnone

theorem canonical_none {c : Char} {t : Text} (h : defaultCall (c :: t) = none) :
    canonical (c :: t) = c :: canonical t := by
  rw [canonical]
  split
  · rename_i rest hrest
    cases h.symm.trans hrest
  · rfl

def calleeTail : Text := "s.getenv(\"SYSIBLE_CONTROLLER\",".toList

theorem callee_eq : callee = 'o' :: calleeTail := rfl

theorem closing_before (s : Text) : (∀ r, closing (s ++ (callee ++ r)) = none) ∨
    ∃ s', s'.length < s.length ∧
      ∀ r, closing (s ++ (callee ++ r)) = some (s' ++ (callee ++ r)) := by
  rcases hs : s.dropWhile (fun c => decide (c ≠ '"')) with _ | ⟨q, rest⟩
  · refine .inl fun r => ?_
    rw [closing, List.dropWhile_append, hs]
    rfl
  · have hdrop : ∀ r, (s ++ (callee ++ r)).dropWhile (fun c => decide (c ≠ '"')) =
        q :: (rest ++ (callee ++ r)) := by
      intro r
      rw [List.dropWhile_append, hs]
      rfl
    have hquote : q = '"' := by
      have hhead := List.head?_dropWhile_not (fun c => decide (c ≠ '"')) s
      rw [hs] at hhead
      simpa using hhead
    have hle := (List.dropWhile_sublist (fun c => decide (c ≠ '"')) (l := s)).length_le
    rw [hs, List.length_cons] at hle
    cases rest with
    | nil =>
      refine .inl fun r => ?_
      rw [closing, hdrop, hquote]
      rfl
    | cons d rest =>
      by_cases hd : d = ')'
      · refine .inr ⟨rest, by rw [List.length_cons] at hle; omega, fun r => ?_⟩
        rw [closing, hdrop, hquote, hd]
        rfl
      · refine .inl fun r => ?_
        rw [closing, hdrop, hquote, List.cons_append]
        split
        · rename_i after hafter
          cases hafter
          exact absurd rfl hd
        · rfl

theorem opening_before (s : Text) : (∀ r, opening (s ++ (callee ++ r)) = none) ∨
    ∃ s', s'.length < s.length ∧
      ∀ r, opening (s ++ (callee ++ r)) = some (s' ++ (callee ++ r)) := by
  rcases hs : s.dropWhile isSpace with _ | ⟨q, rest⟩
  · refine .inl fun r => ?_
    rw [opening, List.dropWhile_append, hs]
    rfl
  · have hdrop : ∀ r, (s ++ (callee ++ r)).dropWhile isSpace = q :: (rest ++ (callee ++ r)) := by
      intro r
      rw [List.dropWhile_append, hs]
      rfl
    have hle := (List.dropWhile_sublist isSpace (l := s)).length_le
    rw [hs, List.length_cons] at hle
    by_cases hquote : q = '"'
    · have hopening : ∀ r, opening (s ++ (callee ++ r)) = closing (rest ++ (callee ++ r)) := by
        intro r
        rw [opening, hdrop, hquote]
        rfl
      rcases closing_before rest with hnone | ⟨s', hlt, hsome⟩
      · exact .inl fun r => (hopening r).trans (hnone r)
      · exact .inr ⟨s', by omega, fun r => (hopening r).trans (hsome r)⟩
    · refine .inl fun r => ?_
      rw [opening, hdrop]
      split
      · rename_i body hbody
        cases hbody
        exact absurd rfl hquote
      · rfl

/-- The call does not overlap the beginning of another one: its first letter is nowhere else
in it. -/
theorem not_callee_before {s : Text} (hne : s ≠ []) (h : ¬callee <+: s) (r : Text) :
    ¬callee <+: s ++ (callee ++ r) := by
  intro hpre
  rcases Nat.lt_or_ge s.length callee.length with hlt | hge
  · have hs : s <+: callee := List.prefix_of_prefix_length_le (List.prefix_append s _) hpre hlt.le
    obtain ⟨u, hu⟩ := hs
    have hu' : u <+: callee ++ r := by
      nth_rewrite 1 [← hu] at hpre
      exact (List.prefix_append_right_inj s).mp hpre
    cases s with
    | nil => exact hne rfl
    | cons c s =>
      rw [callee_eq, List.cons_append, List.cons.injEq] at hu
      cases u with
      | nil =>
        have hlen := congrArg List.length hu.2
        rw [callee_eq, List.length_cons, List.length_cons] at hlt
        simp at hlen
        omega
      | cons d u =>
        have hd : d = 'o' := by
          rw [callee_eq] at hu'
          exact (List.cons_prefix_cons.mp hu').1
        have hmem : 'o' ∈ calleeTail := by
          rw [← hu.2, hd]
          simp
        exact absurd hmem (by decide)
  · exact h (List.prefix_of_prefix_length_le hpre (List.prefix_append s _) hge)

theorem defaultCall_before {s : Text} (hne : s ≠ []) :
    (∀ r, defaultCall (s ++ (callee ++ r)) = none) ∨ ∃ s', s'.length < s.length ∧
      ∀ r, defaultCall (s ++ (callee ++ r)) = some (s' ++ (callee ++ r)) := by
  by_cases hcallee : callee <+: s
  · obtain ⟨rest, rfl⟩ := hcallee
    have hopening : ∀ r, defaultCall (callee ++ rest ++ (callee ++ r)) =
        opening (rest ++ (callee ++ r)) := by
      intro r
      rw [List.append_assoc, defaultCall, if_pos (List.prefix_append _ _), List.drop_left]
    rcases opening_before rest with hnone | ⟨s', hlt, hsome⟩
    · exact .inl fun r => (hopening r).trans (hnone r)
    · refine .inr ⟨s', ?_, fun r => (hopening r).trans (hsome r)⟩
      rw [List.length_append]
      omega
  · refine .inl fun r => ?_
    rw [defaultCall, if_neg (not_callee_before hne hcallee r)]

/-- What stands before a call is written the same way whatever follows the call. -/
theorem canonical_before (s : Text) :
    ∃ x, ∀ r, canonical (s ++ (callee ++ r)) = x ++ canonical (callee ++ r) := by
  induction hn : s.length using Nat.strong_induction_on generalizing s with
  | _ n ih =>
    cases s with
    | nil => exact ⟨[], fun r => rfl⟩
    | cons c s =>
      rcases defaultCall_before (List.cons_ne_nil c s) with hnone | ⟨s', hlt, hsome⟩
      · obtain ⟨x, hx⟩ := ih s.length (by rw [← hn]; exact Nat.lt_succ_self _) s rfl
        refine ⟨c :: x, fun r => ?_⟩
        have hkept : canonical (c :: s ++ (callee ++ r)) = c :: canonical (s ++ (callee ++ r)) :=
          canonical_none (hnone r)
        rw [hkept, hx, List.cons_append]
      · obtain ⟨x, hx⟩ := ih s'.length (by rw [← hn]; exact hlt) s' rfl
        refine ⟨defaultLine ++ x, fun r => ?_⟩
        rw [canonical_some (hsome r), hx, List.append_assoc]

/-- Any address without a quote is replaced by the default one. -/
theorem canonical_call {body : Text} (h : '"' ∉ body) (after : Text) :
    canonical (callee ++ ' ' :: '"' :: (body ++ '"' :: ')' :: after)) =
      defaultLine ++ canonical after := by
  apply canonical_some
  have hall : ∀ c ∈ body, decide (c ≠ '"') = true := by
    intro c hc
    rw [decide_eq_true_eq]
    rintro rfl
    exact h hc
  have hclosing : closing (body ++ '"' :: ')' :: after) = some after := by
    rw [closing, List.dropWhile_append_of_pos hall]
    rfl
  rw [defaultCall, if_pos (List.prefix_append _ _), List.drop_left]
  exact hclosing

/-! ### The literal -/

theorem escapeChar_plain {c : Char} (h : Plain c) : escapeChar c = [c] := by
  obtain ⟨hascii, hquote, hback⟩ := h
  have hctl : ∀ d : Char, d.toNat < 0x20 → c ≠ d := by
    rintro d hd rfl
    omega
  rw [escapeChar, if_neg (by tauto), if_neg (hctl _ (by decide)), if_neg (hctl _ (by decide)),
    if_neg (hctl _ (by decide)), if_neg (by omega), if_neg (by omega), if_pos hascii]

theorem dumps_plain {t : Text} (h : ∀ c ∈ t, Plain c) : dumps t = '"' :: (t ++ ['"']) := by
  have hbody : t.flatMap escapeChar = t := by
    induction t with
    | nil => rfl
    | cons c t ih =>
      rw [List.flatMap_cons, escapeChar_plain (h c List.mem_cons_self),
        ih fun d hd => h d (List.mem_cons_of_mem _ hd)]
      rfl
  rw [dumps, hbody]

theorem literalBody_plain {t : Text} (h : ∀ c ∈ t, Plain c) :
    literalBody (t ++ ['"']) = some t := by
  induction t with
  | nil => rfl
  | cons c t ih =>
    obtain ⟨hascii, hquote, hback⟩ := h c List.mem_cons_self
    have hline : c ≠ '\n' := by
      rintro rfl
      exact absurd hascii.1 (by decide)
    rw [List.cons_append, literalBody, if_neg (by tauto),
      ih fun d hd => h d (List.mem_cons_of_mem _ hd)]
    · rfl
    · intro hc
      exact absurd hc hquote

theorem splitFirst_some {old t before after : Text} (h : splitFirst old t = some (before, after)) :
    t = before ++ (old ++ after) := by
  induction t generalizing before after with
  | nil =>
    rw [splitFirst] at h
    split at h
    · rename_i hold
      cases h
      rw [hold]
      rfl
    · cases h
  | cons c t ih =>
    rw [splitFirst] at h
    split at h
    · rename_i hold
      cases h
      exact (List.prefix_iff_eq_append.mp hold).symm
    · obtain ⟨parts, hparts, heq⟩ := Option.map_eq_some_iff.mp h
      cases heq
      rw [List.cons_append, ← ih hparts]

theorem splitFirst_of_infix {old t : Text} (h : old <:+: t) :
    ∃ parts, splitFirst old t = some parts := by
  induction t with
  | nil =>
    rw [List.infix_nil] at h
    exact ⟨([], []), by rw [splitFirst, if_pos h]⟩
  | cons c t ih =>
    rw [splitFirst]
    by_cases hold : old <+: c :: t
    · exact ⟨_, if_pos hold⟩
    · obtain ⟨parts, hparts⟩ := ih ((List.infix_cons_iff.mp h).resolve_left hold)
      exact ⟨_, by rw [if_neg hold, hparts]; rfl⟩

theorem plain_number {port : ℤ} (h : 0 ≤ port) : ∀ c ∈ FstabPersist.number port, Plain c := by
  obtain ⟨n, rfl⟩ := Int.eq_ofNat_of_zero_le h
  intro c hc
  have hdigits : FstabPersist.number (n : ℤ) = Nat.toDigits 10 n := String.toList_ofList
  rw [hdigits] at hc
  have hdigit := Nat.isDigit_of_mem_toDigits (b := 10) (by omega) (by omega) hc
  exact plain_alphanum (by rw [Char.isAlphanum, hdigit, Bool.or_true])

theorem plain_hostAddr {a : Text} (h : HostAddr a) : ∀ c ∈ a, Plain c := by
  obtain ⟨hre, hstrip⟩ := h
  have hlast : a.getLast? ≠ some '\n' := by
    intro hlast
    rw [← hstrip] at hlast
    exact absurd (FstabPersist.last_stripText hlast) (by decide)
  rw [ctrlAddrRe, if_neg hlast] at hre
  cases a with
  | nil => cases hre
  | cons c more =>
    rw [Bool.and_eq_true, List.all_eq_true] at hre
    intro d hd
    rcases List.mem_cons.mp hd with rfl | hd
    · exact plain_alphanum hre.1
    · exact plain_addrChar (hre.2 d hd)

theorem plain_intercalate {parts : List Text} (h : ∀ part ∈ parts, ∀ c ∈ part, Plain c) :
    ∀ c ∈ [','].intercalate parts, Plain c := by
  intro c hc
  rcases Splitting.mem_intercalate hc with rfl | ⟨part, hpart, hmem⟩
  · exact ⟨by decide, by decide, by decide⟩
  · exact h part hpart c hmem

theorem plain_controllerUrl {addrs : List Text} {port : ℤ} (h : Accepted addrs port) :
    ∀ c ∈ controllerUrl addrs port, Plain c := by
  have hport := plain_number (Int.le_trans (by decide) h.port.1)
  have hcandidate : ∀ a ∈ addrs, ∀ c ∈ "https://".toList ++ (a ++ ':' :: FstabPersist.number port),
      Plain c := by
    intro a ha c hc
    rw [List.mem_append, List.mem_append, List.mem_cons] at hc
    rcases hc with hc | hc | rfl | hc
    · have hscheme : ("https://".toList.all fun d => Plain d) = true := by decide
      exact of_decide_eq_true (List.all_eq_true.mp hscheme c hc)
    · exact plain_hostAddr (h.address a ha) c hc
    · exact ⟨by decide, by decide, by decide⟩
    · exact hport c hc
  rw [controllerUrl]
  apply plain_intercalate
  intro part hpart
  obtain ⟨a, ha, rfl⟩ := List.mem_map.mp hpart
  exact hcandidate a ha

def localUrl : Text := "https://127.0.0.1:9000".toList

theorem localUrl_plain : '"' ∉ localUrl := by decide

theorem defaultLine_eq : defaultLine = callee ++ ' ' :: '"' :: (localUrl ++ ['"', ')']) := by decide

theorem canonical_fragment {url : Text} (h : ∀ c ∈ url, Plain c) (before after : Text) :
    canonical (before ++ (fragment url ++ after)) =
      canonical (before ++ (defaultLine ++ after)) := by
  have hquote : '"' ∉ url := fun hmem => (h _ hmem).2.1 rfl
  have hfragment : fragment url ++ after =
      callee ++ (' ' :: '"' :: (url ++ '"' :: ')' :: after)) := by
    simp only [fragment, dumps_plain h, List.append_assoc, List.cons_append, List.nil_append]
  have hdefault : defaultLine ++ after =
      callee ++ (' ' :: '"' :: (localUrl ++ '"' :: ')' :: after)) := by
    rw [defaultLine_eq]
    simp only [List.append_assoc, List.cons_append, List.nil_append]
  obtain ⟨x, hx⟩ := canonical_before before
  rw [hfragment, hdefault, hx, hx, canonical_call hquote, canonical_call localUrl_plain]

theorem return_fragment {url : Text} (h : ∀ c ∈ url, Plain c) : '\r' ∉ fragment url := by
  have hurl : '\r' ∉ url := fun hmem => absurd (h _ hmem).1.1 (by decide)
  rw [fragment, dumps_plain h]
  simp only [List.mem_append, List.mem_cons, List.not_mem_nil, or_false, not_or]
  exact ⟨by decide, by decide, ⟨by decide, hurl, by decide⟩, by decide⟩

theorem readText_no_return (t : Text) : '\r' ∉ readText t := by
  rw [readText]
  induction t using translateNewlines.induct with
  | case1 => exact List.not_mem_nil
  | case2 t ih =>
    rw [translateNewlines, List.mem_cons, not_or]
    exact ⟨by decide, ih⟩
  | case3 c t hpair ih =>
    rw [translateNewlines.eq_3 _ _ hpair, List.mem_cons, not_or]
    refine ⟨?_, ih⟩
    by_cases hc : c = '\r'
    · rw [if_pos hc]
      decide
    · rw [if_neg hc]
      exact Ne.symm hc

theorem readText_of_return {t : Text} (h : '\r' ∉ t) : readText t = t := by
  have happ := translateNewlines_append h []
  rwa [List.append_nil, translateNewlines, List.append_nil] at happ

/-- The address that is written in differs from the default one only between the quotes. -/
theorem baked {digest : Text → Text} {src url before after : Text}
    (hsplit : src = before ++ (defaultLine ++ after)) (hreturn : '\r' ∉ src)
    (hurl : ∀ c ∈ url, Plain c) : Baked digest src url (before ++ (fragment url ++ after)) := by
  have hcanonical : canonical (before ++ (fragment url ++ after)) = canonical src := by
    rw [hsplit, canonical_fragment hurl]
  refine ⟨⟨before, after, dumps url, hsplit, rfl, ?_⟩, ?_, ?_⟩
  · rw [dumps_plain hurl]
    exact literalBody_plain hurl
  · rw [agentVersionOf, agentVersionOf, hcanonical]
  · have hfile : '\r' ∉ before ++ (fragment url ++ after) := by
      rw [hsplit, List.mem_append, List.mem_append, not_or, not_or] at hreturn
      rw [List.mem_append, List.mem_append, not_or, not_or]
      exact ⟨hreturn.1, return_fragment hurl, hreturn.2.2⟩
    rw [sourceVersion, readText_of_return hfile, agentVersionOf, hcanonical]

/-- Whatever the file of the agent holds around the default address, a bundle for addresses that
are accepted has it replaced once, and neither side sees another version. -/
theorem baking_keeps_version (digest : Text → Text) (file : Text) (addrs : List Text) (port : ℤ)
    (hdefault : defaultLine <:+: readText file) (haccepted : Accepted addrs port) :
    ∃ patched, patchAgentControllerDefault (readText file) (controllerUrl addrs port) =
      .ok patched ∧ Baked digest (readText file) (controllerUrl addrs port) patched := by
  obtain ⟨⟨before, after⟩, hsplit⟩ := splitFirst_of_infix hdefault
  refine ⟨before ++ (fragment (controllerUrl addrs port) ++ after), ?_, ?_⟩
  · rw [patchAgentControllerDefault, hsplit]
  · exact baked (splitFirst_some hsplit) (readText_no_return file) (plain_controllerUrl haccepted)

theorem default_address_baked : ∃ patched,
    patchAgentControllerDefault (readText defaultLine)
      (controllerUrl ["10.0.0.5".toList, "ctl-2".toList] 9000) = .ok patched ∧
    Baked (fun t => t) (readText defaultLine)
      (controllerUrl ["10.0.0.5".toList, "ctl-2".toList] 9000) patched :=
  baking_keeps_version _ _ _ _ ⟨[], [], by decide⟩ ⟨by decide, by decide, by decide⟩

end AgentBundle
