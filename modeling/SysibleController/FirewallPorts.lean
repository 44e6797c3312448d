import SysibleController.PythonStrip
import SysibleController.ShellCommands

/-! Opening and closing ports (`cmd_open_port`, `cmd_close_port`, `cmd_fw_allow_port`,
`cmd_fw_close_port`): the text of the port is checked as numbers and then put into the command as
it is. -/
namespace FirewallPorts

open PathText PythonText PythonInt ShellQuote ShellReader

def portNumber (label : String) (p : Text) : Except String ℕ :=
  match pyInt p with
  | none => .error s!"{label} must be numeric."
  | some n =>
    if 1 ≤ n ∧ n ≤ 65535 then .ok n.toNat else .error s!"{label} must be between 1 and 65535."

/-- The numbers of a port specification: one port, or both ends of a range. -/
def portNumbers (label : String) (value : Text) : Except String (List ℕ) :=
  match value.splitOn '-' with
  | [p] => do return [← portNumber label p]
  | [p, q] => do
    let lo ← portNumber label p
    let hi ← portNumber label q
    if hi ≤ lo then throw s!"{label} range must have a lower start than end."
    return [lo, hi]
  | _ => .error s!"{label} must be a single port or a range like 8000-9000."

def validatePortSpec (label : String) (value : Text) : Except String Text :=
  let v := stripText value
  if v = [] then .error s!"{label} is required."
  else (portNumbers label v).map fun _ => v

def validProtocols : List Text := ["tcp".toList, "udp".toList]

def validateProtocol (value : Text) : Except String Text :=
  let v := (lower (String.ofList (stripText value))).toList
  if v ∈ validProtocols then .ok v else .error "Protocol must be one of: tcp, udp"

/-- `_port_both_ways`: the forms for firewalld and for ufw. -/
def portBothWays (value : Text) : Except String (Text × Text) := do
  let raw := stripText value
  if raw = [] then throw "Port is required."
  let normalised := raw.map fun c => if c = ':' then '-' else c
  let _ ← validatePortSpec "Port" normalised
  return (normalised, normalised.map fun c => if c = '-' then ':' else c)

/-! ### The commands -/

def firewalldMissing : Text :=
  text ["if ! command -v firewall-cmd >/dev/null 2>&1; then ",
    "echo 'firewalld is not installed on this host (package: firewalld).' >&2; exit 1; fi; ",
    "_fwver=$(firewall-cmd --version 2>&1); _fwrc=$?; ",
    "if [ \"$_fwrc\" -ne 0 ] && printf '%s' \"$_fwver\" | ",
    "grep -qiE \"gi\\.repository|no module named '?gi\"; then ",
    "echo \"firewall-cmd is installed but its Python GObject bindings ",
    "('gi') are missing.\" >&2; ",
    "echo 'Install them - openSUSE/SUSE: sudo zypper install python3-gobject; ",
    "Fedora/RHEL: sudo dnf install python3-gobject; ",
    "Debian/Ubuntu: sudo apt install python3-gi' >&2; exit 1; fi; "]

def zoneFlag (zone : Text) : Text :=
  if zone = [] then [] else "--zone=".toList ++ quote zone ++ " ".toList

def zoneSuffix (zone : Text) : Text := if zone = [] then [] else " in zone ".toList ++ zone

/-- The options of the call, and the reload of a permanent one. -/
def portOption (option : String) (permanent : Bool) (port protocol : Text) : Text :=
  (if permanent then "--permanent ".toList else []) ++ option.toList ++
    quote (port ++ "/".toList ++ protocol) ++ " 2>&1".toList ++
    if permanent then " && firewall-cmd --reload 2>&1".toList else []

/-- The message, up to the zone. -/
def portMessage (past : String) (port protocol : Text) : Text :=
  " && echo '".toList ++ past.toList ++ " port ".toList ++ port ++ "/".toList ++ protocol

def portText (option past : String) (permanent : Bool) (port protocol zone : Text) : Text :=
  firewalldMissing ++ "firewall-cmd ".toList ++ (zoneFlag zone ++
    (portOption option permanent port protocol ++
      (portMessage past port protocol ++ (zoneSuffix zone ++ ".'".toList))))

def portCommand (option past : String) (port protocol zone : Text) (permanent : Bool) :
    Except String Text := do
  let p ← validatePortSpec "Port" port
  let proto ← validateProtocol protocol
  return portText option past permanent p proto (stripText zone)

def cmdOpenPort (port protocol zone : Text) (permanent : Bool) : Except String Text :=
  portCommand "--add-port=" "Opened" port protocol zone permanent

def cmdClosePort (port protocol zone : Text) (permanent : Bool) : Except String Text :=
  portCommand "--remove-port=" "Closed" port protocol zone permanent

def fwLive : Text :=
  text ["_fw_live() \x7b case \"$1\" in ",
    "firewalld) command -v firewall-cmd >/dev/null 2>&1 || return 1; ",
    "systemctl is-active --quiet firewalld 2>/dev/null && return 0; ",
    "firewall-cmd --state >/dev/null 2>&1 && return 0; return 1 ;; ",
    "ufw) command -v ufw >/dev/null 2>&1 || return 1; ",
    "systemctl is-active --quiet ufw 2>/dev/null && return 0; ",
    "ufw status 2>/dev/null | grep -qi 'Status: active' && return 0; return 1 ;; ",
    "esac; return 1; \x7d; "]

def fwPick : Text :=
  fwLive ++ text ["_fw_pick() \x7b ",
    "if _fw_live firewalld; then echo firewalld; return; fi; ",
    "if _fw_live ufw; then echo ufw; return; fi; ",
    "for _u in firewalld ufw; do ",
    "if systemctl is-enabled --quiet \"$_u\" 2>/dev/null; then echo \"$_u\"; return; fi; done; ",
    "if command -v firewall-cmd >/dev/null 2>&1; then echo firewalld; return; fi; ",
    "if command -v ufw >/dev/null 2>&1; then echo ufw; return; fi; ",
    "echo none; \x7d; "]

def noFirewall : Text :=
  text ["echo 'No firewall is installed on this host. Install one from the Firewalld ",
    "or ufw tab - firewalld on RHEL/Rocky/Fedora/SUSE, ufw on Debian/Ubuntu.' >&2; ",
    "exit 1"]

def fwText (option verb past : String) (fwd ufw protocol : Text) : Text :=
  fwPick ++ "_b=$(_fw_pick); case \"$_b\" in firewalld) firewall-cmd --permanent ".toList ++
    option.toList ++ fwd ++ "/".toList ++ protocol ++
    " 2>&1 && firewall-cmd --reload >/dev/null 2>&1 && echo '".toList ++ past.toList ++
    " ".toList ++ fwd ++ "/".toList ++ protocol ++ " (firewalld, permanent).' ;; ufw) ufw ".toList ++
    verb.toList ++ " ".toList ++ ufw ++ "/".toList ++ protocol ++ " 2>&1 && echo '".toList ++
    past.toList ++ " ".toList ++ ufw ++ "/".toList ++ protocol ++ " (ufw).' ;; *) ".toList ++
    noFirewall ++ " ;; esac".toList

def fwCommand (option verb past : String) (port protocol : Text) : Except String Text := do
  let (fwd, ufw) ← portBothWays port
  let proto ← validateProtocol protocol
  return fwText option verb past fwd ufw proto

def cmdFwAllowPort (port protocol : Text) : Except String Text :=
  fwCommand "--add-port=" "allow" "Opened" port protocol

def cmdFwClosePort (port protocol : Text) : Except String Text :=
  fwCommand "--remove-port=" "delete allow" "Closed" port protocol

/-! ### Ports as data -/

def decimal (n : ℕ) : Text := Nat.toDigits 10 n

def range (sep : Char) (nums : List ℕ) : Text := [sep].intercalate (nums.map decimal)

/-- The text is the decimal form of the ports that it was checked as. -/
def Canonical (value : Text) : Prop :=
  ∃ nums, portNumbers "Port" value = .ok nums ∧ value = range '-' nums

/-- Read from within single quotes up to the end of the message, the zone adds no token to the
command, and the quotes are closed. -/
def ZoneFits (zone : Text) : Prop :=
  parseFrom inSingle (zone ++ ".'".toList) = parseFrom inSingle "public.'".toList

variable {x y value port port' protocol protocol' zone zone' option past verb : Text} {c : Char}
  {nums : List ℕ}

/-- Between two words of a command. -/
def atCommand : Place := (start, .nothing)

/-! ### Decimal texts -/

theorem isDigit_of_mem_range {sep : Char} (h : c ∈ range sep nums) : c.isDigit = true ∨ c = sep := by
  induction nums with
  | nil => exact nomatch h
  | cons n rest ih =>
    cases rest with
    | nil =>
      have hc : c ∈ decimal n := by simpa [range] using h
      exact .inl (Nat.isDigit_of_mem_toDigits (by decide) (by decide) hc)
    | cons m rest =>
      have hsplit : range sep (n :: m :: rest) = decimal n ++ sep :: range sep (m :: rest) := by
        simp [range]
      rw [hsplit, List.mem_append, List.mem_cons] at h
      rcases h with hc | hc | hc
      · exact .inl (Nat.isDigit_of_mem_toDigits (by decide) (by decide) hc)
      · exact .inr hc
      · exact ih hc

/-- The form for ufw of a decimal text. -/
theorem map_range (nums : List ℕ) :
    (range '-' nums).map (fun c => if c = '-' then ':' else c) = range ':' nums := by
  have hdec : ∀ n, (decimal n).map (fun c => if c = '-' then ':' else c) = decimal n := by
    intro n
    conv_rhs => rw [← List.map_id (decimal n)]
    refine List.map_congr_left fun c hc => if_neg ?_
    rintro rfl
    exact absurd (Nat.isDigit_of_mem_toDigits (by decide) (by decide) hc) (by decide)
  induction nums with
  | nil => rfl
  | cons n rest ih =>
    cases rest with
    | nil => simpa [range] using hdec n
    | cons m rest =>
      have hsplit : ∀ sep, range sep (n :: m :: rest) =
          decimal n ++ sep :: range sep (m :: rest) := fun sep => by simp [range]
      rw [hsplit, hsplit, List.map_append, List.map_cons, hdec, ih]
      rfl

theorem ordinary_of_digit (h : c.isDigit = true) : ordinary c = true :=
  ordinary_of_safe (by simp [safe, Char.isAlphanum, h])

theorem range_within_word {sep : Char} (hsep : sep = '-' ∨ sep = ':') (nums : List ℕ) :
    Within inWord (range sep nums) := by
  refine within_word fun c hc => ?_
  rcases isDigit_of_mem_range hc with hd | rfl
  · exact ordinary_of_digit hd
  · rcases hsep with rfl | rfl <;> decide

theorem range_within_single {sep : Char} (hsep : sep = '-' ∨ sep = ':') (nums : List ℕ) :
    Within inSingle (range sep nums) := by
  refine within_single fun hc => ?_
  rcases isDigit_of_mem_range hc with hd | rfl
  · exact absurd hd (by decide)
  · rcases hsep with h | h <;> exact absurd h (by decide)

theorem protocol_within (h : protocol ∈ validProtocols) :
    Within inWord protocol ∧ Within inSingle protocol := by
  simp only [validProtocols, List.mem_cons, List.not_mem_nil, or_false] at h
  rcases h with rfl | rfl <;> exact ⟨by decide, by decide⟩

/-! ### Commands of firewalld -/

theorem head_alike : Alike atCommand (firewalldMissing ++ "firewall-cmd ".toList)
    (firewalldMissing ++ "firewall-cmd ".toList) atCommand := by
  have hmissing : Alike atCommand firewalldMissing firewalldMissing atCommand :=
    .fixed_text (by decide +kernel)
  exact hmissing.append (.fixed (by decide))

theorem zoneFlag_alike (hz : zone ≠ []) (hz' : zone' ≠ []) :
    Alike atCommand (zoneFlag zone) (zoneFlag zone') atCommand := by
  have hzone : Alike atCommand "--zone=".toList "--zone=".toList inWord := .fixed (by decide)
  have hend : Alike inWord " ".toList " ".toList atCommand := .fixed (by decide)
  rw [zoneFlag, zoneFlag, if_neg hz, if_neg hz']
  exact (hzone.append ((within_quote zone).alike (within_quote zone'))).append hend

/-- The option that opens or closes a port, and the word of the message for it. -/
structure Verb where
  option : String
  past : String
  option_word : leadsTo inWord atCommand option.toList = true
  past_single : '\'' ∉ past.toList

def opening : Verb := ⟨"--add-port=", "Opened", by decide, by decide⟩

def closing : Verb := ⟨"--remove-port=", "Closed", by decide, by decide⟩

theorem portOption_alike (v : Verb) (permanent : Bool) :
    Alike atCommand (portOption v.option permanent port protocol)
      (portOption v.option permanent port' protocol') inWord := by
  have hflag : Alike atCommand (if permanent then "--permanent ".toList else [])
      (if permanent then "--permanent ".toList else []) atCommand := by
    cases permanent <;> exact .fixed (by decide)
  have hoption : Alike atCommand v.option.toList v.option.toList inWord := .fixed v.option_word
  have hspec := (within_quote (port ++ "/".toList ++ protocol)).alike
    (within_quote (port' ++ "/".toList ++ protocol'))
  have hend : Alike inWord " 2>&1".toList " 2>&1".toList inWord := .fixed (by decide)
  have hreload : Alike inWord (if permanent then " && firewall-cmd --reload 2>&1".toList else [])
      (if permanent then " && firewall-cmd --reload 2>&1".toList else []) inWord := by
    cases permanent <;> exact .fixed (by decide)
  exact (((hflag.append hoption).append hspec).append hend).append hreload

theorem portMessage_alike (v : Verb) (hport : Within inSingle port) (hport' : Within inSingle port')
    (hproto : Within inSingle protocol) (hproto' : Within inSingle protocol') :
    Alike inWord (portMessage v.past port protocol) (portMessage v.past port' protocol') inSingle := by
  have hecho : Alike inWord " && echo '".toList " && echo '".toList inSingle := .fixed (by decide)
  have hpast := (within_single v.past_single).alike (within_single v.past_single)
  have hword : Alike inSingle " port ".toList " port ".toList inSingle := .fixed (by decide)
  have hslash : Alike inSingle "/".toList "/".toList inSingle := .fixed (by decide)
  exact ((((hecho.append hpast).append hword).append (hport.alike hport')).append hslash).append
    (hproto.alike hproto')

/-- Where both zones are given, the rest of the message decides. -/
theorem portText_zone_iff (v : Verb) (permanent : Bool) (hport : Within inSingle port)
    (hport' : Within inSingle port') (hproto : Within inSingle protocol)
    (hproto' : Within inSingle protocol') (hz : zone ≠ []) (hz' : zone' ≠ []) :
    parse (portText v.option v.past permanent port protocol zone) =
        parse (portText v.option v.past permanent port' protocol' zone') ↔
      parseFrom inSingle (zone ++ ".'".toList) = parseFrom inSingle (zone' ++ ".'".toList) := by
  have hin : Alike inSingle " in zone ".toList " in zone ".toList inSingle := .fixed (by decide)
  have hall := (((head_alike.append (zoneFlag_alike hz hz')).append
    (@portOption_alike port port' protocol protocol' v permanent)).append
    (portMessage_alike v hport hport' hproto hproto')).append hin
  rw [← hall.parseFrom_iff]
  simp only [parse, atCommand, portText, zoneSuffix, if_neg hz, if_neg hz', List.append_assoc]

/-- Without a zone the command has a word less. -/
theorem portText_blank_ne (v : Verb) (permanent : Bool) (hport : Within inSingle port)
    (hport' : Within inSingle port') (hproto : Within inSingle protocol)
    (hproto' : Within inSingle protocol') :
    parse (portText v.option v.past permanent port protocol []) ≠
      parse (portText v.option v.past permanent port' protocol' "public".toList) := by
  have hsuffix : Within inSingle (zoneSuffix "public".toList) := by decide
  have hsuffix' : Within inSingle (zoneSuffix []) := by decide
  have hend : Alike inSingle ".'".toList ".'".toList inWord := .fixed (by decide)
  have hrest := ((@portOption_alike port port' protocol protocol' v permanent).append
    ((portMessage_alike v hport hport' hproto hproto').append
      ((hsuffix'.alike hsuffix).append hend))).1
  have hflag : scan atCommand (zoneFlag "public".toList) = (atCommand, [.word]) := by decide
  have hhead := head_alike.2
  have hnone : zoneFlag [] = [] := rfl
  intro h
  have htokens := congrArg List.length (congrArg Prod.fst h)
  have hstart : ((start, .nothing) : Place) = atCommand := rfl
  simp only [parse_fst, portText, hnone, List.nil_append, hstart] at htokens
  rw [scan_append atCommand (firewalldMissing ++ _), scan_append atCommand (firewalldMissing ++ _),
    hhead, scan_append atCommand (zoneFlag _), hflag, hrest] at htokens
  simp only [List.length_append, List.length_singleton] at htokens
  omega

/-! ### Whole calls -/

theorem spec_of_ok {label : String} {v : Text} (h : validatePortSpec label port = .ok v) :
    v = stripText port := by
  simp only [validatePortSpec] at h
  split_ifs at h
  cases hn : portNumbers label (stripText port) with
  | error e => simp [hn, Except.map] at h
  | ok nums => simpa [hn, Except.map, eq_comm] using h

theorem protocol_of_ok {v : Text} (h : validateProtocol protocol = .ok v) : v ∈ validProtocols := by
  simp only [validateProtocol] at h
  split_ifs at h with hmem
  exact Except.ok.inj h ▸ hmem

theorem portCommand_cases (v : Verb) {permanent : Bool} {cmd : Text}
    (h : portCommand v.option v.past port protocol zone permanent = .ok cmd) :
    ∃ proto ∈ validProtocols, cmd =
      portText v.option v.past permanent (stripText port) proto (stripText zone) := by
  unfold portCommand at h
  cases hp : validatePortSpec "Port" port with
  | error e => simp [hp, bind, Except.bind] at h
  | ok p =>
    cases hq : validateProtocol protocol with
    | error e => simp [hp, hq, bind, Except.bind] at h
    | ok proto =>
      simp only [hp, hq, bind, Except.bind, pure, Except.pure, Except.ok.injEq] at h
      refine ⟨proto, protocol_of_ok hq, ?_⟩
      rw [← h, spec_of_ok hp]

theorem portCommand_22 {option past : String} {permanent : Bool} (hz : stripText zone = zone) :
    portCommand option past "22".toList "tcp".toList zone permanent =
      .ok (portText option past permanent "22".toList "tcp".toList zone) := by
  have hport : validatePortSpec "Port" "22".toList = .ok "22".toList := by decide
  have hproto : validateProtocol "tcp".toList = .ok "tcp".toList := by decide
  rw [portCommand, hport, hproto, hz]
  rfl

/-- The port is data in a command: it is split as for port 22 over tcp in the public zone, and the
port is the decimal form of what was checked. -/
def PortIsData (build : Text → Text → Text → Except String Text) (port cmd : Text) : Prop :=
  (∀ ref, build "22".toList "tcp".toList "public".toList = .ok ref → parse cmd = parse ref) ∧
    Canonical (stripText port)

/-- The condition on the port and on the zone. -/
def Plain (port zone : Text) : Prop :=
  Canonical (stripText port) ∧ stripText zone ≠ [] ∧ ZoneFits (stripText zone)

theorem portCommand_data_iff (v : Verb) {permanent : Bool} {cmd : Text}
    (h : portCommand v.option v.past port protocol zone permanent = .ok cmd) :
    PortIsData (fun p q z => portCommand v.option v.past p q z permanent) port cmd ↔
      Plain port zone := by
  have href : portCommand v.option v.past "22".toList "tcp".toList "public".toList permanent =
      .ok (portText v.option v.past permanent "22".toList "tcp".toList "public".toList) :=
    portCommand_22 (by decide)
  obtain ⟨proto, hmem, rfl⟩ := portCommand_cases v h
  have hproto := (protocol_within hmem).2
  have htcp : Within inSingle "tcp".toList := by decide
  have h22 : Within inSingle "22".toList := by decide
  simp only [PortIsData, Plain, href, Except.ok.injEq, forall_eq']
  rw [and_comm]
  refine and_congr_right fun hcanonical => ?_
  obtain ⟨nums, -, hrange⟩ := hcanonical
  have hport : Within inSingle (stripText port) := hrange ▸ range_within_single (.inl rfl) nums
  by_cases hz : stripText zone = []
  · rw [hz]
    exact iff_of_false (portText_blank_ne v permanent hport h22 hproto htcp) fun h => h.1 rfl
  · rw [portText_zone_iff v permanent hport h22 hproto htcp hz (by decide), ZoneFits]
    exact (and_iff_right hz).symm

/-! ### Commands of either firewall -/

/-- The words of the two commands for a port on whichever firewall a host uses. -/
structure FwVerb where
  option : String
  verb : String
  past : String
  option_word : leadsTo inWord atCommand option.toList = true
  verb_word : leadsTo inWord atCommand verb.toList = true
  past_single : '\'' ∉ past.toList

def allowing : FwVerb := ⟨"--add-port=", "allow", "Opened", by decide, by decide, by decide⟩

def shutting : FwVerb :=
  ⟨"--remove-port=", "delete allow", "Closed", by decide, by decide, by decide⟩

theorem fwText_alike (v : FwVerb) {f f' u u' : Text} (hf : Within inWord f) (hf' : Within inWord f')
    (hfs : Within inSingle f) (hfs' : Within inSingle f') (hu : Alike atCommand u u' inWord)
    (hus : Within inSingle u) (hus' : Within inSingle u')
    (hp : protocol ∈ validProtocols) (hp' : protocol' ∈ validProtocols) :
    ∃ τ, Alike atCommand (fwText v.option v.verb v.past f u protocol)
      (fwText v.option v.verb v.past f' u' protocol') τ := by
  have hlive : Alike atCommand fwLive fwLive atCommand := .fixed_text (by decide +kernel)
  have hpick : Alike atCommand fwPick fwPick atCommand :=
    hlive.append (.fixed_text (by decide +kernel))
  have hcase : Alike atCommand
      "_b=$(_fw_pick); case \"$_b\" in firewalld) firewall-cmd --permanent ".toList
      "_b=$(_fw_pick); case \"$_b\" in firewalld) firewall-cmd --permanent ".toList atCommand :=
    .fixed (by decide +kernel)
  have hoption : Alike atCommand v.option.toList v.option.toList inWord := .fixed v.option_word
  have hslash : Alike inWord "/".toList "/".toList inWord := .fixed (by decide)
  have hslashs : Alike inSingle "/".toList "/".toList inSingle := .fixed (by decide)
  have hproto := (protocol_within hp).1.alike (protocol_within hp').1
  have hprotos := (protocol_within hp).2.alike (protocol_within hp').2
  have hreload : Alike inWord
      " 2>&1 && firewall-cmd --reload >/dev/null 2>&1 && echo '".toList
      " 2>&1 && firewall-cmd --reload >/dev/null 2>&1 && echo '".toList inSingle :=
    .fixed (by decide +kernel)
  have hpast := (within_single v.past_single).alike (within_single v.past_single)
  have hspace : Alike inSingle " ".toList " ".toList inSingle := .fixed (by decide)
  have hufw : Alike inSingle " (firewalld, permanent).' ;; ufw) ufw ".toList
      " (firewalld, permanent).' ;; ufw) ufw ".toList atCommand := .fixed (by decide +kernel)
  have hverb : Alike atCommand v.verb.toList v.verb.toList inWord := .fixed v.verb_word
  have hgap : Alike inWord " ".toList " ".toList atCommand := .fixed (by decide)
  have hecho : Alike inWord " 2>&1 && echo '".toList " 2>&1 && echo '".toList inSingle :=
    .fixed (by decide)
  have helse : Alike inSingle " (ufw).' ;; *) ".toList " (ufw).' ;; *) ".toList atCommand :=
    .fixed (by decide)
  have hnone : Alike atCommand noFirewall noFirewall inWord := .fixed_text (by decide +kernel)
  have hesac : Alike inWord " ;; esac".toList " ;; esac".toList inWord := .fixed (by decide)
  have hfwd := ((((hpick.append hcase).append hoption).append (hf.alike hf')).append hslash).append
    hproto
  have hopened := (((((hfwd.append hreload).append hpast).append hspace).append
    (hfs.alike hfs')).append hslashs).append hprotos
  have hallow := (((((hopened.append hufw).append hverb).append hgap).append hu).append
    hslash).append hproto
  have hdone := (((((hallow.append hecho).append hpast).append hspace).append
    (hus.alike hus')).append hslashs).append hprotos
  exact ⟨_, ((hdone.append helse).append hnone).append hesac⟩

theorem range_alike {sep : Char} (hsep : sep = '-' ∨ sep = ':') {nums nums' : List ℕ}
    (h : range sep nums ≠ []) (h' : range sep nums' ≠ []) :
    Alike atCommand (range sep nums) (range sep nums') inWord := by
  have hordinary : ∀ ms : List ℕ, ∀ ch ∈ range sep ms, ordinary ch = true := by
    intro ms ch hch
    rcases isDigit_of_mem_range hch with hd | rfl
    · exact ordinary_of_digit hd
    · rcases hsep with rfl | rfl <;> decide
  have hscan := scan_ordinary (hordinary nums) h
  have hscan' := scan_ordinary (hordinary nums') h'
  exact ⟨hscan.trans hscan'.symm, by rw [atCommand, hscan]⟩

/-- The text of a port as both firewalls are given it. -/
def normalised (port : Text) : Text := (stripText port).map fun c => if c = ':' then '-' else c

def ufwForm (fwd : Text) : Text := fwd.map fun c => if c = '-' then ':' else c

theorem fwCommand_cases (v : FwVerb) {cmd : Text}
    (h : fwCommand v.option v.verb v.past port protocol = .ok cmd) :
    ∃ proto ∈ validProtocols, normalised port ≠ [] ∧ cmd =
      fwText v.option v.verb v.past (normalised port) (ufwForm (normalised port)) proto := by
  unfold fwCommand portBothWays at h
  by_cases hraw : stripText port = []
  · simp [hraw, bind, Except.bind, throw, throwThe, MonadExceptOf.throw] at h
  · cases hp : validatePortSpec "Port" (normalised port) with
    | error e =>
      rw [normalised] at hp
      simp [hraw, hp, bind, Except.bind] at h
    | ok p =>
      rw [normalised] at hp
      cases hq : validateProtocol protocol with
      | error e => simp [hraw, hp, hq, bind, Except.bind, pure, Except.pure] at h
      | ok proto =>
        simp only [hraw, hp, hq, bind, Except.bind, pure, Except.pure, if_false,
          Except.ok.injEq] at h
        refine ⟨proto, protocol_of_ok hq, ?_, h.symm⟩
        simpa [normalised] using hraw

/-- The same for a port on whichever firewall a host uses: both forms are decimal. -/
def FwPortIsData (build : Text → Text → Except String Text) (port cmd : Text) : Prop :=
  (∀ ref, build "22".toList "tcp".toList = .ok ref → parse cmd = parse ref) ∧
    ∃ nums, portNumbers "Port" (normalised port) = .ok nums ∧ normalised port = range '-' nums ∧
      ufwForm (normalised port) = range ':' nums

theorem range_single (sep : Char) (n : ℕ) : range sep [n] = decimal n := by
  simp only [range, List.map_cons, List.map_nil, List.intercalate_singleton]

theorem portBothWays_22 : portBothWays "22".toList = .ok ("22".toList, "22".toList) := by
  decide +kernel

theorem fwCommand_22 (v : FwVerb) : fwCommand v.option v.verb v.past "22".toList "tcp".toList =
    .ok (fwText v.option v.verb v.past "22".toList "22".toList "tcp".toList) := by
  have htcp : validateProtocol "tcp".toList = .ok "tcp".toList := by decide +kernel
  simp only [fwCommand, portBothWays_22, htcp, bind, Except.bind, pure, Except.pure]

/-- A decimal port reads as "22" does: nothing in it ends the word it stands in. -/
theorem fwText_parse (v : FwVerb) {nums : List ℕ} (h : range ':' nums ≠ [])
    (hp : protocol ∈ validProtocols) :
    parse (fwText v.option v.verb v.past (range '-' nums) (range ':' nums) protocol) =
      parse (fwText v.option v.verb v.past "22".toList "22".toList "tcp".toList) := by
  have h22 : decimal 22 = "22".toList := by decide +kernel
  have hword : Within inWord "22".toList := by decide
  have hsingle : Within inSingle "22".toList := by decide
  have htcp : "tcp".toList ∈ validProtocols := by decide
  have hu : Alike atCommand (range ':' nums) (range ':' [22]) inWord := by
    refine range_alike (.inr rfl) h ?_
    rw [range_single, h22]
    decide
  rw [range_single, h22] at hu
  obtain ⟨τ, hτ⟩ := fwText_alike v (range_within_word (.inl rfl) nums) hword
    (range_within_single (.inl rfl) nums) hsingle hu (range_within_single (.inr rfl) nums)
    hsingle hp htcp
  exact hτ.parse

theorem fwCommand_data_iff (v : FwVerb) {cmd : Text}
    (h : fwCommand v.option v.verb v.past port protocol = .ok cmd) :
    FwPortIsData (fwCommand v.option v.verb v.past) port cmd ↔ Canonical (normalised port) := by
  obtain ⟨proto, hmem, hne, hcmd⟩ := fwCommand_cases v h
  constructor
  · intro ⟨_, nums, hnums, hrange, _⟩
    exact ⟨nums, hnums, hrange⟩
  · intro ⟨nums, hnums, hrange⟩
    have hufw : ufwForm (normalised port) = range ':' nums := by
      rw [hrange]
      exact map_range nums
    have hsome : range ':' nums ≠ [] := by
      rw [← hufw]
      simpa [ufwForm] using hne
    refine ⟨fun ref href => ?_, nums, hnums, hrange, hufw⟩
    rw [hufw, hrange] at hcmd
    have hparse := fwText_parse v hsome hmem
    rw [← hcmd, Except.ok.inj ((fwCommand_22 v).symm.trans href)] at hparse
    exact hparse

/-! ### The four builders -/

inductive Call where
  | openPort (zone : Text) (permanent : Bool)
  | closePort (zone : Text) (permanent : Bool)
  | fwAllow
  | fwClose

def Call.build : Call → Text → Text → Except String Text
  | .openPort zone permanent, port, protocol => cmdOpenPort port protocol zone permanent
  | .closePort zone permanent, port, protocol => cmdClosePort port protocol zone permanent
  | .fwAllow, port, protocol => cmdFwAllowPort port protocol
  | .fwClose, port, protocol => cmdFwClosePort port protocol

def Call.KeepsData : Call → Text → Text → Prop
  | .openPort _ permanent => PortIsData fun p q z => cmdOpenPort p q z permanent
  | .closePort _ permanent => PortIsData fun p q z => cmdClosePort p q z permanent
  | .fwAllow => FwPortIsData cmdFwAllowPort
  | .fwClose => FwPortIsData cmdFwClosePort

/-- Only firewalld's own commands take a zone. -/
def Call.PlainInput : Call → Text → Prop
  | .openPort zone _, port | .closePort zone _, port => Plain port zone
  | .fwAllow, port | .fwClose, port => Canonical (normalised port)

theorem zoneFits_of_no_quote (h : '\'' ∉ zone) : ZoneFits zone := by
  have hpublic : Within inSingle "public".toList := by decide
  have halike := (within_single h).alike hpublic
  exact halike.parseFrom_iff.mpr rfl

end FirewallPorts
