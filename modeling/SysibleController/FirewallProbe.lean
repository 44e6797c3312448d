import SysibleController.FixedGrep
import SysibleController.PostureStream

/-! The firewall block of the posture probe (`_POSTURE_SH`): four tools are asked one after the
other until one finds a firewall. `fold` stands for the cases that `grep -i` takes for equal. -/
namespace FirewallProbe

open PathText FixedGrep

inductive Tool where
  | firewallCmd
  | ufw
  | nft
  | iptables
  deriving DecidableEq

def tools : List Tool := [.firewallCmd, .ufw, .nft, .iptables]

def Tool.command : Tool → Text
  | .firewallCmd => "firewall-cmd".toList
  | .ufw => "ufw".toList
  | .nft => "nft".toList
  | .iptables => "iptables".toList

def Tool.backend : Tool → Text
  | .firewallCmd => "firewalld".toList
  | .ufw => "ufw".toList
  | .nft => "nftables".toList
  | .iptables => "iptables".toList

/-- `$(…)` -/
def substituted (t : Text) : Text := (t.filter (· ≠ null)).rdropWhile (· = '\n')

/-- What a tool gives, or `timeout` in its place. -/
structure Reply where
  rc : ℕ
  stdout : Text
  stderr : Text

def Reply.o (r : Reply) : Text := substituted r.stdout

def Reply.e (r : Reply) : Text := substituted r.stderr

/-- `reply` is `none` for a tool that is not there. -/
structure Host where
  reply : Tool → Option Reply
  isEnabled : Text → Bool
  uid : Text

variable (fold : Char → Char)

/-- `printf '%s' t | grep -qi word` -/
def mentions (word : String) (t : Text) : Bool :=
  (records t).any fun line => decide (word.toList.map fold <:+: line.map fold)

def deniedWords : List String :=
  ["not authoriz", "not permitted", "permission denied", "must be root",
    "operation not permitted", "authentication", "polkit", "refus"]

def fwdenied (t : Text) : Bool := deniedWords.any fun word => mentions fold word t

def fwtrim (t : Text) : Text := (t.map fun c => if c = '\n' then ' ' else c).take 90

/-- `grep -qE '^-A'` -/
def hasRule (t : Text) : Bool := (records t).any fun line => decide ("-A".toList <+: line)

/-- The branch that a reply takes. -/
inductive Outcome where
  | found
  | denied (said : Text)
  | negative (why : Text)
  | failed

def firewallCmd (r : Reply) : Outcome :=
  if r.rc = 0 ∧ fwdenied fold r.e = false then .found
  else if fwdenied fold r.e then .denied r.e
  else if r.rc = 252 ∨ mentions fold "not running" (r.o ++ r.e) then
    .negative "firewalld:stopped".toList
  else .failed

/-- The branches of the other three: a denial, a firewall, none, and a failure. -/
def branches (said : Text) (on off : Bool) (why : String) (r : Reply) : Outcome :=
  if fwdenied fold said then .denied said
  else if r.rc = 0 ∧ on then .found
  else if r.rc = 0 ∧ off then .negative why.toList
  else .failed

def ufw (r : Reply) : Outcome :=
  branches fold (r.e ++ r.o) (mentions fold "Status: active" r.o)
    (mentions fold "Status: inactive" r.o) "ufw:inactive" r

def nft (r : Reply) : Outcome := branches fold r.e (!r.o.isEmpty) true "nft:empty" r

def iptables (r : Reply) : Outcome :=
  branches fold r.e (hasRule r.o) true "iptables:no-rules" r

def outcome : Tool → Reply → Outcome
  | .firewallCmd => firewallCmd fold
  | .ufw => ufw fold
  | .nft => nft fold
  | .iptables => iptables fold

/-- The variables of the block; `asked` is what was run. -/
structure Probe where
  fw : Text
  fwa : Bool
  fwdet : Bool
  fwwhy : Text
  asked : List (Tool × Reply)

def Probe.start : Probe := ⟨"none".toList, false, false, [], []⟩

/-- `_fwnote` -/
def Probe.fwnote (s : Probe) (x : Text) : Probe :=
  { s with fwwhy := (if s.fwwhy = [] then [] else s.fwwhy ++ "; ".toList) ++ x }

def Probe.record (s : Probe) (t : Tool) (r : Reply) : Outcome → Probe
  | .found => { s with fw := t.backend, fwa := true, fwdet := true }
  | .denied said => s.fwnote (t.command ++ ":denied:".toList ++ fwtrim said)
  | .negative why => { s with fwdet := true }.fwnote why
  | .failed =>
    s.fwnote (t.command ++ ":rc=".toList ++ Nat.toDigits 10 r.rc ++ ':' :: fwtrim r.e)

/-- The first tool is asked without the test, when `fwa` is 0. -/
def ask (h : Host) (s : Probe) (t : Tool) : Probe :=
  if s.fwa then s
  else match h.reply t with
    | none => s
    | some r => { s with asked := s.asked ++ [(t, r)] }.record t r (outcome fold t r)

/-- Without a word from any tool, none is installed. -/
def Probe.conclude (s : Probe) : Probe :=
  if s.fwa = false ∧ s.fwdet = false ∧ s.fwwhy = [] then
    { s with fwdet := true }.fwnote "none-installed".toList
  else s

def askAll (h : Host) : Probe := tools.foldl (ask fold h) Probe.start

def block (h : Host) : Probe := (askAll fold h).conclude

def bootUnits : List Text := ["firewalld".toList, "ufw".toList, "nftables".toList]

def Host.fwe (h : Host) : Text := (bootUnits.find? h.isEnabled).getD "none".toList

def digit (b : Bool) : Text := if b then ['1'] else ['0']

def report (h : Host) : List Posture.Call :=
  let s := block fold h
  [⟨"fw.backend".toList, s.fw⟩, ⟨"fw.active".toList, digit s.fwa⟩,
    ⟨"fw.enabled_at_boot".toList, h.fwe⟩, ⟨"fw.determined".toList, digit s.fwdet⟩,
    ⟨"fw.why".toList, s.fwwhy⟩, ⟨"fw.probe_uid".toList, h.uid⟩]

/-! ### What a report should mean -/

/-- The tool says that it may not look. -/
def Refused (t : Tool) (r : Reply) : Prop :=
  match t with
  | .ufw => fwdenied fold (r.e ++ r.o) = true
  | .firewallCmd | .nft | .iptables => fwdenied fold r.e = true

/-- The standard output shows an active firewall. -/
def ShowsActive (t : Tool) (o : Text) : Prop :=
  match t with
  | .firewallCmd => mentions fold "running" o = true ∧ mentions fold "not running" o = false
  | .ufw => mentions fold "Status: active" o = true
  | .nft => o ≠ []
  | .iptables => hasRule o = true

/-- The tool looked and there is no firewall. -/
def ShowsOff (t : Tool) (r : Reply) : Prop :=
  match t with
  | .firewallCmd => r.rc ≠ 0 ∧ (r.rc = 252 ∨ mentions fold "not running" (r.o ++ r.e) = true)
  | .ufw => r.rc = 0 ∧ mentions fold "Status: active" r.o = false ∧
      mentions fold "Status: inactive" r.o = true
  | .nft => r.rc = 0 ∧ r.o = []
  | .iptables => r.rc = 0 ∧ hasRule r.o = false

/-- A definite negative. -/
def Negative (t : Tool) (r : Reply) : Prop := ¬Refused fold t r ∧ ShowsOff fold t r

instance (t : Tool) (r : Reply) : Decidable (Refused fold t r) :=
  match t with
  | .firewallCmd | .ufw | .nft | .iptables => inferInstanceAs (Decidable (_ = true))

instance (t : Tool) (o : Text) : Decidable (ShowsActive fold t o) :=
  match t with
  | .firewallCmd => inferInstanceAs (Decidable (_ ∧ _))
  | .ufw | .iptables => inferInstanceAs (Decidable (_ = true))
  | .nft => inferInstanceAs (Decidable (_ ≠ _))

instance (t : Tool) (r : Reply) : Decidable (ShowsOff fold t r) :=
  match t with
  | .firewallCmd | .ufw | .nft | .iptables => inferInstanceAs (Decidable (_ ∧ _))

instance (t : Tool) (r : Reply) : Decidable (Negative fold t r) :=
  inferInstanceAs (Decidable (_ ∧ _))

def Reports (h : Host) (key value : String) : Prop :=
  Posture.wroteAt (report fold h) key.toList = some value.toList

instance (h : Host) (key value : String) : Decidable (Reports fold h key value) :=
  inferInstanceAs (Decidable (_ = _))

/-- Off is said when every tool that is there said so, and on when a tool that was asked showed
it. -/
structure Truthful (h : Host) : Prop where
  off : Reports fold h "fw.active" "0" → Reports fold h "fw.determined" "1" →
    ∀ t r, h.reply t = some r → Negative fold t r
  on : Reports fold h "fw.active" "1" → ∃ t r, (t, r) ∈ (block fold h).asked ∧ r.rc = 0 ∧
    ¬Refused fold t r ∧ ShowsActive fold t r.o

/-- The replies that count as an active firewall; `firewall-cmd` is taken by its exit code. -/
def Found (t : Tool) (r : Reply) : Prop :=
  r.rc = 0 ∧ ¬Refused fold t r ∧ (t = .firewallCmd ∨ ShowsActive fold t r.o)

instance (t : Tool) (r : Reply) : Decidable (Found fold t r) :=
  inferInstanceAs (Decidable (_ ∧ _ ∧ _))

/-- No tool is seen active, one says that it is off, and another is refused or fails. -/
structure Mixed (h : Host) : Prop where
  quiet : ∀ t r, h.reply t = some r → ¬Found fold t r
  negative : ∃ t r, h.reply t = some r ∧ Negative fold t r
  unanswered : ∃ t r, h.reply t = some r ∧ ¬Negative fold t r

/-- The replies agree, and `firewall-cmd` does not end with 0 without saying that it runs. -/
structure Clear (h : Host) : Prop where
  agreed : ¬Mixed fold h
  shown : ∀ r, h.reply .firewallCmd = some r → r.rc = 0 → ¬Refused fold .firewallCmd r →
    ShowsActive fold .firewallCmd r.o

/-! ### One tool -/

variable {fold} {h : Host} {s : Probe} {t : Tool} {r : Reply} {ts : List Tool}

theorem branches_found_iff {said : Text} {on off : Bool} {why : String} :
    branches fold said on off why r = .found ↔
      r.rc = 0 ∧ ¬fwdenied fold said = true ∧ on = true := by
  rw [branches]
  split_ifs with hdenied hon hoff
  · simp [hdenied]
  · simp [hdenied, hon]
  · simp [hdenied, not_and.mp hon hoff.1]
  · simp only [false_iff, not_and]
    exact fun hrc _ hshown => hon ⟨hrc, hshown⟩

theorem branches_negative_iff {said x : Text} {on off : Bool} {why : String} :
    branches fold said on off why r = .negative x ↔
      x = why.toList ∧ ¬fwdenied fold said = true ∧ r.rc = 0 ∧ on = false ∧ off = true := by
  rw [branches]
  split_ifs with hdenied hon hoff
  · simp [hdenied]
  · simp [hon.2]
  · rw [Outcome.negative.injEq, eq_comm]
    have hnone : on = false := Bool.eq_false_iff.mpr (not_and.mp hon hoff.1)
    exact (and_iff_left ⟨hdenied, hoff.1, hnone, hoff.2⟩).symm
  · simp only [false_iff, not_and]
    exact fun _ _ hrc _ h => hoff ⟨hrc, h⟩

theorem firewallCmd_found_iff :
    firewallCmd fold r = .found ↔ r.rc = 0 ∧ ¬fwdenied fold r.e = true := by
  rw [firewallCmd]
  split_ifs with hfound hdenied hoff
  · simpa using hfound
  · simp [hdenied]
  · simpa using hfound
  · simpa using hfound

theorem firewallCmd_negative_iff {x : Text} : firewallCmd fold r = .negative x ↔
    x = "firewalld:stopped".toList ∧ ¬fwdenied fold r.e = true ∧ r.rc ≠ 0 ∧
      (r.rc = 252 ∨ mentions fold "not running" (r.o ++ r.e) = true) := by
  rw [firewallCmd]
  split_ifs with hfound hdenied hoff
  · simp [hfound.1]
  · simp [hdenied]
  · have hrc : r.rc ≠ 0 := fun hrc => hfound ⟨hrc, Bool.eq_false_iff.mpr hdenied⟩
    rw [Outcome.negative.injEq, eq_comm]
    exact (and_iff_left ⟨hdenied, hrc, hoff⟩).symm
  · simp only [false_iff, not_and]
    exact fun _ _ _ h => hoff h

theorem found_iff : outcome fold t r = .found ↔ Found fold t r := by
  cases t with
  | firewallCmd =>
    rw [outcome, firewallCmd_found_iff]
    simp [Found, Refused]
  | ufw =>
    rw [outcome, ufw, branches_found_iff]
    simp [Found, Refused, ShowsActive]
  | nft =>
    rw [outcome, nft, branches_found_iff]
    simp [Found, Refused, ShowsActive]
  | iptables =>
    rw [outcome, iptables, branches_found_iff]
    simp [Found, Refused, ShowsActive]

/-- What is noted of a definite negative. -/
def Tool.why : Tool → String
  | .firewallCmd => "firewalld:stopped"
  | .ufw => "ufw:inactive"
  | .nft => "nft:empty"
  | .iptables => "iptables:no-rules"

theorem negative_iff {x : Text} :
    outcome fold t r = .negative x ↔ x = t.why.toList ∧ Negative fold t r := by
  cases t with
  | firewallCmd => rw [outcome, firewallCmd_negative_iff, Tool.why, Negative, Refused, ShowsOff]
  | ufw => rw [outcome, ufw, branches_negative_iff, Tool.why, Negative, Refused, ShowsOff]
  | nft =>
    rw [outcome, nft, branches_negative_iff, Tool.why, Negative, Refused, ShowsOff]
    refine and_congr_right fun _ => ?_
    simp
  | iptables =>
    rw [outcome, iptables, branches_negative_iff, Tool.why, Negative, Refused, ShowsOff]
    refine and_congr_right fun _ => ?_
    simp

/-! ### A run of the block -/

theorem fwnote_ne_nil {x : Text} (h : x ≠ []) : (s.fwnote x).fwwhy ≠ [] :=
  List.append_ne_nil_of_right_ne_nil _ h

/-- What asking a tool does to the variables. -/
structure Asks (fold : Char → Char) (t : Tool) (r : Reply) (s s' : Probe) : Prop where
  asked : s'.asked = s.asked ++ [(t, r)]
  fwa : s'.fwa = true ↔ Found fold t r
  fwdet : ¬Found fold t r → (s'.fwdet = true ↔ s.fwdet = true ∨ Negative fold t r)
  fwwhy : ¬Found fold t r → s'.fwwhy ≠ []

/-- A note of a denial or of a failure. -/
theorem asks_note {x : Text} (hs : s.fwa = false) (hfound : ¬Found fold t r)
    (hneg : ¬Negative fold t r) (hx : x ≠ []) :
    Asks fold t r s ({ s with asked := s.asked ++ [(t, r)] }.fwnote x) where
  asked := rfl
  fwa := by simp [Probe.fwnote, hs, hfound]
  fwdet _ := by simp [Probe.fwnote, hneg]
  fwwhy _ := fwnote_ne_nil hx

theorem asks_record (hs : s.fwa = false) :
    Asks fold t r s ({ s with asked := s.asked ++ [(t, r)] }.record t r (outcome fold t r)) := by
  have hnot (hne : outcome fold t r ≠ .found) : ¬Found fold t r := fun h => hne (found_iff.mpr h)
  have hopen (hne : ∀ x, outcome fold t r ≠ .negative x) : ¬Negative fold t r :=
    fun h => hne t.why.toList (negative_iff.mpr ⟨rfl, h⟩)
  cases hout : outcome fold t r with
  | found =>
    have hfound : Found fold t r := found_iff.mp hout
    exact ⟨rfl, by simp [Probe.record, hfound], fun h => absurd hfound h, fun h => absurd hfound h⟩
  | denied said =>
    exact asks_note hs (hnot (by simp [hout])) (hopen (by simp [hout])) (by simp)
  | negative why =>
    have hoff : ¬Found fold t r := hnot (by simp [hout])
    obtain ⟨rfl, hyes⟩ := negative_iff.mp hout
    refine ⟨rfl, ?_, fun _ => ?_, fun _ => fwnote_ne_nil ?_⟩
    · simp [Probe.record, Probe.fwnote, hs, hoff]
    · simp [Probe.record, Probe.fwnote, hyes]
    · cases t <;> simp [Tool.why]
  | failed =>
    exact asks_note hs (hnot (by simp [hout])) (hopen (by simp [hout])) (by simp)

theorem ask_of_fwa (hs : s.fwa = true) : ask fold h s t = s := if_pos hs

theorem foldl_ask_of_fwa (hs : s.fwa = true) : ts.foldl (ask fold h) s = s := by
  induction ts with
  | nil => rfl
  | cons t ts ih => rw [List.foldl_cons, ask_of_fwa hs, ih]

theorem ask_of_none (hr : h.reply t = none) : ask fold h s t = s := by
  rw [ask, hr]
  exact ite_self s

theorem asks_of_reply (hs : s.fwa = false) (hr : h.reply t = some r) :
    Asks fold t r s (ask fold h s t) := by
  rw [ask, hr, if_neg (by simp [hs])]
  exact asks_record hs

/-- What holds when the tools `gone` have had their turn. -/
structure Standing (fold : Char → Char) (h : Host) (gone : List Tool) (s : Probe) : Prop where
  found : s.fwa = true → ∃ t r, h.reply t = some r ∧ (t, r) ∈ s.asked ∧ Found fold t r
  quiet : s.fwa = false → ∀ t ∈ gone, ∀ r, h.reply t = some r → ¬Found fold t r
  fwdet : s.fwa = false →
    (s.fwdet = true ↔ ∃ t ∈ gone, ∃ r, h.reply t = some r ∧ Negative fold t r)
  fwwhy : s.fwa = false → s.fwwhy = [] → ∀ t ∈ gone, h.reply t = none

theorem Standing.start : Standing fold h [] Probe.start where
  found hs := by cases hs
  quiet _ t ht := absurd ht List.not_mem_nil
  fwdet _ := by simp [Probe.start]
  fwwhy _ _ t ht := absurd ht List.not_mem_nil

theorem Standing.ask {gone : List Tool} (hstand : Standing fold h gone s) :
    Standing fold h (gone ++ [t]) (ask fold h s t) := by
  by_cases hs : s.fwa = true
  · -- an active firewall ends the run, and the rest is about runs without one
    rw [ask_of_fwa hs]
    exact ⟨hstand.found, fun h => by simp [hs] at h, fun h => by simp [hs] at h,
      fun h => by simp [hs] at h⟩
  rw [Bool.not_eq_true] at hs
  cases hr : h.reply t with
  | none =>
    rw [ask_of_none hr]
    refine ⟨hstand.found, fun _ => ?_, fun _ => ?_, fun _ hwhy => ?_⟩
    · exact List.forall_mem_append.mpr ⟨hstand.quiet hs, by simp [hr]⟩
    · simpa [hr, or_and_right, exists_or] using hstand.fwdet hs
    · exact List.forall_mem_append.mpr ⟨hstand.fwwhy hs hwhy, by simp [hr]⟩
  | some r =>
    -- every other branch leaves a note, so `fwwhy` tells that a tool was there
    obtain ⟨hasked, hfwa, hfwdet, hfwwhy⟩ : Asks fold t r s (FirewallProbe.ask fold h s t) :=
      asks_of_reply hs hr
    have hnone (hoff : (FirewallProbe.ask fold h s t).fwa = false) : ¬Found fold t r :=
      fun hyes => by simp [hfwa.mpr hyes] at hoff
    refine ⟨fun hon => ⟨t, r, hr, by simp [hasked], hfwa.mp hon⟩, fun hoff => ?_, fun hoff => ?_,
      fun hoff hwhy => absurd hwhy (hfwwhy (hnone hoff))⟩
    · exact List.forall_mem_append.mpr ⟨hstand.quiet hs, by simpa [hr] using hnone hoff⟩
    · rw [hfwdet (hnone hoff), hstand.fwdet hs]
      simp [hr, or_and_right, exists_or]

theorem Standing.foldl {gone : List Tool} (hstand : Standing fold h gone s) :
    Standing fold h (gone ++ ts) (ts.foldl (FirewallProbe.ask fold h) s) := by
  induction ts generalizing gone s with
  | nil => simpa using hstand
  | cons t ts ih => simpa using ih (hstand.ask (t := t))

theorem mem_tools (t : Tool) : t ∈ tools := by
  cases t <;> decide

theorem standing_askAll (fold : Char → Char) (h : Host) : Standing fold h tools (askAll fold h) :=
  Standing.start.foldl

/-! ### The report -/

theorem conclude_fwa : s.conclude.fwa = s.fwa := by
  rw [Probe.conclude]
  split_ifs <;> rfl

theorem conclude_asked : s.conclude.asked = s.asked := by
  rw [Probe.conclude]
  split_ifs <;> rfl

theorem conclude_fwdet (hs : s.fwa = false) :
    s.conclude.fwdet = true ↔ s.fwdet = true ∨ s.fwwhy = [] := by
  rw [Probe.conclude]
  split_ifs with hnothing
  · simp [Probe.fwnote, hnothing.2.2]
  · simp only [hs, true_and, not_and] at hnothing
    cases hdet : s.fwdet with
    | true => simp
    | false => simp [hnothing hdet]

theorem written_digit (key : Text) (b : Bool) :
    (Posture.Call.mk key (digit b)).written = digit b := by
  cases b <;> rfl

def keys : List Text :=
  ["fw.backend", "fw.active", "fw.enabled_at_boot", "fw.determined", "fw.why",
    "fw.probe_uid"].map String.toList

theorem nodup_report : ((report fold h).map Posture.Call.key).Nodup := by
  have hkeys : keys.Nodup := by decide +kernel
  exact hkeys

theorem wroteAt_active :
    Posture.wroteAt (report fold h) "fw.active".toList = some (digit (block fold h).fwa) := by
  have hmem : ⟨"fw.active".toList, digit (block fold h).fwa⟩ ∈ report fold h :=
    List.mem_cons_of_mem _ List.mem_cons_self
  rw [Posture.wroteAt_of_mem nodup_report hmem, written_digit]

theorem wroteAt_determined :
    Posture.wroteAt (report fold h) "fw.determined".toList = some (digit (block fold h).fwdet) := by
  have hmem : ⟨"fw.determined".toList, digit (block fold h).fwdet⟩ ∈ report fold h :=
    List.mem_of_getElem? (i := 3) rfl
  rw [Posture.wroteAt_of_mem nodup_report hmem, written_digit]

theorem reports_active_iff :
    (Reports fold h "fw.active" "1" ↔ (askAll fold h).fwa = true) ∧
      (Reports fold h "fw.active" "0" ↔ (askAll fold h).fwa = false) := by
  rw [Reports, Reports, wroteAt_active, block, conclude_fwa]
  cases (askAll fold h).fwa <;> simp [digit]

theorem reports_determined_iff (hoff : (askAll fold h).fwa = false) :
    Reports fold h "fw.determined" "1" ↔
      (askAll fold h).fwdet = true ∨ (askAll fold h).fwwhy = [] := by
  rw [Reports, wroteAt_determined, block, ← conclude_fwdet hoff]
  cases (askAll fold h).conclude.fwdet <;> simp [digit]

/-- The first tool ends the run when it counts as found. -/
theorem asked_of_firewallCmd (hr : h.reply .firewallCmd = some r)
    (hfound : Found fold .firewallCmd r) :
    (askAll fold h).fwa = true ∧ (askAll fold h).asked = [(.firewallCmd, r)] := by
  have hasks : Asks fold .firewallCmd r Probe.start (ask fold h Probe.start .firewallCmd) :=
    asks_of_reply rfl hr
  rw [askAll, tools, List.foldl_cons, foldl_ask_of_fwa (hasks.fwa.mpr hfound)]
  exact ⟨hasks.fwa.mpr hfound, hasks.asked⟩

theorem truthful_of_clear (hclear : Clear fold h) : Truthful fold h where
  off hactive hdet t r hr := by
    have hstand := standing_askAll fold h
    have hoff := reports_active_iff.2.mp hactive
    rcases (reports_determined_iff hoff).mp hdet with hyes | hwhy
    · obtain ⟨t', -, r', hr', hneg⟩ := (hstand.fwdet hoff).mp hyes
      by_contra hnot
      exact hclear.agreed ⟨fun u q hq => hstand.quiet hoff u (mem_tools u) q hq,
        ⟨t', r', hr', hneg⟩, ⟨t, r, hr, hnot⟩⟩
    · have hnone := hstand.fwwhy hoff hwhy t (mem_tools t)
      simp [hr] at hnone
  on hactive := by
    obtain ⟨t, r, hr, hmem, hrc, hrefused, hshown⟩ :=
      (standing_askAll fold h).found (reports_active_iff.1.mp hactive)
    refine ⟨t, r, by rwa [block, conclude_asked], hrc, hrefused, ?_⟩
    rcases hshown with rfl | hshown
    · exact hclear.shown r hr hrc hrefused
    · exact hshown

theorem not_truthful_of_mixed (hmixed : Mixed fold h) : ¬Truthful fold h := by
  intro htrue
  have hstand := standing_askAll fold h
  have hoff : (askAll fold h).fwa = false := by
    refine Bool.eq_false_iff.mpr fun hon => ?_
    obtain ⟨t, r, hr, -, hfound⟩ := hstand.found hon
    exact hmixed.quiet t r hr hfound
  obtain ⟨t, r, hr, hneg⟩ := hmixed.negative
  obtain ⟨t', r', hr', hnot⟩ := hmixed.unanswered
  have hdet : (askAll fold h).fwdet = true :=
    (hstand.fwdet hoff).mpr ⟨t, mem_tools t, r, hr, hneg⟩
  exact hnot (htrue.off (reports_active_iff.2.mpr hoff)
    ((reports_determined_iff hoff).mpr (.inl hdet)) t' r' hr')

/-- The report can be trusted exactly when the replies of the tools agree and `firewall-cmd` says
what its exit code says. -/
theorem truthful_iff_clear : Truthful fold h ↔ Clear fold h := by
  refine ⟨fun htrue => ⟨fun hmixed => not_truthful_of_mixed hmixed htrue, ?_⟩, truthful_of_clear⟩
  intro r hr hrc hrefused
  obtain ⟨hon, hasked⟩ := asked_of_firewallCmd hr ⟨hrc, hrefused, .inl rfl⟩
  obtain ⟨t', r', hmem, -, -, hshown⟩ := htrue.on (reports_active_iff.1.mpr hon)
  rw [block, conclude_asked, hasked, List.mem_singleton] at hmem
  cases hmem
  exact hshown

/-- `firewall-cmd` may not look, and `nft` has no rules. -/
def refusedHost : Host where
  reply
    | .firewallCmd => some ⟨253, [], "Not Authorized(uid)\nAuthorization failed.\n".toList⟩
    | .nft => some ⟨0, [], []⟩
    | .ufw | .iptables => none
  isEnabled u := u = "firewalld".toList
  uid := "1000".toList

theorem refusal_reported_as_off : ¬Truthful Char.toLower refusedHost := by
  intro htrue
  have hactive : Reports Char.toLower refusedHost "fw.active" "0" := by decide +kernel
  have hdetermined : Reports Char.toLower refusedHost "fw.determined" "1" := by decide +kernel
  have hnegative := htrue.off hactive hdetermined .firewallCmd _ rfl
  exact absurd hnegative.1 (by decide +kernel)

/-! ### What the console makes of it -/

variable {calls before after : List Posture.Call} {p : Posture.Readings} {low : Posture.Lowering}
  {today : Text}

/-- What the whole probe says of the firewall is what the block concluded. -/
structure Holds (fold : Char → Char) (h : Host) (calls : List Posture.Call) : Prop where
  active : Posture.wroteAt calls "fw.active".toList = some (digit (block fold h).fwa)
  determined : Posture.wroteAt calls "fw.determined".toList = some (digit (block fold h).fwdet)

theorem holds_of_others (hothers : ∀ c ∈ before ++ after, ¬"fw.".toList <+: c.key) :
    Holds fold h (before ++ report fold h ++ after) := by
  have hread (key : Text) (hkey : "fw.".toList <+: key) :
      Posture.wroteAt (before ++ report fold h ++ after) key =
        Posture.wroteAt (report fold h) key := by
    have hbefore : Posture.wroteAt before key = none := Posture.wroteAt_of_notMem fun c hc heq =>
      hothers c (List.mem_append_left after hc) (heq ▸ hkey)
    have hafter : Posture.wroteAt after key = none := Posture.wroteAt_of_notMem fun c hc heq =>
      hothers c (List.mem_append_right before hc) (heq ▸ hkey)
    rw [Posture.wroteAt_append, Posture.wroteAt_append, hbefore, hafter, Option.or_none,
      Option.none_or]
  constructor
  · rw [hread _ (by decide), wroteAt_active]
  · rw [hread _ (by decide), wroteAt_determined]

theorem g_of_readBack {category name : String} (hread : Posture.ReadBack calls)
    (hp : Posture.parsePosture (Posture.emitted calls) = some p) :
    Posture.g p category name =
      Posture.wroteAt calls (category.toList ++ '.' :: name.toList) := by
  have hat := hread category.toList name.toList
  rwa [Posture.readAt, hp] at hat

/-- The console finds a firewall off or not started only when the block said that it is off. -/
theorem off_of_flag (hholds : Holds fold h calls) (hread : Posture.ReadBack calls)
    (hp : Posture.parsePosture (Posture.emitted calls) = some p)
    (hflag : Posture.flag low today p .firewallDisabled = some true ∨
      Posture.flag low today p .firewallFailedToStart = some true) :
    (block fold h).fwa = false ∧ (block fold h).fwdet = true := by
  have hactive : Posture.g p "fw" "active" = some (digit (block fold h).fwa) :=
    (g_of_readBack hread hp).trans hholds.active
  have hdet : Posture.g p "fw" "determined" = some (digit (block fold h).fwdet) :=
    (g_of_readBack hread hp).trans hholds.determined
  simp only [Posture.flag, Posture.fwKnown, hactive, hdet, Option.bind_some] at hflag
  cases hfwa : (block fold h).fwa with
  | true => simp [hfwa, digit] at hflag
  | false =>
    refine ⟨rfl, ?_⟩
    cases hfwdet : (block fold h).fwdet with
    | true => rfl
    | false =>
      have hzero : PythonText.stripText (digit false) ≠ ['1'] := by decide
      simp [hfwdet, hzero] at hflag

/-- Where the replies are clear, a firewall is called off when every tool that is there said so. -/
theorem negative_of_flag (hclear : Clear fold h) (hholds : Holds fold h calls)
    (hread : Posture.ReadBack calls)
    (hp : Posture.parsePosture (Posture.emitted calls) = some p)
    (hflag : Posture.flag low today p .firewallDisabled = some true ∨
      Posture.flag low today p .firewallFailedToStart = some true)
    (hr : h.reply t = some r) : Negative fold t r := by
  obtain ⟨hoff, hdet⟩ := off_of_flag hholds hread hp hflag
  refine (truthful_of_clear hclear).off ?_ ?_ t r hr
  · rw [Reports, wroteAt_active, hoff]
    rfl
  · rw [Reports, wroteAt_determined, hdet]
    rfl

end FirewallProbe
