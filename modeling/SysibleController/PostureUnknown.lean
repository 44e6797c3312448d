import SysibleController.Posture

/-! What a posture with more readings says about the signals that were decided without them, and
when the row of a host may tell whether its system is at its end of life. -/
namespace Posture

open PathText PythonText PythonInt

variable (low : Lowering) (today : Text)

/-- Readings are added and none is changed; the two whose absence has a meaning of its own are the
same. -/
structure Completes (p q : Readings) : Prop where
  kept : ∀ c k v, reading p c k = some v → reading q c k = some v
  boot : g q "fw" "enabled_at_boot" = g p "fw" "enabled_at_boot"
  determined : g q "fw" "determined" = g p "fw" "determined"

def Keeps (p q : Readings) : Prop :=
  ∀ s b, (s, some b) ∈ postureFlags low today p → (s, some b) ∈ postureFlags low today q

/-- Where one of two readings speaks and gives no definite answer, the other one was made. -/
structure LookedAtBoth (p : Readings) : Prop where
  mac : word low (g p "mac" "selinux") ≠ [] ∨ word low (g p "mac" "apparmor") ≠ [] →
    selinuxEnforcing low p = true ∨ apparmorEnabled low p = true ∨
      g p "mac" "selinux" ≠ none ∧ g p "mac" "apparmor" ≠ none
  accounts : asInt (g p "users" "uid0_count") ≠ none ∨ asInt (g p "users" "empty_pw_count") ≠ none →
    1 < (asInt (g p "users" "uid0_count")).getD 0 ∨
      0 < (asInt (g p "users" "empty_pw_count")).getD 0 ∨
      g p "users" "uid0_count" ≠ none ∧ g p "users" "empty_pw_count" ≠ none

def Probed (lastSeen : Text → Option ℚ) (now : ℚ) (e : Entry) : Prop :=
  (agentOf e = none ∨ isOnline lastSeen now e = some true) ∧ e.integrityQuarantined = false

/-- The distribution is in the table, with this version or with its part before the first dot. -/
def InTable (distro version : Text) : Prop :=
  distro ≠ [] ∧ version ≠ [] ∧ ∃ table, eolTable.lookup (low.lower distro) = some table ∧
    (table.lookup version ≠ none ∨ table.lookup (version.takeWhile (· ≠ '.')) ≠ none)

def probeText (r : Answer) : Text := r.stdout.getD [] ++ '\n' :: r.stderr.getD []

/-- A host that was probed and has an `os` section names a system of the table there. -/
def SystemKnown (lastSeen : Text → Option ℚ) (now : ℚ) (e : Entry) (r : Answer) : Prop :=
  Probed lastSeen now e → ∀ p, parsePosture (probeText r) = some p → p.lookup "os".toList ≠ none →
    ∃ distro version, g p "os" "distro" = some distro ∧ g p "os" "version" = some version ∧
      InTable low distro version

def EolDecided (row : Row) : Prop :=
  ∀ p, row.posture = some p → g p "os" "eol" ∈ [some "yes".toList, some "no".toList] →
    eolStatus low today (g p "os" "distro") (g p "os" "version") ≠ none

variable {low today} {p q : Readings}

/-! ### One signal at a time -/

theorem word_none : word low none = [] := low.ascii [] (by simp)

theorem flag_nil (s : Signal) : flag low today [] s = none := by
  have hg (c k : String) : g [] c k = none := rfl
  cases s <;> simp [flag, hg, word_none, asInt, eolStatus]

theorem mem_signals (s : Signal) : s ∈ signals := by cases s <;> decide

theorem mem_postureFlags {s : Signal} {b : Bool} :
    (s, some b) ∈ postureFlags low today p ↔ flag low today p s = some b := by
  rw [postureFlags]
  split
  next hp => simp [hp, flag_nil]
  next => simp [mem_signals]

theorem Completes.g_eq (h : Completes p q) {c k : String} (hp : g p c k ≠ none) :
    g q c k = g p c k := by
  obtain ⟨v, hv⟩ := Option.ne_none_iff_exists'.mp hp
  rw [hv]
  exact h.kept _ _ v hv

theorem reading_of_word {v : Option Text} (h : word low v ≠ []) : v ≠ none := by
  rintro rfl
  exact h word_none

theorem reading_of_asInt {v : Option Text} (h : asInt v ≠ none) : v ≠ none := by
  rintro rfl
  exact h rfl

theorem reading_of_selinux (h : selinuxEnforcing low p = true) : g p "mac" "selinux" ≠ none := by
  rw [selinuxEnforcing, decide_eq_true_eq] at h
  exact reading_of_word (by rw [h]; decide)

theorem reading_of_apparmor (h : apparmorEnabled low p = true) :
    g p "mac" "apparmor" ≠ none := by
  rw [apparmorEnabled, decide_eq_true_eq] at h
  exact reading_of_word (by rw [h]; decide)

theorem Completes.firewall (h : Completes p q) :
    fwKnown q = fwKnown p ∧ fwConfigured low q = fwConfigured low p := by
  rw [fwKnown, fwKnown, fwConfigured, fwConfigured, h.determined, h.boot]
  exact ⟨rfl, rfl⟩

theorem selinux_congr (h : g q "mac" "selinux" = g p "mac" "selinux") :
    selinuxEnforcing low q = selinuxEnforcing low p := by
  rw [selinuxEnforcing, selinuxEnforcing, h]

theorem apparmor_congr (h : g q "mac" "apparmor" = g p "mac" "apparmor") :
    apparmorEnabled low q = apparmorEnabled low p := by
  rw [apparmorEnabled, apparmorEnabled, h]

theorem flag_mac : flag low today p .macNotEnforcing =
    if word low (g p "mac" "selinux") ≠ [] ∨ word low (g p "mac" "apparmor") ≠ [] then
      some (!selinuxEnforcing low p && !apparmorEnabled low p)
    else none := rfl

theorem mac_kept (h : Completes p q) (hp : LookedAtBoth low p) {b : Bool}
    (hb : flag low today p .macNotEnforcing = some b) :
    flag low today q .macNotEnforcing = some b := by
  rw [flag_mac] at hb ⊢
  split at hb
  next hdecided =>
    have hq : word low (g q "mac" "selinux") ≠ [] ∨ word low (g q "mac" "apparmor") ≠ [] := by
      rcases hdecided with hs | ha
      · exact .inl (by rwa [h.g_eq (reading_of_word hs)])
      · exact .inr (by rwa [h.g_eq (reading_of_word ha)])
    rw [if_pos hq, ← hb]
    rcases hp.mac hdecided with hs | ha | ⟨hs, ha⟩
    · have hsame := (selinux_congr (h.g_eq (reading_of_selinux hs))).trans hs
      simp only [hs, hsame, Bool.not_true, Bool.false_and]
    · have hsame := (apparmor_congr (h.g_eq (reading_of_apparmor ha))).trans ha
      simp only [ha, hsame, Bool.not_true, Bool.and_false]
    · rw [selinux_congr (h.g_eq hs), apparmor_congr (h.g_eq ha)]
  next => cases hb

theorem flag_accounts : flag low today p .riskyAccounts =
    if asInt (g p "users" "uid0_count") ≠ none ∨ asInt (g p "users" "empty_pw_count") ≠ none then
      some (1 < (asInt (g p "users" "uid0_count")).getD 0 ||
        0 < (asInt (g p "users" "empty_pw_count")).getD 0)
    else none := rfl

theorem asInt_of_pos {v : Option Text} {n : ℤ} (hn : 0 ≤ n) (h : n < (asInt v).getD 0) :
    v ≠ none := by
  rintro rfl
  rw [asInt, Option.bind_none, Option.getD_none] at h
  omega

theorem accounts_kept (h : Completes p q) (hp : LookedAtBoth low p) {b : Bool}
    (hb : flag low today p .riskyAccounts = some b) :
    flag low today q .riskyAccounts = some b := by
  rw [flag_accounts] at hb ⊢
  split at hb
  next hdecided =>
    have hq : asInt (g q "users" "uid0_count") ≠ none ∨
        asInt (g q "users" "empty_pw_count") ≠ none := by
      rcases hdecided with hu | he
      · exact .inl (by rwa [h.g_eq (reading_of_asInt hu)])
      · exact .inr (by rwa [h.g_eq (reading_of_asInt he)])
    rw [if_pos hq, ← hb]
    rcases hp.accounts hdecided with hu | he | ⟨hu, he⟩
    · rw [h.g_eq (asInt_of_pos (by omega) hu)]
      simp [hu]
    · rw [h.g_eq (asInt_of_pos (by omega) he)]
      simp [he]
    · rw [h.g_eq hu, h.g_eq he]
  next => cases hb

theorem firewall_kept (h : Completes p q) {f : Text → Bool → Bool} {b : Bool}
    (hb : ((g p "fw" "active").bind fun fw =>
      if fwKnown p then some (f fw (fwConfigured low p)) else none) = some b) :
    ((g q "fw" "active").bind fun fw =>
      if fwKnown q then some (f fw (fwConfigured low q)) else none) = some b := by
  have hactive : g p "fw" "active" ≠ none := by
    intro hnone
    rw [hnone] at hb
    cases hb
  have hsame : fwKnown q = fwKnown p ∧ fwConfigured low q = fwConfigured low p := h.firewall
  rw [h.g_eq hactive, hsame.1, hsame.2]
  exact hb

theorem keeps_of_looked (h : Completes p q) (hp : LookedAtBoth low p) : Keeps low today p q := by
  intro s b hb
  rw [mem_postureFlags] at hb ⊢
  cases s with
  | rebootRequired =>
    rw [flag, Option.map_eq_some_iff] at hb
    obtain ⟨v, hv, hvb⟩ := hb
    rw [flag, h.g_eq (by simp [hv]), hv, ← hvb]
    rfl
  | sshRootLogin =>
    simp only [flag] at hb ⊢
    split at hb
    next => cases hb
    next hne => rw [h.g_eq (reading_of_word hne), if_neg hne, hb]
  | firewallDisabled => exact firewall_kept h (f := fun fw boot => fw = ['0'] && !boot) hb
  | firewallFailedToStart => exact firewall_kept h (f := fun fw boot => fw = ['0'] && boot) hb
  | macNotEnforcing => exact mac_kept h hp hb
  | eolOs =>
    rw [flag] at hb ⊢
    have hd : g p "os" "distro" ≠ none := by
      intro hnone
      rw [hnone] at hb
      cases hb
    have hv : g p "os" "version" ≠ none := by
      intro hnone
      rw [hnone, eolStatus] at hb
      · cases hb
      · intro _ _ _ hcontra
        cases hcontra
    rw [h.g_eq hd, h.g_eq hv, hb]
  | riskyAccounts => exact accounts_kept h hp hb
  | certExpiring =>
    rw [flag, Option.map_eq_some_iff] at hb
    obtain ⟨v, hv, hvb⟩ := hb
    rw [flag, h.g_eq (reading_of_asInt (by simp [hv])), hv, ← hvb]
    rfl
  | timeUnsynced =>
    simp only [flag] at hb ⊢
    split at hb
    next => cases hb
    next hne => rw [h.g_eq (reading_of_word hne), if_neg hne, hb]

/-! ### A reading more -/

def withReading (p : Readings) (c k v : Text) : Readings :=
  assign c (assign k v ((p.lookup c).getD [])) p

theorem reading_withReading (c k v c' k' : Text) : reading (withReading p c k v) c' k' =
    if c' = c ∧ k' = k then some v else reading p c' k' := by
  rw [reading, withReading, lookup_assign]
  by_cases hc : c' = c
  · subst hc
    rw [if_pos rfl, Option.bind_some, lookup_assign]
    by_cases hk : k' = k
    · rw [if_pos hk, if_pos ⟨rfl, hk⟩]
    · rw [if_neg hk, if_neg (fun h => hk h.2), reading]
      cases p.lookup c' <;> rfl
  · rw [if_neg hc, if_neg (fun h => hc h.1), reading]

theorem completes_withReading {c k : String} {v : Text} (hp : g p c k = none) (hc : c ≠ "fw") :
    Completes p (withReading p c.toList k.toList v) := by
  have hfw (k' : String) : g (withReading p c.toList k.toList v) "fw" k' = g p "fw" k' := by
    rw [g, reading_withReading, if_neg]
    · rfl
    · exact fun h => hc (String.toList_inj.mp h.1).symm
  refine ⟨?_, hfw _, hfw _⟩
  intro c' k' v' hv
  rw [reading_withReading, if_neg, hv]
  rintro ⟨rfl, rfl⟩
  rw [g, hv] at hp
  cases hp

theorem g_withReading (c k c' k' : String) (v : Text) :
    g (withReading p c.toList k.toList v) c' k' =
      if c' = c ∧ k' = k then some v else g p c' k' := by
  rw [g, reading_withReading]
  simp only [String.toList_inj]
  rfl

theorem word_plain {v : String} (hv : (v.toList.all fun c => c.toNat < 128) = true)
    (hlower : v.toList.map Char.toLower = v.toList) (hs : stripText v.toList = v.toList) :
    word low (some v.toList) = v.toList := by
  have hascii : ∀ c ∈ v.toList, c.toNat < 128 := fun c hc =>
    of_decide_eq_true (List.all_eq_true.mp hv c hc)
  rw [word, Option.getD_some, hs, low.ascii _ hascii, hlower]

theorem selinux_withReading :
    selinuxEnforcing low (withReading p "mac".toList "selinux".toList "enforcing".toList) =
      true := by
  rw [selinuxEnforcing, g_withReading, if_pos ⟨rfl, rfl⟩,
    word_plain (by decide) (by decide) (by decide), decide_eq_true rfl]

theorem apparmor_withReading :
    apparmorEnabled low (withReading p "mac".toList "apparmor".toList "enabled".toList) =
      true := by
  rw [apparmorEnabled, g_withReading, if_pos ⟨rfl, rfl⟩,
    word_plain (by decide) (by decide) (by decide), decide_eq_true rfl]

/-- Where one says enforcing, no problem is reported. -/
theorem mac_not_true (h : selinuxEnforcing low p = true ∨ apparmorEnabled low p = true) :
    flag low today p .macNotEnforcing ≠ some true := by
  rw [flag_mac]
  split
  · rcases h with hs | ha
    · simp only [hs, Bool.not_true, Bool.false_and, ne_eq, Option.some.injEq, Bool.false_eq_true,
        not_false_eq_true]
    · simp only [ha, Bool.not_true, Bool.and_false, ne_eq, Option.some.injEq, Bool.false_eq_true,
        not_false_eq_true]
  · exact nofun

theorem looked_mac (h : ∀ q, Completes p q → Keeps low today p q)
    (hdecided : word low (g p "mac" "selinux") ≠ [] ∨ word low (g p "mac" "apparmor") ≠ []) :
    selinuxEnforcing low p = true ∨ apparmorEnabled low p = true ∨
      g p "mac" "selinux" ≠ none ∧ g p "mac" "apparmor" ≠ none := by
  by_cases hs : selinuxEnforcing low p = true
  · exact .inl hs
  by_cases ha : apparmorEnabled low p = true
  · exact .inr (.inl ha)
  have hflag : flag low today p .macNotEnforcing = some true := by
    rw [flag_mac, if_pos hdecided, Bool.eq_false_iff.mpr hs, Bool.eq_false_iff.mpr ha]
    rfl
  have hkept (q : Readings) (hq : Completes p q) : flag low today q .macNotEnforcing = some true :=
    mem_postureFlags.mp (h q hq _ _ (mem_postureFlags.mpr hflag))
  refine .inr (.inr ⟨?_, ?_⟩) <;> intro hnone
  · exact mac_not_true (.inl selinux_withReading)
      (hkept _ (completes_withReading hnone (by decide)))
  · exact mac_not_true (.inr apparmor_withReading)
      (hkept _ (completes_withReading hnone (by decide)))

/-- Two accounts with the number 0, or one without a password, are a problem. -/
theorem accounts_not_false (h : 1 < (asInt (g p "users" "uid0_count")).getD 0 ∨
    0 < (asInt (g p "users" "empty_pw_count")).getD 0) :
    flag low today p .riskyAccounts ≠ some false := by
  rw [flag_accounts]
  split
  · rcases h with hu | he
    · simp [hu]
    · simp [he]
  · exact nofun

theorem asInt_withReading (k : String) :
    asInt (g (withReading p "users".toList k.toList ['2']) "users" k) = some 2 := by
  rw [g_withReading, if_pos ⟨rfl, rfl⟩]
  decide

theorem looked_accounts (h : ∀ q, Completes p q → Keeps low today p q)
    (hdecided : asInt (g p "users" "uid0_count") ≠ none ∨
      asInt (g p "users" "empty_pw_count") ≠ none) :
    1 < (asInt (g p "users" "uid0_count")).getD 0 ∨
      0 < (asInt (g p "users" "empty_pw_count")).getD 0 ∨
      g p "users" "uid0_count" ≠ none ∧ g p "users" "empty_pw_count" ≠ none := by
  by_cases hu : 1 < (asInt (g p "users" "uid0_count")).getD 0
  · exact .inl hu
  by_cases he : 0 < (asInt (g p "users" "empty_pw_count")).getD 0
  · exact .inr (.inl he)
  have hflag : flag low today p .riskyAccounts = some false := by
    rw [flag_accounts, if_pos hdecided, decide_eq_false hu, decide_eq_false he]
    rfl
  have hkept (q : Readings) (hq : Completes p q) : flag low today q .riskyAccounts = some false :=
    mem_postureFlags.mp (h q hq _ _ (mem_postureFlags.mpr hflag))
  refine .inr (.inr ⟨?_, ?_⟩) <;> intro hnone
  · have hq := hkept _ (completes_withReading (v := ['2']) hnone (by decide))
    refine accounts_not_false (.inl ?_) hq
    rw [asInt_withReading]
    decide
  · have hq := hkept _ (completes_withReading (v := ['2']) hnone (by decide))
    refine accounts_not_false (.inr ?_) hq
    rw [asInt_withReading]
    decide

/-! ### The row -/

theorem eolStatus_iff {distro version : Option Text} : eolStatus low today distro version ≠ none ↔
    ∃ d v, distro = some d ∧ version = some v ∧ InTable low d v := by
  have hlife (d v : Text) : endOfLife low d v ≠ none ↔
      ∃ table, eolTable.lookup (low.lower d) = some table ∧
        (table.lookup v ≠ none ∨ table.lookup (v.takeWhile (· ≠ '.')) ≠ none) := by
    rw [endOfLife]
    cases eolTable.lookup (low.lower d) with
    | none => simp
    | some table =>
      rw [Option.bind_some, ne_eq, Option.or_eq_none_iff, not_and_or]
      simp
  cases distro with
  | none => simp [eolStatus]
  | some d =>
    cases version with
    | none => simp [eolStatus]
    | some v =>
      simp only [eolStatus, InTable, Option.some.injEq, exists_and_left, exists_eq_left',
        ← hlife]
      by_cases hblank : d = [] ∨ v = []
      · rw [if_pos hblank]
        rcases hblank with rfl | rfl <;> simp
      · rw [if_neg hblank, ne_eq, Option.map_eq_none_iff]
        rw [not_or] at hblank
        simp [hblank]

theorem withEol_lookup {os : Section} (h : p.lookup "os".toList = some os) (k : String) :
    g (withEol low today p) "os" k = if k = "eol" then
      some (if eolStatus low today (g p "os" "distro") (g p "os" "version") = some true
        then "yes" else "no").toList
    else g p "os" k := by
  have hread : g p "os" k = os.lookup k.toList := by rw [g, reading, h, Option.bind_some]
  rw [withEol, h]
  simp only [g, reading] at hread ⊢
  rw [lookup_assign, if_pos rfl, Option.bind_some, lookup_assign, hread]
  simp only [String.toList_inj]

theorem eolDecided_iff {row : Row} {stream : Option Readings}
    (h : row.posture = stream.map (withEol low today)) : EolDecided low today row ↔
    ∀ p, stream = some p → p.lookup "os".toList ≠ none →
      ∃ d v, g p "os" "distro" = some d ∧ g p "os" "version" = some v ∧ InTable low d v := by
  cases stream with
  | none =>
    rw [Option.map_none] at h
    simp [EolDecided, h]
  | some p =>
    rw [Option.map_some] at h
    simp only [EolDecided, h, Option.some.injEq, forall_eq', ← @eolStatus_iff low today]
    cases hos : p.lookup "os".toList with
    | none =>
      have hnone : g (withEol low today p) "os" "eol" = none := by
        rw [withEol, hos, g, reading, hos, Option.bind_none]
      simp [hnone]
    | some os =>
      have hanswer (c : Prop) [Decidable c] :
          some (if c then "yes" else "no").toList ∈ [some "yes".toList, some "no".toList] := by
        by_cases hc : c <;> simp [hc]
      have hdistro : ¬"distro" = "eol" := by decide
      have hversion : ¬"version" = "eol" := by decide
      rw [withEol_lookup hos, withEol_lookup hos, withEol_lookup hos, if_pos rfl, if_neg hdistro,
        if_neg hversion]
      constructor
      · exact fun hdecided _ => hdecided (hanswer _)
      · exact fun hdecided _ => hdecided nofun

theorem probePosture_stream {lastSeen : Text → Option ℚ} {now : ℚ} {e : Entry} {r : Answer} :
    (Probed lastSeen now e → (probePosture low today e lastSeen now r).posture =
      (parsePosture (probeText r)).map (withEol low today)) ∧
    (¬Probed lastSeen now e → (probePosture low today e lastSeen now r).posture = none) := by
  have hoffline : ¬(agentOf e ≠ none ∧ isOnline lastSeen now e ≠ some true) ↔
      agentOf e = none ∨ isOnline lastSeen now e = some true := by
    rw [not_and_or, not_ne_iff, not_ne_iff]
  simp only [probePosture, Probed, ← hoffline]
  constructor
  · rintro ⟨honline, hquarantine⟩
    rw [if_neg honline, hquarantine]
    rfl
  · intro h
    split
    next => rfl
    next honline =>
      have hquarantine : e.integrityQuarantined = true := by
        by_contra hq
        exact h ⟨honline, Bool.eq_false_iff.mpr hq⟩
      rw [if_pos hquarantine]
      rfl

/-- A signal decided without some reading stays as it is exactly where both of the readings that
are counted together were made, and the row tells about the system's end of life only what was
decided exactly where the system is in the table. -/
theorem unknown_is_kept_iff (low : Lowering) (today : Text) :
    (∀ p, (∀ q, Completes p q → Keeps low today p q) ↔ LookedAtBoth low p) ∧
    ∀ lastSeen now e r, EolDecided low today (probePosture low today e lastSeen now r) ↔
      SystemKnown low lastSeen now e r := by
  constructor
  · intro p
    constructor
    · exact fun h => ⟨looked_mac h, looked_accounts h⟩
    · exact fun h q hq => keeps_of_looked hq h
  · intro lastSeen now e r
    by_cases hprobed : Probed lastSeen now e
    · rw [eolDecided_iff (probePosture_stream.1 hprobed), SystemKnown]
      exact ⟨fun h _ => h, fun h => h hprobed⟩
    · have hnone : (probePosture low today e lastSeen now r).posture = none :=
        probePosture_stream.2 hprobed
      simp [EolDecided, SystemKnown, hprobed, hnone]

def asciiLowering : Lowering := ⟨fun t => t.map Char.toLower, fun _ _ => rfl⟩

def oneAccount : Readings := [("users".toList, [("uid0_count".toList, ['1'])])]

def archHost : Entry := ⟨['7'], "build".toList, none, .ssh, none, false⟩

def archAnswer : Answer :=
  ⟨true, some "POSTURE|os.distro=arch\nPOSTURE|os.version=rolling\n".toList, none, none⟩

theorem clean_without_a_look :
    ¬(∀ p q, Completes p q → Keeps asciiLowering "2026-01-01".toList p q) ∧
      ¬∀ lastSeen now e r, EolDecided asciiLowering "2026-01-01".toList
        (probePosture asciiLowering "2026-01-01".toList e lastSeen now r) := by
  constructor
  · intro hkeeps
    have hcompletes : Completes oneAccount
        (withReading oneAccount "users".toList "empty_pw_count".toList ['1']) :=
      completes_withReading (by decide) (by decide)
    have hmore := hkeeps _ _ hcompletes .riskyAccounts false (by decide)
    revert hmore
    decide
  · intro hdecided
    have hrow := hdecided (fun _ => none) 0 archHost archAnswer
      [("os".toList, [("distro".toList, "arch".toList), ("version".toList, "rolling".toList),
        ("eol".toList, "no".toList)])] (by decide) (by decide)
    exact hrow (by decide)

end Posture
