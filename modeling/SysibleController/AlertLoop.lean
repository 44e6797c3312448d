import SysibleController.AlertRules
import Mathlib.Tactic.NormNum

/-! Iterations of the alert loop (`_alerts_loop`): what fires is kept as a set of keys, and a key
that no longer fires is reported as resolved. -/
namespace AlertRules

open MergedHosts KeyedTable

/-- The rule part of a key. -/
inductive RuleName where
  | builtin (r : Rule)
  | custom (id : String)

def RuleName.text : RuleName → String
  | builtin r => r.name
  | custom id => "custom:" ++ id

def keyOf (host : String) (rule : RuleName) : String := host ++ "|" ++ rule.text

structure Iteration where
  cfg : Config
  seen : Outcomes

def hasBuiltin (cfg : Config) : Bool := Rule.all.any fun r => (cfg.rules r).enabled

def hasCustom (cfg : Config) : Bool := cfg.custom.any CustomRule.enabled

/-- The iteration is carried out as far as `diff_state`. -/
def Iteration.reports (i : Iteration) : Bool :=
  (i.cfg.email || i.cfg.webhook) && (hasBuiltin i.cfg || hasCustom i.cfg) && !i.seen.aborts

variable (py : Python)

def gathered (i : Iteration) : List Entry :=
  if hasBuiltin i.cfg then listMergedHosts i.seen.agents i.seen.ssh false else []

def firing (i : Iteration) : List Firing :=
  evaluateRules py i.cfg ((gathered i).map (gatherHost py i.seen)) ++
    evalCustomRules py i.seen i.cfg

def nowKeys (i : Iteration) : Finset String := ((firing py i).map Firing.key).toFinset

/-- What `diff_state` reports as resolved, from the keys stored before. -/
def resolved (i : Iteration) (prev : Finset String) : Finset String :=
  if i.reports then prev \ nowKeys py i else ∅

def nextState (i : Iteration) (prev : Finset String) : Finset String :=
  if i.reports then nowKeys py i else prev

/-- The iterations of a run, each with the keys it finds stored. -/
def visits : Finset String → List Iteration → List (Finset String × Iteration)
  | _, [] => []
  | prev, i :: rest => (prev, i) :: visits (nextState py i prev) rest

/-! ### Readings -/

/-- Whether the reading of a host for a rule meets the condition; no value without a reading. -/
def reading (i : Iteration) (e : Entry) : Rule → Option Bool
  | .hostOffline =>
    (if (snapshot i.seen e).isSome then some true else heard i.seen e).map fun b => !b
  | .diskCritical => ((snapshot i.seen e).bind (intField "disk")).map fun d =>
      thr Value.toInt 90 (i.cfg.rules .diskCritical) ≤ d
  | .memHigh => ((snapshot i.seen e).bind (intField "mem")).map fun m =>
      thr Value.toInt 90 (i.cfg.rules .memHigh) ≤ m
  | .loadHigh => ((snapshot i.seen e).bind (floatField py "load1")).map fun l =>
      thr (Value.toFloat py) 8 (i.cfg.rules .loadHigh) ≤ l
  | .failedUnits => ((snapshot i.seen e).bind (intField "failed")).map fun n => 0 < n
  | .oomEvents => ((snapshot i.seen e).bind (intField "oom")).map fun n => 0 < n
  | .updatesPending => ((updatesOf i.seen e).bind CachedUpdates.total).map fun n =>
      thr Value.toInt 1 (i.cfg.rules .updatesPending) ≤ n
  | .securityUpdates => ((updatesOf i.seen e).bind CachedUpdates.security).map fun n => 0 < n
  | .rebootRequired => (updatesOf i.seen e).bind CachedUpdates.reboot
  | .certExpiring => (certDaysOf i.seen e).map fun d =>
      d < thr Value.toInt 30 (i.cfg.rules .certExpiring)
  | r => (postureOf i.seen e).bind fun p => p.flags r

/-- What the command of a custom rule printed. -/
def output (i : Iteration) (r : CustomRule) (e : Entry) : String :=
  (i.seen.command r e).stdout ++ "\n" ++ (i.seen.command r e).stderr

/-- The same for a custom rule: the command has to run and its expression to compile. -/
def customReading (i : Iteration) (r : CustomRule) (e : Entry) : Option Bool :=
  if (i.seen.command r e).error = none then
    (py.search r.regex (output i r e)).map fun found => decide (found.isNone = r.absent)
  else none

/-- The hosts that the custom rules are checked on. -/
def checked (i : Iteration) : List Entry :=
  listMergedHosts i.seen.customAgents i.seen.customSsh false

/-- A reading of the host for the rule was obtained and does not meet its condition. -/
def Clears (i : Iteration) (host : String) : RuleName → Prop
  | .builtin r => ∃ e ∈ gathered i, e.id = host ∧ reading py i e r = some false
  | .custom id => ∃ r ∈ i.cfg.custom, r.active = true ∧ r.id = id ∧
      ∃ e ∈ checked i, e.id = host ∧ customReading py i r e = some false

/-- The rule is disabled or deleted. -/
def Off (i : Iteration) : RuleName → Prop
  | .builtin r => (i.cfg.rules r).enabled = false
  | .custom id => ∀ r ∈ i.cfg.custom, r.id = id → r.enabled = false

/-- Both listings were read, and no host in the list goes by this name. -/
def Missing (agents : Option Agents) (ssh : Option SshHosts) (host : String) : Prop :=
  ∃ a s, agents = some a ∧ ssh = some s ∧ ∀ p ∈ rows a s, p.id ≠ host ∧ p.label ≠ host

/-- The host is not in an inventory that this iteration has read. -/
def Gone (i : Iteration) (host : String) : Prop :=
  hasBuiltin i.cfg = true ∧ Missing i.seen.agents i.seen.ssh host ∨
    i.cfg.custom.any CustomRule.active = true ∧
      Missing i.seen.customAgents i.seen.customSsh host

/-- Every key that the iteration reports as resolved is one there is evidence for. -/
def ResolvedWithEvidence (prev : Finset String) (i : Iteration) : Prop :=
  ∀ k ∈ resolved py i prev, ∃ host rule, keyOf host rule = k ∧
    (Clears py i host rule ∨ Off i rule ∨ Gone i host)

/-- The iteration learns how the host stands with the rule: it has a reading, and the text that
the pattern of a custom rule matched is not empty; or the command failed, and what came back
without it fires. -/
def Told (i : Iteration) (host : String) : RuleName → Prop
  | .builtin r => ∃ e ∈ gathered i, e.id = host ∧ (reading py i e r).isSome = true
  | .custom id => ∃ r ∈ i.cfg.custom, r.active = true ∧ r.id = id ∧ ∃ e ∈ checked i, e.id = host ∧
      ∃ found, py.search r.regex (output i r e) = some found ∧
        if (i.seen.command r e).error = none then r.absent = true ∨ found ≠ some ""
        else if r.absent then found = none else found ≠ none ∧ found ≠ some ""

/-- Every stored key is one that the iteration has a reading for, or that its rule or its host
is gone for. -/
def AllTold (prev : Finset String) (i : Iteration) : Prop :=
  i.reports = true → ∀ k ∈ prev, ∃ host rule, keyOf host rule = k ∧
    (Told py i host rule ∨ Off i rule ∨ Gone i host)

variable {py} {i : Iteration} {prev : Finset String} {e : Entry} {r : Rule} {k host : String}
  {rule : RuleName}

theorem meets_iff_reading :
    meets py i.cfg (gatherHost py i.seen e) r = true ↔ reading py i e r = some true := by
  cases r with
  | hostOffline =>
    simp only [meets, reading, decide_eq_true_eq, Option.map_eq_some_iff]
    simp [gatherHost]
  | failedUnits =>
    simp only [meets, reading, decide_eq_true_eq]
    simp only [gatherHost]
    cases snapshot i.seen e with
    | none => simp
    | some d => cases h : intField "failed" d <;> simp [h]
  | oomEvents =>
    simp only [meets, reading, decide_eq_true_eq]
    simp only [gatherHost]
    cases snapshot i.seen e with
    | none => simp
    | some d => cases h : intField "oom" d <;> simp [h]
  | securityUpdates =>
    simp only [meets, reading, decide_eq_true_eq]
    simp only [gatherHost]
    cases (updatesOf i.seen e).bind CachedUpdates.security <;> simp
  | rebootRequired =>
    simp only [meets, reading, gatherHost]
    cases (updatesOf i.seen e).bind CachedUpdates.reboot <;> simp
  | diskCritical | memHigh | loadHigh | updatesPending | certExpiring =>
    simp only [meets, gatherHost, reading, Option.any_eq_true, Option.map_eq_some_iff]
  | _ =>
    simp only [meets, reading, gatherHost]
    exact decide_eq_true_iff

theorem mem_evaluate : (∃ f ∈ evaluateRules py i.cfg ((gathered i).map (gatherHost py i.seen)),
      f.key = k) ↔
    ∃ e ∈ gathered i, ∃ r, (i.cfg.rules r).enabled = true ∧ reading py i e r = some true ∧
      keyOf e.id (.builtin r) = k := by
  unfold evaluateRules
  simp only [List.mem_flatMap, List.mem_map, exists_exists_and_eq_and]
  constructor
  · rintro ⟨f, ⟨e, he, r, -, hf⟩, rfl⟩
    split_ifs at hf with hr
    · obtain rfl := List.mem_singleton.mp hf
      exact ⟨e, he, r, hr.1, meets_iff_reading.mp hr.2, rfl⟩
    · exact nomatch hf
  · rintro ⟨e, he, r, hen, hread, rfl⟩
    refine ⟨ruleFiring py i.cfg (gatherHost py i.seen e) r, ⟨e, he, r, r.mem_all, ?_⟩, rfl⟩
    rw [if_pos ⟨hen, meets_iff_reading.mpr hread⟩]
    exact List.mem_singleton_self _

/-- The check of a custom rule fires on this host. -/
def CustomFires (py : Python) (i : Iteration) (r : CustomRule) (e : Entry) : Prop :=
  ∃ found, py.search r.regex (output i r e) = some found ∧
    if r.absent then found = none else found ≠ none ∧ found ≠ some ""

theorem customMatch_fires {c : CustomRule} :
    (∃ why, customMatch py c (output i c e) = some why ∧ why ≠ "") ↔ CustomFires py i c e := by
  unfold customMatch CustomFires
  cases hs : py.search c.regex (output i c e) with
  | none => simp
  | some found =>
    by_cases ha : c.absent = true
    · cases found <;> simp [ha]
    · cases found with
      | none => simp [ha]
      | some m =>
        have htake : String.ofList (m.toList.take 200) = "" ↔ m = "" := by
          rw [← String.toList_inj, ← String.toList_inj]
          simp
        simp [ha, htake]

theorem mem_custom : (∃ f ∈ evalCustomRules py i.seen i.cfg, f.key = k) ↔
    ∃ c ∈ i.cfg.custom, c.active = true ∧ ∃ e ∈ checked i, CustomFires py i c e ∧
      keyOf e.id (.custom c.id) = k := by
  unfold evalCustomRules
  simp only [List.mem_flatMap, List.mem_filter]
  constructor
  · rintro ⟨f, ⟨c, ⟨hc, hact⟩, e, he, hf⟩, rfl⟩
    refine ⟨c, hc, hact, e, he, ?_⟩
    cases hm : customMatch py c (output i c e) with
    | none =>
      unfold output at hm
      simp [hm] at hf
    | some why =>
      have hfire := @customMatch_fires py i e c
      unfold output at hm
      simp only [hm] at hf
      split_ifs at hf with hwhy
      · exact nomatch hf
      · obtain rfl := List.mem_singleton.mp hf
        exact ⟨hfire.mp ⟨why, hm, hwhy⟩, rfl⟩
  · rintro ⟨c, hc, hact, e, he, hfire, rfl⟩
    obtain ⟨why, hm, hwhy⟩ := customMatch_fires.mpr hfire
    refine ⟨customFiring c e why, ⟨c, ⟨hc, hact⟩, e, he, ?_⟩, rfl⟩
    unfold output at hm
    simp only [hm, if_neg hwhy]
    exact List.mem_singleton_self _

theorem mem_nowKeys : k ∈ nowKeys py i ↔
    (∃ e ∈ gathered i, ∃ r, (i.cfg.rules r).enabled = true ∧ reading py i e r = some true ∧
      keyOf e.id (.builtin r) = k) ∨
    ∃ c ∈ i.cfg.custom, c.active = true ∧ ∃ e ∈ checked i, CustomFires py i c e ∧
      keyOf e.id (.custom c.id) = k := by
  rw [← mem_evaluate, ← mem_custom]
  simp only [nowKeys, firing, List.mem_toFinset, List.mem_map, List.mem_append, or_and_right,
    exists_or]

theorem customReading_of_ran {c : CustomRule} (herr : (i.seen.command c e).error = none)
    {found : Option String} (hs : py.search c.regex (output i c e) = some found) :
    customReading py i c e = some (decide (found.isNone = c.absent)) := by
  simp [customReading, herr, hs]

/-- What is known of a host where the pattern did not match an empty text either fires or clears. -/
theorem fires_or_clears {c : CustomRule} (herr : (i.seen.command c e).error = none)
    {found : Option String} (hs : py.search c.regex (output i c e) = some found)
    (hne : c.absent = true ∨ found ≠ some "") :
    CustomFires py i c e ∨ customReading py i c e = some false := by
  rw [customReading_of_ran herr hs]
  cases ha : c.absent with
  | true =>
    cases found with
    | none => exact .inl ⟨none, hs, by simp [ha]⟩
    | some m => exact .inr (by simp)
  | false =>
    cases found with
    | none => exact .inr (by simp)
    | some m => exact .inl ⟨some m, hs, by simpa [ha] using hne⟩

theorem told_of_fires {c : CustomRule} (hc : c ∈ i.cfg.custom) (hact : c.active = true)
    (he : e ∈ checked i) (hfire : CustomFires py i c e) : Told py i e.id (.custom c.id) := by
  obtain ⟨found, hs, hfound⟩ := hfire
  refine ⟨c, hc, hact, rfl, e, he, rfl, found, hs, ?_⟩
  by_cases herr : (i.seen.command c e).error = none
  · rw [if_pos herr]
    by_cases ha : c.absent = true
    · exact .inl ha
    · rw [if_neg ha] at hfound
      exact .inr hfound.2
  · rwa [if_neg herr]

theorem told_of_clears (h : Clears py i host rule) : Told py i host rule := by
  cases rule with
  | builtin r =>
    obtain ⟨e, he, hid, hread⟩ := h
    exact ⟨e, he, hid, by simp [hread]⟩
  | custom id =>
    obtain ⟨c, hc, hact, hcid, e, he, hid, hread⟩ := h
    unfold customReading at hread
    by_cases herr : (i.seen.command c e).error = none
    · rw [if_pos herr] at hread
      obtain ⟨found, hs, hfound⟩ := Option.map_eq_some_iff.mp hread
      refine ⟨c, hc, hact, hcid, e, he, hid, found, hs, ?_⟩
      rw [if_pos herr]
      cases found with
      | none => exact .inr (by simp)
      | some m =>
        have ha : c.absent = true := by simpa using hfound
        exact .inl ha
    · rw [if_neg herr] at hread
      exact nomatch hread

/-- What the iteration is told of a key that no longer fires clears it, unless the rule is off. -/
theorem clears_of_told (h : Told py i host rule)
    (hnow : keyOf host rule ∉ nowKeys py i) : Clears py i host rule ∨ Off i rule := by
  cases rule with
  | builtin r =>
    obtain ⟨e, he, rfl, hread⟩ := h
    obtain ⟨b, hb⟩ := Option.isSome_iff_exists.mp hread
    by_cases hen : (i.cfg.rules r).enabled = true
    · cases b with
      | false => exact .inl ⟨e, he, rfl, hb⟩
      | true => exact absurd (mem_nowKeys.mpr (.inl ⟨e, he, r, hen, hb, rfl⟩)) hnow
    · exact .inr (Bool.eq_false_iff.mpr hen)
  | custom id =>
    obtain ⟨c, hc, hact, rfl, e, he, rfl, found, hs, hfound⟩ := h
    have hnot : ¬ CustomFires py i c e := fun hfire =>
      hnow (mem_nowKeys.mpr (.inr ⟨c, hc, hact, e, he, hfire, rfl⟩))
    by_cases herr : (i.seen.command c e).error = none
    · rw [if_pos herr] at hfound
      have hclear := (fires_or_clears herr hs hfound).resolve_left hnot
      exact .inl ⟨c, hc, hact, rfl, e, he, rfl, hclear⟩
    · rw [if_neg herr] at hfound
      exact absurd ⟨found, hs, hfound⟩ hnot

/-- An iteration reports keys as resolved only with evidence exactly if it is told. -/
theorem evidence_iff_told : ResolvedWithEvidence py prev i ↔ AllTold py prev i := by
  constructor
  · intro h hrep k hk
    by_cases hnow : k ∈ nowKeys py i
    · rcases mem_nowKeys.mp hnow with ⟨e, he, r, -, hread, rfl⟩ | ⟨c, hc, hact, e, he, hfire, rfl⟩
      · exact ⟨_, _, rfl, .inl ⟨e, he, rfl, by simp [hread]⟩⟩
      · exact ⟨_, _, rfl, .inl (told_of_fires hc hact he hfire)⟩
    · obtain ⟨host, rule, rfl, hev⟩ := h k (by simp [resolved, hrep, hk, hnow])
      exact ⟨host, rule, rfl, hev.imp_left told_of_clears⟩
  · intro h k hk
    have hrep : i.reports = true := by
      by_contra hrep
      simp [resolved, hrep] at hk
    obtain ⟨hk, hnow⟩ : k ∈ prev ∧ k ∉ nowKeys py i := by simpa [resolved, hrep] using hk
    obtain ⟨host, rule, rfl, htold | hoff⟩ := h hrep k hk
    · rcases clears_of_told htold hnow with hclear | hoff
      · exact ⟨host, rule, rfl, .inl hclear⟩
      · exact ⟨host, rule, rfl, .inr (.inl hoff)⟩
    · exact ⟨host, rule, rfl, .inr hoff⟩

/-- In a run of the loop from any stored keys, no alert is resolved without evidence exactly if
every iteration is told of all the keys it finds stored. -/
theorem run_resolves_with_evidence_iff (py : Python) (stored : Finset String)
    (run : List Iteration) :
    (∀ v ∈ visits py stored run, ResolvedWithEvidence py v.1 v.2) ↔
      ∀ v ∈ visits py stored run, AllTold py v.1 v.2 :=
  forall₂_congr fun _ _ => evidence_iff_told

def plainPython : Python := ⟨fun _ => none, fun _ _ => some none, fun _ => ""⟩

/-- Only the disk rule is on, and mail is. -/
def diskRule : Config :=
  ⟨true, false, fun r => ⟨r = .diskCritical, none⟩, []⟩

def fleet : Agents := ⟨[webAgent "a1b2" "web-01"], nodup_webAgent "a1b2" "web-01"⟩

/-- The agent was heard of a second ago. -/
def sweep (metrics : Option (String → Option String)) : Iteration :=
  ⟨diskRule, ⟨some fleet, some .empty, fun _ => some 99, 100, fun _ => metrics, [], [],
    some fleet, some .empty, fun _ _ => ⟨none, "", ""⟩, false⟩⟩

/-- The metrics line says that the disk is 95% full; at the next sweep the host prints none. -/
def fullDisk : Iteration := sweep (some fun name => if name = "disk" then some "95" else none)

def noMetrics : Iteration := sweep none

def webEntry : Entry := .plain (agentEntry (webAgent "a1b2" "web-01"))

theorem gathered_sweep (m : Option (String → Option String)) : gathered (sweep m) = [webEntry] := by
  have hlist : listMergedHosts (some fleet) (some .empty) false = [webEntry] := by decide
  have hbuiltin : hasBuiltin diskRule = true := by decide
  simp only [gathered, sweep, hbuiltin, if_true, hlist]

theorem diskKey_cases (h : keyOf host rule = "a1b2|disk_critical") :
    host = "a1b2" ∧ rule = .builtin .diskCritical := by
  have hlist := congrArg String.toList h
  have hkey : "a1b2|disk_critical".toList = "a1b2".toList ++ '|' :: "disk_critical".toList := by
    decide
  have htext : (keyOf host rule).toList = host.toList ++ '|' :: rule.text.toList := by
    simp [keyOf]
  rw [htext, hkey] at hlist
  obtain ⟨hhost, -, hrule⟩ :=
    (List.append_cons_inj_of_notMem (by decide) (by decide)).mp hlist.symm
  refine ⟨(String.toList_inj.mp hhost).symm, ?_⟩
  have hrule := (String.toList_inj.mp hrule).symm
  cases rule with
  | builtin r => cases r <;> first | rfl | exact absurd hrule (by decide)
  | custom id =>
    have hmem : ':' ∈ (RuleName.custom id).text.toList := by simp [RuleName.text]
    rw [hrule] at hmem
    exact absurd hmem (by decide)

theorem reading_fullDisk : reading plainPython fullDisk webEntry .diskCritical = some true := by
  have hheard : heard fullDisk.seen webEntry = some true := by
    have hsum : (99 : ℚ) ≠ 0 ∧ (100 : ℚ) - 99 ≤ 20 := by norm_num
    exact congrArg some (decide_eq_true hsum)
  have hdisk : (snapshot fullDisk.seen webEntry).bind (intField "disk") = some 95 := by
    rw [snapshot, hheard]
    decide
  rw [reading, hdisk]
  decide

theorem reading_noMetrics (e : Entry) : reading plainPython noMetrics e .diskCritical = none := by
  have hnone : snapshot noMetrics.seen e = none := by
    unfold snapshot
    split_ifs <;> rfl
  rw [reading, hnone]
  rfl

theorem fullDisk_fires : "a1b2|disk_critical" ∈ nowKeys plainPython fullDisk := by
  rw [mem_nowKeys]
  refine .inl ⟨webEntry, ?_, .diskCritical, by decide, reading_fullDisk, by decide⟩
  rw [fullDisk, gathered_sweep]
  exact List.mem_singleton_self _

/-- The alert on the full disk is resolved by the missing reading. -/
theorem lost_reading_resolves : ∃ v ∈ visits plainPython ∅ [fullDisk, noMetrics],
    ¬ ResolvedWithEvidence plainPython v.1 v.2 := by
  refine ⟨(nextState plainPython fullDisk ∅, noMetrics), by simp [visits], ?_⟩
  have hfires : "a1b2|disk_critical" ∈ nextState plainPython fullDisk ∅ := by
    have hrep : fullDisk.reports = true := by decide
    rw [nextState, if_pos hrep]
    exact fullDisk_fires
  have hquiet : "a1b2|disk_critical" ∉ nowKeys plainPython noMetrics := by
    rw [mem_nowKeys]
    rintro (⟨e, -, r, -, hread, hkey⟩ | ⟨c, hc, -⟩)
    · obtain ⟨-, hr⟩ := diskKey_cases hkey
      obtain rfl := RuleName.builtin.inj hr
      exact nomatch (reading_noMetrics e).symm.trans hread
    · exact nomatch hc
  intro h
  have hrep : noMetrics.reports = true := by decide
  obtain ⟨host, rule, hkey, hev⟩ := h "a1b2|disk_critical" (by simp [resolved, hrep, hfires, hquiet])
  obtain ⟨rfl, rfl⟩ := diskKey_cases hkey
  rcases hev with ⟨e, -, -, hread⟩ | hoff | ⟨-, hmissing⟩ | ⟨hany, -⟩
  · exact nomatch (reading_noMetrics e).symm.trans hread
  · have : true = false := hoff
    exact nomatch this
  · obtain ⟨a, s, ha, hs, hno⟩ := hmissing
    obtain rfl := Option.some.inj ha
    obtain rfl := Option.some.inj hs
    exact (hno (agentEntry (webAgent "a1b2" "web-01")) (by decide)).1 rfl
  · exact absurd hany (by decide)

end AlertRules
