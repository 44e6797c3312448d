import SysibleController.Interleaving
import SysibleController.JsonValue
import SysibleController.PythonStrip
import Mathlib.Data.Multiset.MapFold

/-! Who changes the custom alert rules (`alerts_set`, `set_config`): the guard reads the stored rules
in one step, the write stores the rules of the request in another, and calls interleave. Reading and
writing the file itself does not fail. -/
namespace AlertSettings

open JsonValue PythonText TransitionSystem Interleaving

/-- A call raises or returns. -/
abbrev Raises (α : Type) := Except Unit α

/-- What `re.compile` does with an expression. -/
inductive Compiled where
  | valid
  | invalid
  | raises
  deriving DecidableEq

/-- A custom rule as `_sanitize_custom` writes it. -/
structure Rule where
  id : Json
  name : String
  command : String
  regex : String
  absent : Bool
  enabled : Bool
  stripped : strip name = name

def modeText (absent : Bool) : String := if absent then "absent" else "present"

def Rule.json (r : Rule) : Json :=
  .obj [("id", r.id), ("name", .str r.name), ("command", .str r.command), ("regex", .str r.regex),
    ("mode", .str (modeText r.absent)), ("enabled", .bool r.enabled)]

def rulesJson (rules : List Rule) : Json := .arr (rules.map Rule.json)

def isText (text : String) : Option Json → Bool
  | some (.str s) => s = text
  | _ => false

/-- `(v or default)` where a text is wanted. -/
def textOr (default : String) : Option Json → Raises String
  | none => .ok default
  | some (.str s) => .ok (if s = "" then default else s)
  | some v => if truthy v then .error () else .ok default

/-- What a loop over `rules or []` runs through. -/
def iterated (rules : Json) : Raises (List Json) :=
  if truthy rules then match rules with
    | .arr items => .ok items
    | .str s => .ok (s.toList.map fun c => .str (String.singleton c))
    | .obj fields => .ok (fields.map fun f => .str f.1)
    | _ => .error ()
  else .ok []

variable (compile : String → Compiled)

/-- One rule of `_sanitize_custom`; a rule without a command or a valid expression is dropped. -/
def sanitizeRule (fresh : String) : Json → Raises (Option Rule)
  | .obj r => do
    let cmd := strip (← textOr "" (get "command" r))
    let rx := strip (← textOr "" (get "regex" r))
    if cmd = "" ∨ rx = "" then return none
    match compile rx with
    | .raises => throw ()
    | .invalid => return none
    | .valid =>
      let name ← textOr "custom check" (get "name" r)
      return some
        { id := if truthy (getOr "id" .null r) then getOr "id" .null r else .str fresh
          name := strip name
          command := cmd
          regex := rx
          absent := isText "absent" (get "mode" r)
          enabled := truthy (getOr "enabled" (.bool true) r)
          stripped := strip_strip name }
  | _ => .error ()

def sanitizeItems (fresh : ℕ → String) : List Json → Raises (List Rule)
  | [] => .ok []
  | r :: rest => do
    let kept ← sanitizeRule compile (fresh rest.length) r
    return kept.toList ++ (← sanitizeItems fresh rest)

/-- `_sanitize_custom`, with the ids that are made up for rules without one. -/
def sanitizeCustom (fresh : ℕ → String) (rules : Json) : Raises (List Rule) := do
  sanitizeItems compile fresh (← iterated rules)

/-- A rule as the guard sees it. A command that is not a text is none that a request can have. -/
structure NormRule where
  command : Option String
  regex : Option String
  absent : Bool
  name : String
  enabled : Bool
  deriving DecidableEq

def asText : Json → Option String
  | .str s => some s
  | _ => none

def normRule : Json → Raises NormRule
  | .obj r => do
    let name ← textOr "" (get "name" r)
    return ⟨asText (getOr "command" (.str "") r), asText (getOr "regex" (.str "") r),
      isText "absent" (get "mode" r), strip name, truthy (getOr "enabled" (.bool true) r)⟩
  | _ => .error ()

def normItems : List Json → Raises (Multiset NormRule)
  | [] => .ok 0
  | r :: rest => do
    let head ← normRule r
    return head ::ₘ (← normItems rest)

/-- `norm_custom_rules`: sorted lists are compared, so what counts is the multiset. -/
def normCustomRules (rules : Json) : Raises (Multiset NormRule) := do
  normItems (← iterated rules)

/-! ### The calls -/

/-- A request to store settings: the role of its session, and its custom rules if it has any. -/
structure Request where
  superuser : Bool
  custom : Option Json

/-- The guard looks at the rules. -/
def Request.guarded (r : Request) : Bool := !r.superuser && r.custom.any fun v => !v.isNull

/-- The rules of the request are those that are stored. -/
def Unchanged (r : Request) (stored : Json) : Prop :=
  ∃ v fresh rules norm, r.custom = some v ∧ sanitizeCustom compile fresh v = .ok rules ∧
    normCustomRules (rulesJson rules) = .ok norm ∧ normCustomRules stored = .ok norm

/-- A call before its guard, and behind it with what the guard has read, if it has. -/
inductive Thread where
  | arrived (r : Request)
  | passed (r : Request) (read : Option Json)

inductive Effect where
  | checked
  | refused
  | wrote (before after : Json)

/-- The atomic actions of `alerts_set`. Any write may also raise before it has stored anything, as
it does for rules that it cannot read. -/
inductive Act : Json → Thread → Effect → Json → Option Thread → Prop where
  | skip {s r} : r.guarded = false → Act s (.arrived r) .checked s (some (.passed r none))
  | pass {s r} : r.guarded = true → Unchanged compile r s →
      Act s (.arrived r) .checked s (some (.passed r (some s)))
  | refuse {s r} : r.guarded = true → ¬ Unchanged compile r s → Act s (.arrived r) .refused s none
  | keep {s r read} : r.custom = none → Act s (.passed r read) (.wrote s s) s none
  | write {s r read v rules fresh} : r.custom = some v →
      sanitizeCustom compile fresh v = .ok rules →
      Act s (.passed r read) (.wrote s (rulesJson rules)) (rulesJson rules) none
  | raise {s r read} : Act s (.passed r read) .refused s none

def alertsSet : Program Json Thread Effect :=
  ⟨fun th => ∃ r, th = .arrived r, Act compile⟩

/-! ### What is stored of the rules -/

/-- Command, expression, mode, name and state of a stored rule. -/
structure RuleTuple where
  command : Option Json
  regex : Option Json
  mode : Option Json
  name : Option Json
  enabled : Option Json

def ruleTuple : Json → RuleTuple
  | .obj r => ⟨get "command" r, get "regex" r, get "mode" r, get "name" r, get "enabled" r⟩
  | _ => ⟨none, none, none, none, none⟩

def ruleTuples : Json → Multiset RuleTuple
  | .arr items => (items.map ruleTuple : Multiset RuleTuple)
  | _ => 0

/-- The stored form of what the guard sees. -/
def NormRule.tuple (n : NormRule) : RuleTuple :=
  ⟨n.command.map Json.str, n.regex.map Json.str, some (.str (modeText n.absent)),
    some (.str n.name), some (.bool n.enabled)⟩

/-- The condition on a write behind the guard: the request has no rules; or `null` for rules, and
none are stored; or the rules that are stored now are what the guard has read, in the form in which
rules are written. -/
def WriteFits (r : Request) (read : Option Json) (stored : Json) : Prop :=
  match read with
  | some seen => ∃ norm, normCustomRules seen = .ok norm ∧
      ruleTuples stored = norm.map NormRule.tuple
  | none => r.custom = none ∨ ruleTuples stored = 0

abbrev Log := List (Event Thread Effect)

/-- Every write of a session that is not a superuser's keeps the stored rules. -/
def RulesKept (log : Log) : Prop :=
  ∀ r read before after, .act (.passed r read) (.wrote before after) ∈ log →
    r.superuser = false → ruleTuples after = ruleTuples before

def WritesFit (log : Log) : Prop :=
  ∀ r read before after, .act (.passed r read) (.wrote before after) ∈ log →
    r.superuser = false → WriteFits r read before

variable {compile} {r : Request} {rules : List Rule} {read : Option Json}

def Rule.norm (r : Rule) : NormRule := ⟨some r.command, some r.regex, r.absent, r.name, r.enabled⟩

theorem modeText_absent (b : Bool) : decide (modeText b = "absent") = b := by
  cases b <;> decide

theorem textOr_str (s : String) : textOr "" (some (.str s)) = .ok s := by
  by_cases h : s = "" <;> simp [textOr, h]

theorem normRule_json (r : Rule) : normRule r.json = .ok r.norm := by
  simp [normRule, Rule.json, JsonValue.get, getOr, List.lookup_cons, textOr_str, asText, isText,
    modeText_absent, r.stripped, truthy, Rule.norm, bind, Except.bind, pure, Except.pure]

theorem normItems_json (rules : List Rule) :
    normItems (rules.map Rule.json) = .ok (rules.map Rule.norm : Multiset NormRule) := by
  induction rules with
  | nil => rfl
  | cons r rest ih =>
    simp [normItems, normRule_json, ih, bind, Except.bind, pure, Except.pure]

theorem normCustomRules_json (rules : List Rule) :
    normCustomRules (rulesJson rules) = .ok (rules.map Rule.norm : Multiset NormRule) := by
  have hiter : iterated (rulesJson rules) = .ok (rules.map Rule.json) := by
    cases rules <;> simp [iterated, rulesJson, truthy]
  rw [normCustomRules, hiter]
  exact normItems_json rules

theorem ruleTuple_json (r : Rule) : ruleTuple r.json = r.norm.tuple := by
  simp [ruleTuple, Rule.json, JsonValue.get, List.lookup_cons, Rule.norm, NormRule.tuple]

theorem ruleTuples_json (rules : List Rule) :
    ruleTuples (rulesJson rules) = (rules.map Rule.norm : Multiset NormRule).map NormRule.tuple := by
  simp [ruleTuples, rulesJson, Function.comp_def, ruleTuple_json]

/-! ### Writes behind the guard -/

theorem sanitizeRule_norm (fresh' : String) {fresh : String} {j : Json} {kept : Option Rule}
    (h : sanitizeRule compile fresh j = .ok kept) :
    ∃ kept', sanitizeRule compile fresh' j = .ok kept' ∧
      kept'.map Rule.norm = kept.map Rule.norm := by
  cases j with
  | obj r =>
    simp only [sanitizeRule, bind, Except.bind, pure, Except.pure] at h ⊢
    cases hcmd : textOr "" (get "command" r) with
    | error => simp [hcmd] at h
    | ok cmd =>
      cases hrx : textOr "" (get "regex" r) with
      | error => simp [hcmd, hrx] at h
      | ok rx =>
        simp only [hcmd, hrx] at h ⊢
        by_cases hblank : strip cmd = "" ∨ strip rx = ""
        · rw [if_pos hblank] at h ⊢
          exact ⟨kept, h, rfl⟩
        · rw [if_neg hblank] at h ⊢
          cases hcomp : compile (strip rx) with
          | raises => simp [hcomp, throw, throwThe, MonadExceptOf.throw] at h
          | invalid =>
            simp only [hcomp] at h ⊢
            exact ⟨kept, h, rfl⟩
          | valid =>
            cases hname : textOr "custom check" (get "name" r) with
            | error => simp [hcomp, hname] at h
            | ok name =>
              simp only [hcomp, hname, Except.ok.injEq] at h ⊢
              subst h
              exact ⟨_, rfl, rfl⟩
  | null | bool b | int n | float q | str t | arr l => exact nomatch h

theorem sanitizeItems_norm (fresh' : ℕ → String) {fresh : ℕ → String} {items : List Json} {rules : List Rule}
    (h : sanitizeItems compile fresh items = .ok rules) :
    ∃ rules', sanitizeItems compile fresh' items = .ok rules' ∧
      rules'.map Rule.norm = rules.map Rule.norm := by
  induction items generalizing rules with
  | nil =>
    obtain rfl := Except.ok.inj h
    exact ⟨[], rfl, rfl⟩
  | cons j rest ih =>
    simp only [sanitizeItems, bind, Except.bind, pure, Except.pure] at h ⊢
    cases hj : sanitizeRule compile (fresh rest.length) j with
    | error => simp [hj] at h
    | ok kept =>
      cases hrest : sanitizeItems compile fresh rest with
      | error => simp [hj, hrest] at h
      | ok tail =>
        simp only [hj, hrest, Except.ok.injEq] at h
        obtain ⟨kept', hj', hkept⟩ := sanitizeRule_norm (fresh' rest.length) hj
        obtain ⟨tail', hrest', htail⟩ := ih hrest
        refine ⟨kept'.toList ++ tail', by simp [hj', hrest'], ?_⟩
        rw [← h, List.map_append, List.map_append, htail, ← Option.toList_map,
          ← Option.toList_map, hkept]

/-- The ids that are made up do not show in what the guard compares. -/
theorem sanitizeCustom_norm {fresh fresh' : ℕ → String} {v : Json} {rules rules' : List Rule}
    (h : sanitizeCustom compile fresh v = .ok rules)
    (h' : sanitizeCustom compile fresh' v = .ok rules') :
    rules.map Rule.norm = rules'.map Rule.norm := by
  unfold sanitizeCustom at h h'
  cases hiter : iterated v with
  | error => simp [hiter, bind, Except.bind] at h
  | ok items =>
    simp only [hiter, bind, Except.bind] at h h'
    obtain ⟨rules'', h'', hnorm⟩ := sanitizeItems_norm fresh h'
    obtain rfl := Except.ok.inj (h.symm.trans h'')
    exact hnorm

theorem sanitizeCustom_null {fresh : ℕ → String} (h : sanitizeCustom compile fresh .null = .ok rules) :
    rules = [] :=
  (Except.ok.inj h).symm

/-- What a thread behind the guard relies on. -/
def Checked (compile : String → Compiled) : Thread → Prop
  | .arrived _ => True
  | .passed r none => r.guarded = false
  | .passed r (some seen) => r.guarded = true ∧ Unchanged compile r seen

theorem custom_of_guarded (h : r.guarded = true) : ∃ v, r.custom = some v := by
  unfold Request.guarded at h
  cases hc : r.custom with
  | none => simp [hc] at h
  | some v => exact ⟨v, rfl⟩

theorem null_of_not_guarded {v : Json} (h : r.guarded = false) (hrole : r.superuser = false)
    (hc : r.custom = some v) : v = .null := by
  unfold Request.guarded at h
  simp only [hrole, hc, Bool.not_false, Bool.true_and, Option.any_some, Bool.not_eq_false'] at h
  exact isNull_iff.mp h

/-- A write keeps the stored rules exactly if it fits. -/
theorem write_iff {s s' before after : Json} {next : Option Thread}
    (hth : Checked compile (.passed r read)) (hrole : r.superuser = false)
    (hact : Act compile s (.passed r read) (.wrote before after) s' next) :
    ruleTuples after = ruleTuples before ↔ WriteFits r read before := by
  cases hact with
  | keep hc =>
    cases read with
    | none => exact iff_of_true rfl (.inl hc)
    | some seen =>
      obtain ⟨v, hv⟩ := custom_of_guarded hth.1
      exact nomatch hc.symm.trans hv
  | @write _ _ v rules fresh hc hrules =>
    cases read with
    | none =>
      obtain rfl := null_of_not_guarded hth hrole hc
      obtain rfl := sanitizeCustom_null hrules
      have hne : r.custom ≠ none := by simp [hc]
      have hempty : ruleTuples (rulesJson []) = 0 := rfl
      simp only [WriteFits, hne, hempty, false_or, eq_comm]
    | some seen =>
      obtain ⟨-, v', fresh', rules', norm, hc', hrules', hin, hseen⟩ := hth
      obtain rfl := Option.some.inj (hc.symm.trans hc')
      have hnorm : (rules.map Rule.norm : Multiset NormRule) = norm := by
        rw [sanitizeCustom_norm hrules hrules']
        exact Except.ok.inj ((normCustomRules_json rules').symm.trans hin)
      rw [ruleTuples_json, hnorm]
      constructor
      · intro h
        exact ⟨norm, hseen, h.symm⟩
      · intro ⟨norm', hseen', h⟩
        obtain rfl := Except.ok.inj (hseen.symm.trans hseen')
        exact h.symm

/-! ### Runs -/

theorem checked_assertions (compile : String → Compiled) :
    Assertions (alertsSet compile) (fun _ _ => True) (fun _ => True) fun _ th =>
      Checked compile th := by
  constructor
  · intro s th _ hentry
    obtain ⟨r, rfl⟩ := hentry
    trivial
  · intro s pre post th e s' th' _ _ hall hact
    refine ⟨trivial, ?_, ?_⟩
    · intro x hx
      cases hact with
      | skip hg =>
        obtain rfl := Option.some.inj hx
        exact hg
      | pass hg hsame =>
        obtain rfl := Option.some.inj hx
        exact ⟨hg, hsame⟩
      | _ => exact nomatch hx
    · intro x hx
      apply hall
      rcases hx with hx | hx <;> simp [hx]

/-- In every run of `alerts_set` calls, from any stored rules: the writes of those who are not
superusers keep the stored rules exactly if they all fit. -/
theorem rules_kept_iff (compile : String → Compiled) (stored : Json) (log : Log)
    (pool : Pool Json Thread)
    (hrun : ((alertsSet compile).machine stored).Run
      ((alertsSet compile).machine stored).start log pool) :
    RulesKept log ↔ WritesFit log := by
  have hinv : Holds (fun _ => True) (fun _ th => Checked compile th) pool ∧
      ∀ r read before after, .act (.passed r read) (.wrote before after) ∈ log →
        r.superuser = false →
        (ruleTuples after = ruleTuples before ↔ WriteFits r read before) := by
    refine hrun.history (P := fun log pool => Holds (fun _ => True)
      (fun _ th => Checked compile th) pool ∧ ∀ r read before after,
        .act (.passed r read) (.wrote before after) ∈ log → r.superuser = false →
        (ruleTuples after = ruleTuples before ↔ WriteFits r read before)) ?_ ?_
    · exact ⟨holds_start trivial, by simp⟩
    · intro es p e q _ st ⟨hp, hlog⟩
      refine ⟨(checked_assertions compile).step st trivial hp, ?_⟩
      intro r read before after hmem hrole
      rcases List.mem_append.mp hmem with hmem | hmem
      · exact hlog r read before after hmem hrole
      · obtain rfl := List.mem_singleton.mp hmem
        cases st with
        | act hact => exact write_iff (hp.2 _ (by simp)) hrole hact
  exact forall₄_congr fun r read before after => forall₂_congr (hinv.2 r read before after)

/-- One rule is stored, which looks for a process. -/
def watchdog : Rule :=
  ⟨.str "0f3a", "watchdog", "pgrep watchdogd", "[0-9]+", true, true, by decide⟩

/-- The body of the request holds `null` for the rules. -/
def clearing : Request := ⟨false, some .null⟩

def clearingLog : Log :=
  [.call (.arrived clearing), .act (.arrived clearing) .checked,
    .act (.passed clearing none) (.wrote (rulesJson [watchdog]) (rulesJson []))]

theorem clearing_run (compile : String → Compiled) :
    ((alertsSet compile).machine (rulesJson [watchdog])).Run
      ((alertsSet compile).machine (rulesJson [watchdog])).start clearingLog ⟨rulesJson [], []⟩ := by
  refine .cons (.call ⟨clearing, rfl⟩) (.cons (.first (.skip rfl)) (.single (.first_ends ?_)))
  exact @Act.write compile (rulesJson [watchdog]) clearing none .null [] (fun _ => "") rfl rfl

theorem rules_kept_clearing :
    RulesKept clearingLog ↔ WritesFit clearingLog :=
  rules_kept_iff (fun _ => .valid) (rulesJson [watchdog]) clearingLog ⟨rulesJson [], []⟩
    (clearing_run fun _ => .valid)

/-- A session that is not a superuser's removes every rule by sending `null`. -/
theorem null_clears_rules : ∃ log pool,
    ((alertsSet fun _ => .valid).machine (rulesJson [watchdog])).Run
      ((alertsSet fun _ => .valid).machine (rulesJson [watchdog])).start log pool ∧
      ¬ RulesKept log := by
  refine ⟨clearingLog, _, clearing_run _, fun hkept => ?_⟩
  have heq := hkept clearing none (rulesJson [watchdog]) (rulesJson []) (by simp [clearingLog]) rfl
  have hcard := congrArg Multiset.card heq
  exact absurd hcard (by decide)

end AlertSettings
