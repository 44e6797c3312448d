import SysibleController.EarlyExit
import SysibleController.PastTrace
import SysibleController.PythonText
import SysibleController.PythonRepr
import Mathlib.Data.Finset.Sort

/-! The Baseline cycle of the console server (`_run_baseline_cycle` and
`_carry_out_baseline_actions`): the calls it makes to the Baseline service, to the hosts and to
the controller's API, and the replies it gets, which may depend on everything before. -/
namespace BaselineCycle

open EarlyExit PastTrace PythonText

/-- A rule action as the service reports it. A missing field and a null one are the same, but
`why` is the text that its `get` with a default formats. -/
structure Action where
  action : Option String
  argument : Option String
  rule : Option String
  why : String
  deriving DecidableEq

structure Item where
  runId : ℤ
  state : String
  version : ℤ
  command : String
  deriving DecidableEq

structure Report where
  ok : Bool
  error : Option String
  actions : List Action
  deriving DecidableEq

/-- `BaselineUnavailable`. -/
structure Unavailable where
  reason : String
  status : ℕ
  deriving DecidableEq

structure Entry where
  id : String
  label : String
  environment : Option String
  deriving DecidableEq

/-- What a dispatched command came back with. -/
structure Output where
  stdout : String
  stderr : String
  deriving DecidableEq

/-- On whose behalf a command is dispatched. -/
inductive Errand where
  | state (item : Item) (preview : Bool)
  | rule (a : Action) (argument : String)
  | reapply (a : Action) (state : String) (version : ℤ)
  deriving DecidableEq

/-- A call with its reply; `none` for a dispatch that raised. -/
inductive Exchange where
  | desired (hostId environment : String) (preview : Bool) (reply : Except Unavailable (List Item))
  | dispatch (hostId command : String) (errand : Errand) (reply : Option Output)
  | report (runId : ℤ) (output : String) (preview : Bool) (reply : Except Unavailable Report)
  | requestConfigCapture (hostId : String)
  | logAction (host text : String)

abbrev Trail := List Exchange

structure World where
  desired : Trail → String → String → Bool → Except Unavailable (List Item)
  dispatch : Trail → String → String → Option Output
  report : Trail → ℤ → String → Bool → Except Unavailable Report
  flashbackConfigured : Bool
  printable : Char → Bool

def knownActions : List String := ["notify", "command", "capture", "reapply"]

def orBlank (text : Option String) : String := text.getD ""

@[irreducible] def Action.kind (a : Action) : String := lower (strip (orBlank a.action))

/-- A format field that may be `None`. -/
def shown (text : Option String) : String := text.getD "None"

def clip (n : ℕ) (text : String) : String := String.ofList (text.toList.take n)

/-- The label of a dispatch in the activity feed. -/
def Errand.description : Errand → String
  | .state item preview =>
    let verb := if preview then "preview" else "apply"
    s!"Baseline {verb}: {item.state} v{item.version}"
  | .rule a argument => clip 200 s!"Baseline rule '{shown a.rule}': {argument}"
  | .reapply a name version =>
    clip 200 s!"Baseline rule '{shown a.rule}': reapply {name} v{version}"

def unknownActions (actions : List Action) : List String :=
  (((actions.map Action.kind).filter fun k => !knownActions.contains k && k ≠ "").toFinset).sort

/-- `entry.get("label") or entry["id"]`. -/
def Entry.name (e : Entry) : String := if e.label = "" then e.id else e.label

structure Cycle where
  trail : Trail
  applied : ℕ
  failed : ℕ
  skipped : ℕ
  notes : List String

def Cycle.note (s : Cycle) (text : String) : Cycle := { s with notes := s.notes ++ [text] }

def Cycle.record (s : Cycle) (x : Exchange) : Cycle := { s with trail := s.trail ++ [x] }

/-- What ends a cycle early: an HTTP error, or an exception of a dispatch. -/
inductive Fault where
  | http (e : HTTPException)
  | raised

abbrev Step := Except (Fault × Cycle) Cycle

variable (world : World)

/-- `_dispatch_one` on one host; its output joined as the cycle joins it. -/
def dispatchOne (e : Entry) (command : String) (errand : Errand) (s : Cycle) :
    Except (Fault × Cycle) (String × Cycle) :=
  let reply := world.dispatch s.trail e.id command
  let s := s.record (.dispatch e.id command errand reply)
  match reply with
  | none => .error (.raised, s)
  | some r => .ok (r.stdout ++ r.stderr, s)

def askReport (runId : ℤ) (output : String) (preview : Bool) (s : Cycle) :
    Except Unavailable Report × Cycle :=
  let reply := world.report s.trail runId output preview
  (reply, s.record (.report runId output preview reply))

def askDesired (e : Entry) (preview : Bool) (s : Cycle) :
    Except Unavailable (List Item) × Cycle :=
  let reply := world.desired s.trail e.id (orBlank e.environment) preview
  (reply, s.record (.desired e.id (orBlank e.environment) preview reply))

/-! ### The actions of one report -/

/-- The second run of a state, whose own actions are not carried out. -/
def reapplyItem (e : Entry) (item : Item) (a : Action) (s : Cycle) : Step :=
  match askDesired world e false s with
  | (.error exc, s) => .ok (s.note s!"{e.name}: could not reapply {item.state} — {exc.reason}")
  | (.ok todo, s) =>
    match todo.filter fun t => t.state = item.state with
    | [] => .ok (s.note (s!"{e.name}: {item.state} was unassigned between the " ++
        "run and its reapply — nothing was run."))
    | t2 :: _ =>
      match dispatchOne world e t2.command (.reapply a item.state t2.version) s with
      | .error fault => .error fault
      | .ok (out, s) =>
        match askReport world t2.runId out false s with
        | (.error exc, s) => .ok (s.note (s!"{e.name}: reapplied {item.state} but could not " ++
            s!"record it — {exc.reason}"))
        | (.ok res2, s) =>
          if res2.ok then .ok (s.note s!"{e.name}: reapplied {item.state} — clean.")
          else
            let detail := match res2.error with
              | none => ""
              | some err => if err = "" then "" else s!" ({err})"
            .ok (s.note (s!"{e.name}: reapplied {item.state} and it is " ++
              s!"STILL not clean{detail}."))

/-- One action; the flag says whether this host has reapplied a state already. -/
def carryOutAction (e : Entry) (item : Item) (preview : Bool) (s : Bool × Cycle) (a : Action) :
    Except (Fault × Cycle) (Bool × Cycle) :=
  let (reapplied, s) := s
  if a.kind ∉ knownActions then .ok (reapplied, s)
  else if a.kind = "command" ∧ orBlank a.argument ≠ "" then
    (dispatchOne world e (orBlank a.argument) (.rule a (orBlank a.argument)) s).map
      fun r => (reapplied, r.2)
  else if a.kind = "capture" ∧ world.flashbackConfigured then
    .ok (reapplied, s.record (.requestConfigCapture e.id))
  else if a.kind = "notify" then
    .ok (reapplied, s.record (.logAction e.name
      (clip 400 s!"Baseline rule '{shown a.rule}': {a.why}")))
  else if a.kind = "reapply" then
    if preview || reapplied then .ok (reapplied, s)
    else (reapplyItem world e item a s).map fun s => (true, s)
  else .ok (reapplied, s)

def carryOutBaselineActions (e : Entry) (actions : List Action) (item : Item) (preview : Bool)
    (s : Cycle) : Step :=
  (actions.foldlM (carryOutAction world e item preview) (false, s)).map Prod.snd

/-! ### The cycle -/

/-- What the reply to a report does to the counters and notes. -/
def Cycle.settle (s : Cycle) (e : Entry) (res : Report) : Cycle :=
  let s :=
    if res.ok then { s with applied := s.applied + 1 }
    else
      let s := { s with failed := s.failed + 1 }
      match res.error with
      | none => s
      | some err => if err = "" then s else s.note s!"{e.label}: {err}"
  let unknown := unknownActions res.actions
  if unknown = [] then s
  else
    let names := ", ".intercalate unknown
    s.note s!"{e.label}: this controller cannot carry out {names} — update it."

def runItem (e : Entry) (preview : Bool) (s : Cycle) (item : Item) : Step :=
  match dispatchOne world e item.command (.state item preview) s with
  | .error fault => .error fault
  | .ok (out, s) =>
    match askReport world item.runId out preview s with
    | (.error exc, s) => .ok ({ s with failed := s.failed + 1 }.note s!"{e.label}: {exc.reason}")
    | (.ok res, s) => carryOutBaselineActions world e res.actions item preview (s.settle e res)

def runTarget (preview : Bool) (s : Cycle) (e : Entry) : Step :=
  match askDesired world e preview s with
  | (.error exc, s) => .error (.http ⟨exc.status, exc.reason⟩, s)
  | (.ok todo, s) =>
    if todo = [] then .ok { s with skipped := s.skipped + 1 }
    else todo.foldlM (runItem world e preview) s

/-- The hosts as a dict by id. -/
def byId (hosts : List Entry) : List Entry :=
  hosts.foldl (fun entries e => if entries.any (·.id = e.id)
    then entries.map fun x => if x.id = e.id then e else x else entries ++ [e]) []

/-- A host by its id, or a whole environment. -/
def targetsOf (hosts : List Entry) (hostId : String) : List Entry :=
  if "env:".toList <+: hostId.toList then
    (byId hosts).filter fun e => orBlank e.environment = String.ofList (hostId.toList.drop 4)
  else ((byId hosts).find? fun e => e.id = hostId).toList

structure Summary where
  host : String
  preview : Bool
  applied : ℕ
  failed : ℕ
  skipped : ℕ
  detail : String

def summary (hostId : String) (preview : Bool) (s : Cycle) : Summary :=
  let verb := if preview then "Previewed" else "Applied"
  let bits := [s!"{verb} on {s.applied} host(s)"] ++
    (if s.failed = 0 then [] else [s!"{s.failed} failed"]) ++
    (if s.skipped = 0 then [] else [s!"{s.skipped} had nothing declared"])
  let notes := if s.notes = [] then "." else ". " ++ " ".intercalate (s.notes.take 3)
  ⟨hostId, preview, s.applied, s.failed, s.skipped, "; ".intercalate bits ++ notes⟩

def Cycle.start : Cycle := ⟨[], 0, 0, 0, []⟩

def runTargets (hosts : List Entry) (hostId : String) (preview : Bool) : Step :=
  if targetsOf hosts hostId = [] then
    let shown := String.ofList (PythonRepr.repr world.printable hostId.toList)
    .error (.http ⟨404, s!"No host or environment {shown}."⟩, .start)
  else (targetsOf hosts hostId).foldlM (runTarget world preview) .start

/-- What the route answers, and every call that was made. -/
def runBaselineCycle (hosts : List Entry) (hostId : String) (preview : Bool) :
    Except Fault Summary × Trail :=
  match runTargets world hosts hostId preview with
  | .ok s => (.ok (summary hostId preview s), s.trail)
  | .error (fault, s) => (.error fault, s.trail)

/-! ### A preview -/

/-- In a preview: commands only as the service named them for it, and no rule carried out. -/
def HarmlessAt (past : Trail) : Exchange → Prop
  | .desired _ _ preview _ => preview = true
  | .dispatch _ command errand _ => ∃ item, errand = .state item true ∧ command = item.command ∧
      ∃ hostId environment todo, .desired hostId environment true (.ok todo) ∈ past ∧ item ∈ todo
  | .report .. => True
  | .requestConfigCapture _ => False
  | .logAction .. => True

def PreviewHarmless (trail : Trail) : Prop := AtEach HarmlessAt trail

/-- The actions that are carried out in a preview too. -/
def CarriedOut (configured : Bool) (a : Action) : Prop :=
  (a.kind = "command" ∧ orBlank a.argument ≠ "") ∨ (a.kind = "capture" ∧ configured = true)

def AsksNothing (configured : Bool) : Exchange → Prop
  | .report _ _ _ (.ok res) => ∀ a ∈ res.actions, ¬CarriedOut configured a
  | _ => True

/-- What carrying out actions adds to a trail. -/
structure Judged (configured : Bool) (asked : List Action) (s t : Cycle) : Prop where
  grows : s.trail <+: t.trail
  harmless : AtEach HarmlessAt t.trail ↔
    AtEach HarmlessAt s.trail ∧ ∀ a ∈ asked, ¬CarriedOut configured a
  asks : (∀ x ∈ t.trail, AsksNothing configured x) ↔ ∀ x ∈ s.trail, AsksNothing configured x

section Preview

variable {world : World} {configured : Bool} {s s' t : Cycle} {asked : List Action} {a : Action}
  {x : Exchange} {e : Entry} {item : Item}

theorem Judged.refl (s : Cycle) : Judged configured [] s s :=
  ⟨List.prefix_rfl, by simp, Iff.rfl⟩

/-- One more action and the call it led to, which is harmless exactly if the action is. -/
theorem Judged.snoc (h : Judged configured asked s t) (hx : AsksNothing configured x)
    (ha : ∀ past, HarmlessAt past x ↔ ¬CarriedOut configured a) :
    Judged configured (asked ++ [a]) s (t.record x) := by
  refine ⟨h.grows.trans (List.prefix_append ..), ?_, ?_⟩
  · rw [Cycle.record, atEach_snoc, h.harmless, ha]
    simp [or_imp, forall_and, and_assoc]
  · rw [← h.asks]
    simp [Cycle.record, or_imp, forall_and, hx]

theorem Judged.idle (h : Judged configured asked s t) (ha : ¬CarriedOut configured a) :
    Judged configured (asked ++ [a]) s t := by
  refine ⟨h.grows, ?_, h.asks⟩
  rw [h.harmless]
  simp [or_imp, forall_and, ha]

/-- Once an action has been carried out, it does not matter what else was asked for. -/
theorem Judged.halt (h : Judged configured asked s t) (ha : a ∈ asked)
    (hcarried : CarriedOut configured a) {more : List Action} (hsub : ∀ b ∈ asked, b ∈ more) :
    Judged configured more s t := by
  refine ⟨h.grows, ?_, h.asks⟩
  rw [h.harmless]
  constructor
  · exact fun hn => absurd hcarried (hn.2 a ha)
  · exact fun hn => absurd hcarried (hn.2 a (hsub a ha))

theorem kind_known {k : String} (hk : k = "command" ∨ k = "capture") : k ∈ knownActions := by
  rcases hk with rfl | rfl <;> decide

/-- One action of a report, in a preview. -/
theorem carryOutAction_judged {reapplied : Bool} {asked : List Action}
    (h : Judged world.flashbackConfigured asked s t) (todo : List Action) :
    Ends (fun r => Judged world.flashbackConfigured (asked ++ [a]) s r.2)
      (fun r => Judged world.flashbackConfigured (asked ++ a :: todo) s r.2)
      (carryOutAction world e item true (reapplied, t) a) := by
  unfold carryOutAction
  dsimp only
  by_cases hknown : a.kind ∈ knownActions
  swap
  · rw [if_pos hknown]
    refine h.idle fun hc => hknown (kind_known ?_)
    exact hc.imp And.left And.left
  rw [if_neg (not_not.mpr hknown)]
  by_cases hcommand : a.kind = "command" ∧ orBlank a.argument ≠ ""
  · rw [if_pos hcommand]
    have hcarried : CarriedOut world.flashbackConfigured a := .inl hcommand
    have hbad : ∀ reply past, HarmlessAt past (.dispatch e.id (orBlank a.argument)
        (.rule a (orBlank a.argument)) reply) ↔ ¬CarriedOut world.flashbackConfigured a :=
      fun reply past => iff_of_false (by simp [HarmlessAt]) (not_not.mpr hcarried)
    unfold dispatchOne
    dsimp only
    cases world.dispatch t.trail e.id (orBlank a.argument) with
    | some out => exact h.snoc (x := .dispatch e.id _ _ (some out)) trivial (hbad (some out))
    | none =>
      exact (h.snoc (x := .dispatch e.id _ _ none) trivial (hbad none)).halt (by simp) hcarried
        (by simp +contextual [or_imp])
  rw [if_neg hcommand]
  by_cases hcapture : a.kind = "capture" ∧ world.flashbackConfigured = true
  · rw [if_pos hcapture]
    exact h.snoc (x := .requestConfigCapture e.id) trivial fun past =>
      iff_of_false id (not_not.mpr (.inr hcapture))
  rw [if_neg hcapture]
  have hidle : ¬CarriedOut world.flashbackConfigured a := by
    rintro (hc | hc)
    · exact hcommand hc
    · exact hcapture hc
  by_cases hnotify : a.kind = "notify"
  · rw [if_pos hnotify]
    exact h.snoc trivial fun past => iff_of_true trivial hidle
  rw [if_neg hnotify]
  by_cases hreapply : a.kind = "reapply"
  · rw [if_pos hreapply, if_pos (Bool.true_or _)]
    exact h.idle hidle
  · rw [if_neg hreapply]
    exact h.idle hidle

theorem carryOut_judged (e : Entry) (actions : List Action) (item : Item) (s : Cycle) :
    Ends (Judged world.flashbackConfigured actions s)
      (fun r => Judged world.flashbackConfigured actions s r.2)
      (carryOutBaselineActions world e actions item true s) := by
  have hloop := Ends.foldlM (f := carryOutAction world e item true)
    (I := fun done todo r => done ++ todo = actions ∧
      Judged world.flashbackConfigured done s r.2)
    (E := fun r => Judged world.flashbackConfigured actions s r.2)
    (fun done a todo r ⟨hsplit, h⟩ => ?_) actions [] (false, s) ⟨rfl, .refl s⟩
  · unfold carryOutBaselineActions
    cases hr : actions.foldlM (carryOutAction world e item true) (false, s) with
    | ok r =>
      rw [hr] at hloop
      exact List.nil_append actions ▸ hloop.2
    | error fault =>
      rw [hr] at hloop
      exact hloop
  · have hone : Ends (fun r => Judged world.flashbackConfigured (done ++ [a]) s r.2)
        (fun r => Judged world.flashbackConfigured (done ++ a :: todo) s r.2)
        (carryOutAction world e item true r a) := carryOutAction_judged h todo
    rw [hsplit] at hone
    exact hone.mono (fun r h => ⟨by simpa using hsplit, h⟩) fun _ h => h

/-- The condition and the property, for the trail of a cycle so far. -/
def Agrees (configured : Bool) (trail : Trail) : Prop :=
  PreviewHarmless trail ↔ ∀ x ∈ trail, AsksNothing configured x

theorem Agrees.snoc {trail : Trail} (h : Agrees configured trail) (hx : HarmlessAt trail x)
    (hquiet : AsksNothing configured x) : Agrees configured (trail ++ [x]) := by
  unfold Agrees PreviewHarmless at *
  rw [atEach_snoc, h]
  simp [or_imp, forall_and, hx, hquiet]

/-- A report and the actions it leads to. -/
theorem Agrees.judged {res : Report} {runId : ℤ} {output : String}
    (h : Agrees configured s.trail)
    (hs : s'.trail = s.trail ++ [.report runId output true (.ok res)])
    (hj : Judged configured res.actions s' t) : Agrees configured t.trail := by
  unfold Agrees PreviewHarmless at *
  rw [hj.harmless, hj.asks, hs, atEach_snoc, h]
  simp [or_imp, forall_and, HarmlessAt, AsksNothing]

@[simp] theorem note_trail (s : Cycle) (text : String) : (s.note text).trail = s.trail := rfl

@[simp] theorem settle_trail (s : Cycle) (e : Entry) (res : Report) :
    (s.settle e res).trail = s.trail := by
  unfold Cycle.settle
  dsimp only
  have hfailed : ∀ s : Cycle, (match res.error with
      | none => s
      | some err => if err = "" then s else s.note s!"{e.label}: {err}").trail = s.trail := by
    intro s
    cases res.error with
    | none => rfl
    | some err =>
      dsimp only
      split_ifs <;> rfl
  split_ifs
  · rfl
  · exact hfailed _
  · rfl
  · exact hfailed _

/-- A state of the preview: its command was named by the service. -/
theorem runItem_agrees (h : Agrees world.flashbackConfigured s.trail)
    (hitem : ∃ hostId environment todo,
      .desired hostId environment true (.ok todo) ∈ s.trail ∧ item ∈ todo) :
    Ends (fun t => Agrees world.flashbackConfigured t.trail ∧ s.trail <+: t.trail)
      (fun r => Agrees world.flashbackConfigured r.2.trail) (runItem world e true s item) := by
  have hstate : ∀ reply, HarmlessAt s.trail (.dispatch e.id item.command (.state item true) reply) :=
    fun reply => ⟨item, rfl, rfl, hitem⟩
  unfold runItem dispatchOne askReport
  dsimp only
  cases world.dispatch s.trail e.id item.command with
  | none => exact h.snoc (hstate _) trivial
  | some out =>
    dsimp only
    have h1 := h.snoc (hstate (some out)) trivial
    split
    · rename_i exc t heq
      obtain ⟨hreply, rfl⟩ := Prod.mk.inj heq
      rw [hreply]
      exact ⟨h1.snoc trivial trivial,
        (List.prefix_append _ _).trans (List.prefix_append _ _)⟩
    · rename_i res t heq
      obtain ⟨hreply, rfl⟩ := Prod.mk.inj heq
      rw [hreply]
      refine (carryOut_judged e res.actions item _).mono (fun t hj => ⟨?_, ?_⟩) fun r hj => ?_
      · exact h1.judged (settle_trail ..) hj
      · have hgrows := hj.grows
        rw [settle_trail] at hgrows
        exact ((List.prefix_append _ _).trans (List.prefix_append _ _)).trans hgrows
      · exact h1.judged (settle_trail ..) hj

theorem runTarget_agrees (h : Agrees world.flashbackConfigured s.trail) :
    Ends (fun t => Agrees world.flashbackConfigured t.trail)
      (fun r => Agrees world.flashbackConfigured r.2.trail) (runTarget world true s e) := by
  unfold runTarget askDesired
  dsimp only
  split
  · rename_i exc t heq
    obtain ⟨hreply, rfl⟩ := Prod.mk.inj heq
    rw [hreply]
    exact h.snoc rfl trivial
  · rename_i todo t heq
    obtain ⟨hreply, rfl⟩ := Prod.mk.inj heq
    rw [hreply]
    have h1 := h.snoc (x := .desired e.id (orBlank e.environment) true (.ok todo)) rfl trivial
    split_ifs
    · exact h1
    · have hloop := Ends.foldlM (f := runItem world e true)
        (I := fun done rest t => done ++ rest = todo ∧ Agrees world.flashbackConfigured t.trail ∧
          .desired e.id (orBlank e.environment) true (.ok todo) ∈ t.trail)
        (E := fun r => Agrees world.flashbackConfigured r.2.trail)
        (fun done item rest t ⟨hsplit, ht, hmem⟩ => ?_) todo []
        (s.record (.desired e.id (orBlank e.environment) true (.ok todo)))
        ⟨rfl, h1, by simp [Cycle.record]⟩
      · exact hloop.mono (fun t ht => ht.2.1) fun _ hr => hr
      · have hitem : item ∈ todo := by simp [← hsplit]
        refine (runItem_agrees ht ⟨_, _, todo, hmem, hitem⟩).mono (fun u ⟨hu, hgrows⟩ => ?_)
          fun _ hr => hr
        exact ⟨by simpa using hsplit, hu, hgrows.subset hmem⟩

end Preview

/-- Exactly when a preview changes nothing: for every service, every host or environment. -/
theorem preview_harmless_iff (world : World) (hosts : List Entry) (hostId : String) :
    PreviewHarmless (runBaselineCycle world hosts hostId true).2 ↔
      ∀ x ∈ (runBaselineCycle world hosts hostId true).2,
        AsksNothing world.flashbackConfigured x := by
  have hstart : Agrees world.flashbackConfigured Cycle.start.trail := by
    refine iff_of_true ?_ (by simp [Cycle.start])
    intro past x rest hnil
    simp [Cycle.start] at hnil
  have hruns : Ends (fun t => Agrees world.flashbackConfigured t.trail)
      (fun r => Agrees world.flashbackConfigured r.2.trail)
      (runTargets world hosts hostId true) := by
    unfold runTargets
    split_ifs
    · exact hstart
    · exact Ends.foldlM (I := fun _ _ (t : Cycle) => Agrees world.flashbackConfigured t.trail)
        (fun _ _ _ _ ht => runTarget_agrees ht) _ [] _ hstart
  unfold runBaselineCycle
  cases hr : runTargets world hosts hostId true with
  | ok t =>
    rw [hr] at hruns
    exact hruns
  | error fault =>
    rw [hr] at hruns
    exact hruns

/-- A service with one state, whose report fires one rule. -/
def ruleWorld (a : Action) : World where
  desired _ _ _ _ := .ok [⟨1, "web", 2, "salt-call test"⟩]
  dispatch _ _ _ := some ⟨"ok", ""⟩
  report _ _ _ _ := .ok ⟨true, none, [a]⟩
  flashbackConfigured := true
  printable _ := true

theorem kind_command : (⟨some "command", some "reboot", none, ""⟩ : Action).kind = "command" := by
  unfold Action.kind
  decide

/-- A preview in which a rule of the kind `command` fires: its command runs on the host. -/
theorem preview_runs_command : ¬PreviewHarmless (runBaselineCycle
    (ruleWorld ⟨some "command", some "reboot", none, ""⟩)
    [⟨"h1", "web-1", none⟩] "h1" true).2 := by
  have htargets : targetsOf [⟨"h1", "web-1", none⟩] "h1" = [⟨"h1", "web-1", none⟩] := by decide
  have htrail : (runBaselineCycle (ruleWorld ⟨some "command", some "reboot", none, ""⟩)
      [⟨"h1", "web-1", none⟩] "h1" true).2 =
      [.desired "h1" "" true (.ok [⟨1, "web", 2, "salt-call test"⟩]),
        .dispatch "h1" "salt-call test" (.state ⟨1, "web", 2, "salt-call test"⟩ true)
          (some ⟨"ok", ""⟩),
        .report 1 "ok" true (.ok ⟨true, none, [⟨some "command", some "reboot", none, ""⟩]⟩)] ++
      .dispatch "h1" "reboot" (.rule ⟨some "command", some "reboot", none, ""⟩ "reboot")
        (some ⟨"ok", ""⟩) :: [] := by
    simp [runBaselineCycle, runTargets, htargets, runTarget, askDesired, ruleWorld, runItem,
      dispatchOne, askReport, carryOutBaselineActions, carryOutAction, kind_command, orBlank,
      Cycle.record, Cycle.start, knownActions, Except.map]
  intro h
  obtain ⟨item, herrand, -⟩ := h _ _ _ htrail
  cases herrand

end BaselineCycle
