import SysibleController.MergedHosts
import SysibleController.PythonText
import SysibleController.JsonValue
import Mathlib.Data.List.Infix

/-! One command on one host (`_dispatch_one`): by SSH the reply is there at once, an agent is polled
until it has one. What the senders and the polls come back with is an input. -/
namespace HostDispatch

open MergedHosts JsonValue PythonText

/-- What a request comes back with: it raises with some text, its answer has no content, or the
answer is a JSON value. -/
inductive Answer where
  | raised (text : String)
  | empty
  | value (j : Json)

/-- What `json.loads` makes of a stored result: a value, an error that is caught, or the one that
is not, for a value that is nested too deeply. -/
inductive Loaded where
  | value (j : Json)
  | malformed
  | tooDeep

/-- One request for the results of the task: it fails, there are none, or the newest one has this
text (nothing, if the text is empty). -/
inductive Poll where
  | failed (text : String)
  | noRows
  | row (result : Option Loaded)

/-- What a call finds: the answer of the SSH route, the task id that was given to the command, and
the polls that are made before the deadline. -/
structure Outcomes where
  exec : Answer
  task : Option ℕ
  polls : List Poll

structure Call where
  entry : Entry
  becomePassword : Option String
  needsSudo : Bool

/-- What the calls below `_dispatch_one` return. -/
structure Output where
  stdout : Json
  stderr : Json
  code : Json
  error : Option String

structure Result where
  host : String
  environment : String
  ok : Bool
  error : Option String
  stdout : Json
  stderr : Json
  code : Json

/-- A call raises, with the text of the exception, or returns. -/
abbrev Raises (α : Type) := Except String α

def sudoAuthFailMarkers : List String :=
  ["incorrect password attempt", "incorrect password attempts", "sorry, try again",
    "a password is required", "no password was provided",
    "a terminal is required to read the password"]

/-- The name of the type that a JSON value is read as. -/
def typeName : Json → String
  | .null => "NoneType"
  | .bool _ => "bool"
  | .int _ => "int"
  | .float _ => "float"
  | .str _ => "str"
  | .arr _ => "list"
  | .obj _ => "dict"

def noAttribute (v : Json) (name : String) : String :=
  s!"'{typeName v}' object has no attribute '{name}'"

/-- `sudo_auth_failed`: what is neither a text nor false has no `lower`. -/
def sudoAuthFailed (stderr : Json) : Raises Bool :=
  match stderr with
  | .str s => .ok (sudoAuthFailMarkers.any fun m => m.toList <:+: (lower s).toList)
  | v => if truthy v then .error (noAttribute v "lower") else .ok false

def sudoHint (e : Plain) : String :=
  s!"Sudo authentication failed on '{e.label}'. " ++
    "The stored sudo password looks incorrect — update it with the " ++
    "“Sudo Password” button, then try again."

def needsPassword (e : Plain) : String :=
  s!"'{e.label}' is set to require a sudo password, " ++
    "but you haven't stored yours yet. Click “Sudo Password” in the " ++
    "dashboard header to set it, then try again."

/-- `_underlying_entry`. -/
def underlying : Entry → Plain
  | .plain e => e
  | .merged _ agent _ => agent

def withPassword (c : Call) : Bool := c.becomePassword.any fun p => p ≠ ""

/-- The answer of the SSH route; whatever is raised here is caught by the caller. -/
def execRemote (c : Call) (answer : Answer) : Raises Output :=
  match answer with
  | .raised text => .error text
  | .value (.obj fields) => do
    let stderr := getOr "stderr" (.str "") fields
    let rejected ← if withPassword c then sudoAuthFailed stderr else .ok false
    return ⟨getOr "stdout" (.str "") fields, stderr, getOr "code" .null fields,
      if rejected then some (sudoHint (underlying c.entry)) else none⟩
  | .value j => .error (noAttribute j "get")
  | .empty => .error (noAttribute .null "get")

/-- `run_on_entry`: an output that is there at once, or the id of a task. -/
def runOnEntry (c : Call) (o : Outcomes) : Output ⊕ Option ℕ :=
  if (underlying c.entry).requiresSudoPassword ∧ c.needsSudo ∧ !withPassword c then
    let msg := needsPassword (underlying c.entry)
    .inl ⟨.str "", .str msg, .null, some msg⟩
  else match (underlying c.entry).kind with
    | .ssh => match execRemote c o.exec with
      | .ok out => .inl out
      | .error text => .inl ⟨.str "", .str "", .null, some text⟩
    | .agent => .inr o.task

/-- `get_result_by_task` and `parse_task_output`: no value as long as the task is pending. -/
def parseTaskOutput : Poll → Raises (Option Json)
  | .failed text => .error text
  | .noRows => .ok none
  | .row none => .ok none
  | .row (some .malformed) => .ok none
  | .row (some .tooDeep) => .error "maximum recursion depth exceeded"
  | .row (some (.value j)) => .ok (if j.isNull then none else some j)

/-- What `poll_entry_result` makes of a value. -/
def entryResult (e : Plain) : Json → Raises Output
  | .obj fields => do
    let stderr := getOr "stderr" (.str "") fields
    let code := getOr "returncode" .null fields
    let rejected ← if equalsZero code || code.isNull then .ok false else sudoAuthFailed stderr
    return ⟨getOr "stdout" (.str "") fields, stderr, code,
      if rejected then some (sudoHint e) else none⟩
  | j => .error (noAttribute j "get")

def pollEntryResult (e : Plain) (p : Poll) : Raises (Option Output) := do
  match ← parseTaskOutput p with
  | none => return none
  | some j => return some (← entryResult e j)

def envOf (e : Entry) : String := if e.environment = "" then "Unassigned" else e.environment

/-- `_normalize`. -/
def normalize (e : Entry) (r : Output) : Result :=
  { host := e.label
    environment := envOf e
    ok := if r.code.isNull then !truthy r.stderr else equalsZero r.code
    error := r.error
    stdout := r.stdout
    stderr := r.stderr
    code := r.code }

/-- A result without an output. -/
def failure (e : Entry) (error : String) : Result :=
  ⟨e.label, envOf e, false, some error, .str "", .str "", .null⟩

/-- The polling loop. -/
def pollUntil (e : Entry) : List Poll → Raises Result
  | [] => .ok (failure e "timed out waiting for agent")
  | p :: rest => do
    match ← pollEntryResult (underlying e) p with
    | some out => return normalize e out
    | none => pollUntil e rest

/-- What is returned for an output that is there at once. -/
def shown (e : Entry) (out : Output) : Result :=
  match out.error with
  | some text => if text = "" then normalize e out else failure e text
  | none => normalize e out

/-- `_dispatch_one`. -/
def dispatchOne (c : Call) (o : Outcomes) : Raises Result :=
  match runOnEntry c o with
  | .inl out => .ok (shown c.entry out)
  | .inr none => .ok (failure c.entry "failed to queue task")
  | .inr (some _) => pollUntil c.entry o.polls

/-! ### Replies -/

/-- The poll brings nothing yet. -/
def Poll.pending : Poll → Bool
  | .noRows | .row none | .row (some .malformed) | .row (some (.value .null)) => true
  | _ => false

/-- The call is turned down before anything is sent. -/
def Call.stopped (c : Call) : Bool :=
  (underlying c.entry).requiresSudoPassword && c.needsSudo && !withPassword c

/-- The reply to the call, if there is one. -/
inductive Reply where
  | none
  | ssh (answer : Answer)
  | agent (poll : Poll)

def replyTo (c : Call) (o : Outcomes) : Reply :=
  if c.stopped then .none
  else match (underlying c.entry).kind, o.task with
    | .ssh, _ => .ssh o.exec
    | .agent, Option.none => .none
    | .agent, some _ => ((o.polls.find? fun p => !p.pending).map Reply.agent).getD .none

/-- The object carries exit code 0 under this name, and no error. -/
def CarriesZero (code : String) (fields : List (String × Json)) : Prop :=
  isZero (getOr code .null fields) = true ∧ truthy (getOr "error" .null fields) = false

def Reply.CarriesZero : Reply → Prop
  | .ssh (.value (.obj fields)) => HostDispatch.CarriesZero "code" fields
  | .agent (.row (some (.value (.obj fields)))) => HostDispatch.CarriesZero "returncode" fields
  | _ => False

/-- The call returns, and shows success only for a reply with exit code 0 and no error. -/
def Sound (c : Call) (o : Outcomes) : Prop :=
  ∃ r, dispatchOne c o = .ok r ∧ (r.ok = true → (replyTo c o).CarriesZero)

/-- A reply without an exit code has something on its standard error; an exit code 0 is a number,
and it comes without an error. -/
def Coded (code : String) (fields : List (String × Json)) : Prop :=
  if (getOr code .null fields).isNull then truthy (getOr "stderr" (.str "") fields) = true
  else getOr code .null fields ≠ .bool false ∧
    (isZero (getOr code .null fields) = true → truthy (getOr "error" .null fields) = false)

/-- With any other exit code the standard error is a text, or false. -/
def Readable (fields : List (String × Json)) : Prop :=
  (getOr "returncode" .null fields).isNull = true ∨
    equalsZero (getOr "returncode" .null fields) = true ∨
    blankOrText (getOr "stderr" (.str "") fields) = true

/-- What the SSH route has to answer: not an exception without a text, and an object that says how
the command ended unless its standard error is taken for a rejected password. -/
def AnswerGood (c : Call) : Answer → Prop
  | .raised text => text ≠ ""
  | .value (.obj fields) => Coded "code" fields ∨
      withPassword c = true ∧ sudoAuthFailed (getOr "stderr" (.str "") fields) ≠ .ok false
  | _ => True

/-- What an agent has to answer: an object, in this form. -/
def PollGood : Poll → Prop
  | .row (some (.value (.obj fields))) => Coded "returncode" fields ∧ Readable fields
  | _ => False

def Reply.Good (c : Call) : Reply → Prop
  | .none => True
  | .ssh answer => AnswerGood c answer
  | .agent poll => PollGood poll

variable {c : Call} {o : Outcomes} {e : Plain} {host : Entry} {p : Poll} {polls : List Poll}
  {fields : List (String × Json)} {stderr : Json} {name : String}

/-! ### What a reply is shown as -/

theorem ok_normalize (r : Output) : (normalize host r).ok = true ↔
    (r.code.isNull = true ∧ truthy r.stderr = false) ∨ equalsZero r.code = true := by
  cases h : r.code.isNull with
  | true => simp [normalize, isNull_iff.mp h]
  | false => simp [normalize, h]

theorem sudoAuthFailed_isOk : (∃ b, sudoAuthFailed stderr = .ok b) ↔ blankOrText stderr = true := by
  cases stderr with
  | str s => simp [sudoAuthFailed, blankOrText, Json.isStr]
  | null => simp [sudoAuthFailed, blankOrText]
  | bool b | int n | float q | arr l | obj l =>
    simp only [sudoAuthFailed, blankOrText, Json.isStr, Bool.or_false]
    split_ifs with ht <;> simp [ht]

/-- An output with this code and standard error is shown as a success only for exit code 0 without
an error exactly if the reply is coded. -/
theorem ok_imp_carriesZero_iff {r : Output} (hcode : r.code = getOr name .null fields)
    (hstderr : r.stderr = getOr "stderr" (.str "") fields) :
    ((normalize host r).ok = true → CarriesZero name fields) ↔ Coded name fields := by
  rw [ok_normalize, hcode, hstderr, CarriesZero, Coded]
  by_cases hnull : (getOr name .null fields).isNull = true
  · have hv := isNull_iff.mp hnull
    simp [hv, isZero]
  · rw [if_neg hnull, equalsZero_iff]
    constructor
    · intro h
      refine ⟨fun hfalse => ?_, fun hz => (h (.inr (.inl hz))).2⟩
      have hz := (h (.inr (.inr hfalse))).1
      rw [hfalse] at hz
      cases hz
    · rintro ⟨hne, herr⟩ h
      obtain ⟨hn, -⟩ | hz | hfalse := h
      · exact absurd hn hnull
      · exact ⟨hz, herr hz⟩
      · exact absurd hfalse hne

theorem append_ne_empty {s t : String} (h : t ≠ "") : s ++ t ≠ "" := by
  simp [String.append_eq_empty_iff, h]

theorem hint_ne_empty : sudoHint e ≠ "" := append_ne_empty (by decide)

theorem needsPassword_ne_empty : needsPassword e ≠ "" := append_ne_empty (by decide)

theorem noAttribute_ne_empty (v : Json) (name : String) : noAttribute v name ≠ "" :=
  append_ne_empty (by decide)

/-! ### Agents -/

/-- What a poll that is not pending comes to. -/
def settled (e : Plain) : Poll → Raises Output
  | .row (some (.value j)) => entryResult e j
  | .failed text => .error text
  | _ => .error "maximum recursion depth exceeded"

theorem poll_pending (h : p.pending = true) : pollEntryResult e p = .ok none := by
  match p, h with
  | .noRows, _ | .row none, _ | .row (some .malformed), _ | .row (some (.value .null)), _ => rfl

theorem poll_settled (h : p.pending = false) :
    pollEntryResult e p = (settled e p).map some := by
  match p, h with
  | .failed text, _ | .row (some .tooDeep), _ => rfl
  | .row (some (.value j)), h =>
    have hnull : j.isNull = false := by cases j <;> first | rfl | exact nomatch h
    simp only [pollEntryResult, parseTaskOutput, hnull, Bool.false_eq_true, if_false, settled]
    cases h : entryResult e j <;> simp [h, Except.map, bind, Except.bind, pure, Except.pure]

theorem pollUntil_eq (host : Entry) (polls : List Poll) :
    pollUntil host polls = match polls.find? fun p => !p.pending with
      | none => .ok (failure host "timed out waiting for agent")
      | some p => (settled (underlying host) p).map (normalize host) := by
  induction polls with
  | nil => rfl
  | cons p rest ih =>
    cases hp : p.pending with
    | true =>
      rw [List.find?_cons_of_neg (by simp [hp]), ← ih]
      simp only [pollUntil, poll_pending hp]
      rfl
    | false =>
      rw [List.find?_cons_of_pos (by simp [hp])]
      simp only [pollUntil, poll_settled hp]
      cases settled (underlying host) p <;> rfl

theorem entryResult_sound_iff :
    (∃ out, entryResult e (.obj fields) = .ok out ∧
      ((normalize host out).ok = true → CarriesZero "returncode" fields)) ↔
      Coded "returncode" fields ∧ Readable fields := by
  have hshape : ∀ b : Bool, ((normalize host (⟨getOr "stdout" (.str "") fields,
      getOr "stderr" (.str "") fields, getOr "returncode" .null fields,
      if b then some (sudoHint e) else none⟩ : Output)).ok = true →
        CarriesZero "returncode" fields) ↔ Coded "returncode" fields :=
    fun b => ok_imp_carriesZero_iff rfl rfl
  by_cases hz : (equalsZero (getOr "returncode" .null fields) ||
      (getOr "returncode" .null fields).isNull) = true
  · have hread : Readable fields := by
      rw [Readable, ← or_assoc]
      exact .inl ((Bool.or_eq_true _ _ ▸ hz).symm)
    have hres : entryResult e (.obj fields) = .ok ⟨getOr "stdout" (.str "") fields,
        getOr "stderr" (.str "") fields, getOr "returncode" .null fields, none⟩ := by
      simp only [entryResult, hz, if_true]
      rfl
    simp only [hres, Except.ok.injEq, exists_eq_left', hread, and_true]
    exact hshape false
  · have hread : Readable fields ↔ blankOrText (getOr "stderr" (.str "") fields) = true := by
      simp only [Bool.or_eq_true, not_or] at hz
      simp [Readable, hz.1, hz.2]
    rw [hread, ← sudoAuthFailed_isOk]
    cases hs : sudoAuthFailed (getOr "stderr" (.str "") fields) with
    | error text =>
      have hres : entryResult e (.obj fields) = .error text := by
        simp only [entryResult, hz, hs]
        rfl
      simp [hres]
    | ok b =>
      have hres : entryResult e (.obj fields) = .ok ⟨getOr "stdout" (.str "") fields,
          getOr "stderr" (.str "") fields, getOr "returncode" .null fields,
          if b then some (sudoHint e) else none⟩ := by
        simp only [entryResult, hz, hs]
        rfl
      simp only [hres, Except.ok.injEq, exists_eq_left', exists_eq', and_true]
      exact hshape b

theorem settled_sound_iff (hp : p.pending = false) :
    (∃ out, settled e p = .ok out ∧ ((normalize host out).ok = true →
      (Reply.agent p).CarriesZero)) ↔ PollGood p := by
  match p, hp with
  | .failed text, _ => simp [settled, PollGood]
  | .row (some .tooDeep), _ => simp [settled, PollGood]
  | .row (some (.value (.obj fields))), _ => exact entryResult_sound_iff
  | .row (some (.value (.bool _))), _ | .row (some (.value (.int _))), _
  | .row (some (.value (.float _))), _ | .row (some (.value (.str _))), _
  | .row (some (.value (.arr _))), _ => simp [settled, entryResult, PollGood]

theorem pollUntil_sound_iff : (∃ r, pollUntil host polls = .ok r ∧ (r.ok = true →
      (((polls.find? fun p => !p.pending).map Reply.agent).getD .none).CarriesZero)) ↔
    (((polls.find? fun p => !p.pending).map Reply.agent).getD .none).Good c := by
  rw [pollUntil_eq]
  cases hf : polls.find? fun p => !p.pending with
  | none => simp [Reply.Good, failure]
  | some p =>
    have hp : p.pending = false := by simpa using List.find?_some hf
    simp only [Option.map_some, Option.getD_some, Reply.Good]
    rw [← @settled_sound_iff (underlying host) host p hp]
    cases settled (underlying host) p <;> simp [Except.map]

/-! ### SSH -/

theorem shown_error (host : Entry) {out : Output} {text : String} (h : out.error = some text)
    (hne : text ≠ "") : (shown host out).ok = false := by
  simp [shown, h, hne, failure]

theorem sudoAuthFailed_error {text : String} (h : sudoAuthFailed stderr = .error text) :
    text ≠ "" := by
  cases stderr with
  | str s => exact nomatch h
  | null => exact nomatch h
  | bool b | int n | float q | arr l | obj l =>
    simp only [sudoAuthFailed] at h
    split_ifs at h with ht
    · obtain rfl := Except.error.inj h
      exact noAttribute_ne_empty _ _

/-- The output for an answer of the SSH route. -/
def answered (c : Call) (answer : Answer) : Output :=
  match execRemote c answer with
  | .ok out => out
  | .error text => ⟨.str "", .str "", .null, some text⟩

theorem answered_error (host : Entry) {answer : Answer} {text : String}
    (h : execRemote c answer = .error text) (hne : text ≠ "") :
    (shown host (answered c answer)).ok = false :=
  shown_error host (by simp [answered, h]) hne

/-- The output for an object, when the check for a rejected password comes to `b`. -/
def objectOutput (c : Call) (fields : List (String × Json)) (b : Bool) : Output :=
  ⟨getOr "stdout" (.str "") fields, getOr "stderr" (.str "") fields, getOr "code" .null fields,
    if b then some (sudoHint (underlying c.entry)) else none⟩

theorem object_rejected : (shown host (objectOutput c fields true)).ok = false :=
  shown_error host rfl hint_ne_empty

theorem object_accepted_iff :
    ((shown host (objectOutput c fields false)).ok = true → CarriesZero "code" fields) ↔
      Coded "code" fields :=
  ok_imp_carriesZero_iff rfl rfl

theorem answered_object_iff :
    ((shown host (answered c (.value (.obj fields)))).ok = true → CarriesZero "code" fields) ↔
      AnswerGood c (.value (.obj fields)) := by
  cases hpw : withPassword c with
  | false =>
    have hout : answered c (.value (.obj fields)) = objectOutput c fields false := by
      simp [answered, execRemote, hpw, objectOutput, bind, Except.bind, pure, Except.pure]
    rw [hout, object_accepted_iff, AnswerGood, hpw]
    simp
  | true =>
    cases hs : sudoAuthFailed (getOr "stderr" (.str "") fields) with
    | error text =>
      have hexec : execRemote c (.value (.obj fields)) = .error text := by
        simp [execRemote, hpw, hs, bind, Except.bind]
      simp [answered_error host hexec (sudoAuthFailed_error hs), AnswerGood, hpw, hs]
    | ok b =>
      have hout : answered c (.value (.obj fields)) = objectOutput c fields b := by
        simp [answered, execRemote, hpw, hs, objectOutput, bind, Except.bind, pure, Except.pure]
      rw [hout, AnswerGood, hpw, hs]
      cases b with
      | true => simp [object_rejected]
      | false => simp [object_accepted_iff]

theorem execRemote_other {j : Json} (h : ∀ fields, j ≠ .obj fields) :
    execRemote c (.value j) = .error (noAttribute j "get") := by
  cases j with
  | obj fields => exact absurd rfl (h fields)
  | null | bool b | int n | float q | str s | arr l => rfl

theorem answered_iff {answer : Answer} :
    ((shown host (answered c answer)).ok = true → (Reply.ssh answer).CarriesZero) ↔
      AnswerGood c answer := by
  match answer with
  | .raised text =>
    have hout : answered c (.raised text) = ⟨.str "", .str "", .null, some text⟩ := rfl
    by_cases ht : text = ""
    · have hok : (shown host (answered c (.raised text))).ok = true := by
        rw [hout, ht]
        rfl
      refine iff_of_false (fun h => h hok) fun h => h ht
    · have hexec : execRemote c (.raised text) = .error text := rfl
      simp [answered_error host hexec ht, AnswerGood, ht]
  | .empty =>
    have hexec : execRemote c .empty = .error (noAttribute .null "get") := rfl
    simp [answered_error host hexec (noAttribute_ne_empty _ _), AnswerGood]
  | .value j =>
    cases j with
    | obj fields => exact answered_object_iff
    | null | bool b | int n | float q | str s | arr l =>
      refine iff_of_true (fun h => ?_) trivial
      rw [answered_error host (execRemote_other (by simp)) (noAttribute_ne_empty _ _)] at h
      exact nomatch h

/-! ### Whole calls -/

theorem runOnEntry_stopped (h : c.stopped = true) :
    runOnEntry c o = .inl ⟨.str "", .str (needsPassword (underlying c.entry)), .null,
      some (needsPassword (underlying c.entry))⟩ := by
  simp only [Call.stopped, Bool.and_eq_true] at h
  simp [runOnEntry, h.1.1, h.1.2, h.2]

theorem runOnEntry_sent (h : c.stopped = false) :
    runOnEntry c o = match (underlying c.entry).kind with
      | .ssh => .inl (answered c o.exec)
      | .agent => .inr o.task := by
  have hnot : ¬ ((underlying c.entry).requiresSudoPassword ∧ c.needsSudo ∧ !withPassword c) := by
    intro ⟨h1, h2, h3⟩
    simp [Call.stopped, h1, h2, h3] at h
  rw [runOnEntry, if_neg hnot]
  cases (underlying c.entry).kind with
  | agent => rfl
  | ssh =>
    simp only [answered]
    cases execRemote c o.exec <;> rfl

/-- A call returns, and shows success only for a reply with exit code 0 and no error, exactly if the
reply to it, if there is one, is good. -/
theorem dispatch_sound_iff (c : Call) (o : Outcomes) : Sound c o ↔ (replyTo c o).Good c := by
  cases hstop : c.stopped with
  | true =>
    have hreply : replyTo c o = .none := if_pos hstop
    have hok := @shown_error c.entry ⟨.str "",
      .str (needsPassword (underlying c.entry)), .null, some (needsPassword (underlying c.entry))⟩
      _ rfl needsPassword_ne_empty
    simp [Sound, dispatchOne, runOnEntry_stopped hstop, hreply, Reply.Good, hok]
  | false =>
    rw [Sound, dispatchOne, runOnEntry_sent hstop, replyTo, hstop, if_neg Bool.false_ne_true]
    cases (underlying c.entry).kind with
    | ssh => simpa [Reply.Good] using answered_iff
    | agent =>
      cases o.task with
      | none => simp [Reply.Good, failure]
      | some id => exact pollUntil_sound_iff

def webHost : Entry := .plain
  { kind := .agent
    id := "a1b2"
    label := "web-01"
    typeText := "Agent"
    address := "10.0.0.5"
    environment := ""
    sshTerminalState := none
    requiresSudoPassword := false
    isController := false
    integrityQuarantined := false }

def reboot : Call := ⟨webHost, none, true⟩

/-- The agent's result is `j`. -/
def resultOf (j : Json) : Outcomes := ⟨.empty, some 7, [.noRows, .row (some (.value j))]⟩

/-- An empty object is shown as a success, and a list makes the call raise. -/
theorem reply_without_code_shown_ok :
    (∃ r, dispatchOne reboot (resultOf (.obj [])) = .ok r ∧ r.ok = true) ∧
      ¬ Sound reboot (resultOf (.obj [])) ∧ ¬ Sound reboot (resultOf (.arr [.int 0])) := by
  have hok : ∃ r, dispatchOne reboot (resultOf (.obj [])) = .ok r ∧ r.ok = true := ⟨_, rfl, rfl⟩
  refine ⟨hok, fun ⟨r, hr, hsound⟩ => ?_, fun ⟨r, hr, _⟩ => nomatch hr⟩
  obtain ⟨r', hr', hshown⟩ := hok
  obtain rfl := Except.ok.inj (hr.symm.trans hr')
  have hzero : isZero .null = true := (hsound hshown).1
  exact nomatch hzero

end HostDispatch
