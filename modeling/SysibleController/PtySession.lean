import SysibleController.KeyedTable
import SysibleController.CallMachine
import SysibleController.PythonInt
import SysibleController.PastTrace
import Mathlib.Data.List.DropRight
import Mathlib.Algebra.GroupWithZero.Nat

/-! The controller's side of an agent-hosted terminal: the buffers of `pty_create` and its
siblings in `backend/remote_routes.py`. The browser queues keystrokes and drains output, the
agent pushes output and takes keystrokes, and the reaper drops idle sessions. Each call holds
the lock, so any order of calls by all the parties is a run. -/
namespace PtySession

open KeyedTable TransitionSystem PastTrace

/-- A message of the browser: `{"t": "i", "d": …}`, `{"t": "r", …}` or `{"t": "close"}`. -/
inductive Msg where
  | i (d : String)
  | r (cols rows : ℤ)
  | close
  deriving DecidableEq

structure Session where
  sid : String
  hostId : String
  out : List (List Char)
  inq : List Msg
  cols : ℤ
  rows : ℤ
  closed : Bool
  ended : Bool
  last : ℚ
  owner : Option String
  taskId : Option ℤ
  seen : Bool
  opened : ℚ
  deriving DecidableEq

abbrev Sessions := Table Session.sid

def terminalIdleTimeout : ℚ := 180

/-- The slice `text[-n:]`. -/
def lastOf (n : ℤ) (text : List Char) : List Char :=
  if 0 < n then text.rtake n.toNat else text.drop (-n).toNat

/-- The chunks after the cap: one chunk of the most recent text when they have outgrown it. -/
def bounded (outMax : ℤ) (out : List (List Char)) : List (List Char) :=
  if outMax < (out.map List.length).sum then [lastOf outMax out.flatten] else out

def ptyCreate (t : Sessions) (sid hostId : String) (cols rows : ℤ) (owner : Option String)
    (now : ℚ) : Sessions :=
  t.put { sid, hostId, out := [], inq := [], cols, rows, closed := false, ended := false,
          last := now, owner, taskId := none, seen := false, opened := now }

def ptyNoteTask (t : Sessions) (sid : String) (taskId : ℤ) : Sessions :=
  t.update sid (fun s => { s with taskId := some taskId }) fun _ => rfl

def Session.push (outMax : ℤ) (data : List Char) (ended : Bool) (now : ℚ) (s : Session) :
    Session :=
  { s with
    last := now
    seen := s.seen || !data.isEmpty
    out := if data.isEmpty then s.out else bounded outMax (s.out ++ [data])
    ended := s.ended || ended }

theorem Session.sid_push (outMax : ℤ) (data : List Char) (ended : Bool) (now : ℚ)
    (s : Session) :
    (s.push outMax data ended now).sid = s.sid := rfl

/-- Told `true`, the agent stops and kills the shell. -/
def ptyPushOutput (outMax : ℤ) (t : Sessions) (sid hostId : String) (data : List Char)
    (ended : Bool) (now : ℚ) : Bool × Sessions :=
  match t.find sid with
  | none => (true, t)
  | some s =>
    if s.hostId ≠ hostId then (true, t)
    else (s.closed, t.update sid (Session.push outMax data ended now)
      (Session.sid_push outMax data ended now))

def ptyReadOutput (t : Sessions) (sid : String) (now : ℚ) :
    Option (List Char × Bool) × Sessions :=
  match t.find sid with
  | none => (none, t)
  | some s => (some (s.out.flatten, s.closed || s.ended),
      t.update sid (fun s => { s with last := now, out := [] }) fun _ => rfl)

def Session.queue (msg : Msg) (now : ℚ) (s : Session) : Session :=
  if msg = .close then { s with last := now, closed := true }
  else { s with last := now, inq := s.inq ++ [msg] }

theorem Session.sid_queue (msg : Msg) (now : ℚ) (s : Session) :
    (s.queue msg now).sid = s.sid := by
  unfold Session.queue
  split <;> rfl

def ptyQueueInput (t : Sessions) (sid : String) (msg : Msg) (now : ℚ) : Bool × Sessions :=
  match t.find sid with
  | none => (false, t)
  | some _ => (true, t.update sid (Session.queue msg now) (Session.sid_queue msg now))

/-- One turn of the long poll; `none` is a turn that finds nothing, after which the call sleeps
or, past its deadline, answers `[], False`. -/
def ptyTakeInput (t : Sessions) (sid hostId : String) : Option (List Msg × Bool) × Sessions :=
  match t.find sid with
  | none => (some ([], true), t)
  | some s =>
    if s.hostId ≠ hostId then (some ([], true), t)
    else if s.inq ≠ [] ∨ s.closed then
      (some (s.inq, s.closed), t.update sid (fun s => { s with inq := [] }) fun _ => rfl)
    else (none, t)

def reapOne (now : ℚ) (s : Session) : Option Session :=
  if s.ended ∨ terminalIdleTimeout < now - s.last then
    if s.ended ∧ 30 < now - s.last ∨ terminalIdleTimeout + 30 < now - s.last then none
    else some { s with closed := true }
  else some s

theorem sid_reapOne (now : ℚ) (s s' : Session) (h : reapOne now s = some s') :
    s'.sid = s.sid := by
  unfold reapOne at h
  split_ifs at h <;> simp_all [← Option.some.inj h]

def reapPtySessions (t : Sessions) (now : ℚ) : Sessions :=
  t.filterMap (reapOne now) (sid_reapOne now)

structure Agent where
  hostId : String
  lastSeen : Option ℚ

/-- The text for a session that has been silent for too long, from what the agent table and the
status of its task say. -/
def silenceReason (agents : List Agent) (status : ℤ → Option String) (now : ℚ) (s : Session) :
    String :=
  let rec? := agents.find? fun a => a.hostId = s.hostId
  let seenAgo := PythonInt.truncated (now - ((rec?.bind Agent.lastSeen).getD 0))
  if rec?.isNone then
    "the controller has no agent record for this host (" ++ s.hostId ++ "), so " ++
      "there is nothing to open a shell on."
  else if 120 < seenAgo then
    "this host's agent last checked in " ++ toString seenAgo ++ "s ago, so it has not " ++
      "picked up the request. Check the agent is running: systemctl status sysible-agent"
  else match s.taskId.bind status with
    | some "pending" =>
      "waiting for this host's agent to collect the terminal request " ++
        "(it checks in periodically) — nothing is wrong yet."
    | some "dispatched" | some "done" =>
      "this host's agent collected the terminal request but has not sent " ++
        "any output. That usually means its build predates agent-hosted " ++
        "terminals, or it could not open a shell. Check the agent log: " ++
        "journalctl -u sysible-agent -n 50"
    | some "timed_out" =>
      "the terminal request timed out before this host's agent collected it."
    | _ =>
      "the terminal request is no longer queued and no output arrived — " ++
        "check the agent log: journalctl -u sysible-agent -n 50"

def ptyWaitReason (stallAfter : ℚ) (agents : List Agent) (status : ℤ → Option String)
    (t : Sessions) (sid : String) (now : ℚ) : Option String :=
  match t.find sid with
  | none => none
  | some s =>
    if s.seen || s.closed || s.ended then none
    else if now - s.opened < stallAfter then none
    else some (silenceReason agents status now s)

inductive Call where
  | create (sid hostId : String) (cols rows : ℤ) (owner : Option String) (now : ℚ)
  | noteTask (sid : String) (taskId : ℤ)
  | push (sid hostId : String) (data : List Char) (ended : Bool) (now : ℚ)
  | read (sid : String) (now : ℚ)
  | queue (sid : String) (msg : Msg) (now : ℚ)
  | take (sid hostId : String)
  | reap (now : ℚ)
  deriving DecidableEq

inductive Answer where
  | done
  | told (closed : Bool)
  | output (data : Option (List Char × Bool))
  | queued (ok : Bool)
  | input (msgs : Option (List Msg × Bool))
  deriving DecidableEq

def act (outMax : ℤ) (t : Sessions) : Call → Answer × Sessions
  | .create sid hostId cols rows owner now =>
    (.done, ptyCreate t sid hostId cols rows owner now)
  | .noteTask sid taskId => (.done, ptyNoteTask t sid taskId)
  | .push sid hostId data ended now =>
    let r := ptyPushOutput outMax t sid hostId data ended now
    (.told r.1, r.2)
  | .read sid now =>
    let r := ptyReadOutput t sid now
    (.output r.1, r.2)
  | .queue sid msg now =>
    let r := ptyQueueInput t sid msg now
    (.queued r.1, r.2)
  | .take sid hostId =>
    let r := ptyTakeInput t sid hostId
    (.input r.1, r.2)
  | .reap now => (.done, reapPtySessions t now)

abbrev Event := Call × Answer

/-- A call with what it answers. -/
def exchange (outMax : ℤ) (t : Sessions) (c : Call) : Event × Sessions :=
  ((c, (act outMax t c).1), (act outMax t c).2)

abbrev machine (outMax : ℤ) : Machine Sessions Event := ofCalls Table.empty (exchange outMax)

/-- What one terminal looks like from outside since it was opened: the host it was opened on,
the messages accepted from the browser and those handed to the agent, the output of the host,
what of it the browser has drained, and what has come since the last drain. `lossless` is a
ghost: no drain has found more than the cap waiting. -/
structure Ledger where
  host : Option String
  accepted : List Msg
  taken : List Msg
  pushed : List Char
  drained : List Char
  pending : List Char
  closing : Bool
  lossless : Bool

def Ledger.unopened : Ledger := ⟨none, [], [], [], [], [], false, true⟩

def Ledger.note (outMax : ℤ) (sid : String) (l : Ledger) : Event → Ledger
  | (.create k hostId _ _ _ _, _) =>
    if k = sid then { Ledger.unopened with host := some hostId } else l
  | (.push k hostId data _ _, _) =>
    if k = sid ∧ l.host = some hostId then
      { l with pushed := l.pushed ++ data, pending := l.pending ++ data }
    else l
  | (.read k _, .output (some (data, _))) =>
    if k = sid then
      { l with
        drained := l.drained ++ data
        pending := []
        lossless := l.lossless && (l.pending.length : ℤ) ≤ outMax }
    else l
  | (.queue k msg _, .queued true) =>
    if k = sid then
      if msg = .close then { l with closing := true }
      else { l with accepted := l.accepted ++ [msg] }
    else l
  | (.take k _, .input (some (msgs, _))) =>
    if k = sid then { l with taken := l.taken ++ msgs } else l
  | _ => l

def ledger (outMax : ℤ) (sid : String) (es : List Event) : Ledger :=
  es.foldl (Ledger.note outMax sid) .unopened

/-- A short session: two keys typed, one of them taken, more output than a cap of four. -/
def typing : List Call :=
  [.create "t1" "web" 80 24 none 0, .queue "t1" (.i "l") 1, .take "t1" "web",
   .queue "t1" (.i "s") 2, .push "t1" "web" ['a', 'b', 'c'] false 3,
   .push "t1" "db" ['x'] false 3, .push "t1" "web" ['d', 'e'] false 3, .take "t1" "db",
   .read "t1" 4, .queue "t1" .close 5, .take "t1" "web"]

/-! ### What the buffers hold against what was seen from outside -/

theorem rtake_rtake_append (n : ℕ) (a b : List Char) :
    (a.rtake n ++ b).rtake n = (a ++ b).rtake n := by
  simp only [List.rtake_eq_reverse_take_reverse, List.reverse_append, List.reverse_reverse,
    List.take_append, List.take_take]
  congr 3
  omega

theorem rtake_of_length_le {n : ℕ} {a : List Char} (h : a.length ≤ n) : a.rtake n = a := by
  rw [List.rtake, Nat.sub_eq_zero_of_le h, List.drop_zero]

theorem length_rtake_le (n : ℕ) (a : List Char) : (a.rtake n).length ≤ n := by
  rw [List.rtake, List.length_drop]
  omega

variable {outMax : ℤ} {sid : String} {l : Ledger} {t t' : Sessions} {es : List Event}

/-- Coalescing keeps the same text as trimming the whole text once. -/
theorem flatten_bounded (hmax : 0 < outMax) (out : List (List Char)) :
    (bounded outMax out).flatten = out.flatten.rtake outMax.toNat := by
  unfold bounded
  split_ifs with h
  · simp [lastOf, hmax]
  · rw [rtake_of_length_le]
    rw [List.length_flatten]
    omega

/-- Whatever the cap, even a senseless one, only the oldest text is dropped. -/
theorem bounded_suffix (outMax : ℤ) (out : List (List Char)) :
    (bounded outMax out).flatten <:+ out.flatten := by
  unfold bounded lastOf
  split_ifs
  · simpa [List.rtake] using List.drop_suffix _ _
  · simpa using List.drop_suffix _ _
  · exact List.suffix_rfl

/-- An open session against the ledger of its terminal. -/
structure Matches (outMax : ℤ) (l : Ledger) (s : Session) : Prop where
  host : l.host = some s.hostId
  queued : l.taken ++ s.inq = l.accepted
  window : 0 < outMax → s.out.flatten = l.pending.rtake outMax.toNat
  recent : s.out.flatten <:+ l.pending
  closed : l.closing = true → s.closed = true
  seen : s.seen = false ↔ l.pushed = []

structure Faithful (outMax : ℤ) (sid : String) (l : Ledger) (t : Sessions) : Prop where
  live : ∀ s, t.find sid = some s → Matches outMax l s
  handed : l.taken <+: l.accepted
  order : (l.drained ++ l.pending).Sublist l.pushed
  complete : 0 < outMax → l.lossless = true → l.drained ++ l.pending = l.pushed

/-- A step that leaves the session's row and the ledger alone keeps them matched. -/
theorem Faithful.frame (h : Faithful outMax sid l t) (hfind : t'.find sid = t.find sid) :
    Faithful outMax sid l t' :=
  ⟨fun s hs => h.live s (hfind ▸ hs), h.handed, h.order, h.complete⟩

theorem Matches.push {s : Session} (h : Matches outMax l s)
    (data : List Char) (ended : Bool) (now : ℚ) :
    Matches outMax { l with pushed := l.pushed ++ data, pending := l.pending ++ data }
      (s.push outMax data ended now) := by
  have hout : (s.push outMax data ended now).out =
      if data.isEmpty then s.out else bounded outMax (s.out ++ [data]) := rfl
  refine ⟨h.host, h.queued, fun hmax => ?_, ?_, h.closed, ?_⟩
  · rw [hout]
    split_ifs with hd
    · rw [h.window hmax, List.isEmpty_iff.mp hd]
      exact congrArg (List.rtake · outMax.toNat) (List.append_nil l.pending).symm
    · rw [flatten_bounded hmax, List.flatten_append, h.window hmax, List.flatten_singleton,
        rtake_rtake_append]
  · rw [hout]
    split_ifs with hd
    · rw [List.isEmpty_iff.mp hd]
      exact (List.append_nil l.pending).symm ▸ h.recent
    · refine (bounded_suffix outMax _).trans ?_
      obtain ⟨lost, hlost⟩ := h.recent
      exact ⟨lost, by simp [← hlost]⟩
  · have hseen := h.seen
    cases data <;> simp_all [Session.push]

theorem Matches.queue {s : Session} (h : Matches outMax l s) (msg : Msg) (now : ℚ) :
    Matches outMax
      (if msg = .close then { l with closing := true }
        else { l with accepted := l.accepted ++ [msg] })
      (s.queue msg now) := by
  unfold Session.queue
  split_ifs with hm
  · exact ⟨h.host, h.queued, h.window, h.recent, fun _ => rfl, h.seen⟩
  · refine ⟨h.host, ?_, h.window, h.recent, h.closed, h.seen⟩
    show l.taken ++ (s.inq ++ [msg]) = l.accepted ++ [msg]
    rw [← List.append_assoc, h.queued]

theorem Matches.reap {s s' : Session} (h : Matches outMax l s) {now : ℚ}
    (hs : reapOne now s = some s') : Matches outMax l s' := by
  unfold reapOne at hs
  split_ifs at hs
  · obtain rfl := Option.some.inj hs
    exact ⟨h.host, h.queued, h.window, h.recent, fun _ => rfl, h.seen⟩
  · obtain rfl := Option.some.inj hs
    exact h

theorem faithful_create (t : Sessions) (k hostId : String) (cols rows : ℤ)
    (owner : Option String) (now : ℚ) (a : Answer) (h : Faithful outMax sid l t) :
    Faithful outMax sid (l.note outMax sid (.create k hostId cols rows owner now, a))
      (ptyCreate t k hostId cols rows owner now) := by
  by_cases hk : k = sid
  · subst hk
    simp only [Ledger.note, if_pos]
    refine ⟨fun s hs => ?_, by simp [Ledger.unopened], by simp [Ledger.unopened],
      by simp [Ledger.unopened]⟩
    obtain rfl : _ = s := by simpa [ptyCreate] using hs
    exact ⟨rfl, rfl, by simp [Ledger.unopened, List.rtake], by simp, by simp [Ledger.unopened],
      by simp [Ledger.unopened]⟩
  · simp only [Ledger.note, if_neg hk]
    exact h.frame (by simp [ptyCreate, Ne.symm hk])

theorem faithful_push (k hostId : String) (data : List Char) (ended : Bool)
    (now : ℚ) (a : Answer) (h : Faithful outMax sid l t) :
    Faithful outMax sid (l.note outMax sid (.push k hostId data ended now, a))
      (ptyPushOutput outMax t k hostId data ended now).2 := by
  by_cases hown : k = sid ∧ l.host = some hostId
  · obtain ⟨rfl, hown⟩ := hown
    simp only [Ledger.note, hown, and_self, if_pos]
    rw [← hown]
    refine ⟨fun s' hs' => ?_, h.handed, ?_, fun hmax hl => ?_⟩
    · unfold ptyPushOutput at hs'
      cases hs : t.find k with
      | none => simp [hs] at hs'
      | some s =>
        have hm := h.live s hs
        have hh : s.hostId = hostId := by simpa [hm.host] using hown
        obtain rfl : s.push outMax data ended now = s' := by simpa [hs, hh] using hs'
        exact hm.push data ended now
    · simpa using h.order.append (List.Sublist.refl data)
    · show l.drained ++ (l.pending ++ data) = l.pushed ++ data
      rw [← List.append_assoc, h.complete hmax hl]
  · simp only [Ledger.note, if_neg hown]
    refine h.frame ?_
    unfold ptyPushOutput
    cases hs : t.find k with
    | none => rfl
    | some s =>
      by_cases hk : k = sid
      · subst hk
        have hne : s.hostId ≠ hostId := fun hh => hown ⟨rfl, hh ▸ (h.live s hs).host⟩
        simp [hne, hs]
      · by_cases hh : s.hostId = hostId <;> simp [hh, Ne.symm hk]

theorem faithful_read (k : String) (now : ℚ) (h : Faithful outMax sid l t) :
    Faithful outMax sid (l.note outMax sid (.read k now, .output (ptyReadOutput t k now).1))
      (ptyReadOutput t k now).2 := by
  cases hs : t.find k with
  | none => simpa [ptyReadOutput, hs, Ledger.note] using h
  | some s =>
    by_cases hk : k = sid
    · subst hk
      have hm := h.live s hs
      simp only [ptyReadOutput, hs, Ledger.note, if_pos]
      refine ⟨fun s' hs' => ?_, h.handed, ?_, fun hmax hl => ?_⟩
      · obtain rfl : { s with last := now, out := [] } = s' := by simpa [hs] using hs'
        exact ⟨hm.host, hm.queued, by simp [List.rtake], by simp, hm.closed, hm.seen⟩
      · rw [List.append_nil]
        exact ((List.Sublist.refl _).append hm.recent.sublist).trans h.order
      · obtain ⟨hl, hfit⟩ : l.lossless = true ∧ (l.pending.length : ℤ) ≤ outMax := by
          simpa using hl
        rw [List.append_nil, hm.window hmax, rtake_of_length_le (by omega), h.complete hmax hl]
    · simp only [ptyReadOutput, hs, Ledger.note, if_neg hk]
      exact h.frame (by simp [Ne.symm hk])

theorem faithful_queue (k : String) (msg : Msg) (now : ℚ) (h : Faithful outMax sid l t) :
    Faithful outMax sid
      (l.note outMax sid (.queue k msg now, .queued (ptyQueueInput t k msg now).1))
      (ptyQueueInput t k msg now).2 := by
  cases hs : t.find k with
  | none => simpa [ptyQueueInput, hs, Ledger.note] using h
  | some s =>
    by_cases hk : k = sid
    · subst hk
      simp only [ptyQueueInput, hs, Ledger.note, if_pos]
      have hm := (h.live s hs).queue msg now
      refine ⟨fun s' hs' => ?_, ?_, ?_, ?_⟩
      · obtain rfl : s.queue msg now = s' := by simpa [hs] using hs'
        exact hm
      · exact ⟨_, hm.queued⟩
      · split_ifs <;> exact h.order
      · split_ifs <;> exact h.complete
    · simp only [ptyQueueInput, hs, Ledger.note, if_neg hk]
      exact h.frame (by simp [Ne.symm hk])

theorem faithful_take (k hostId : String) (h : Faithful outMax sid l t) :
    Faithful outMax sid (l.note outMax sid (.take k hostId, .input (ptyTakeInput t k hostId).1))
      (ptyTakeInput t k hostId).2 := by
  have quiet : ∀ closed : Bool,
      l.note outMax sid (.take k hostId, .input (some ([], closed))) = l := by
    intro closed
    simp [Ledger.note]
  cases hs : t.find k with
  | none => simpa [ptyTakeInput, hs, quiet] using h
  | some s =>
    simp only [ptyTakeInput, hs]
    split_ifs with hh hany
    · simpa [quiet] using h
    · by_cases hk : k = sid
      · subst hk
        have hm := h.live s hs
        simp only [Ledger.note, if_pos]
        refine ⟨fun s' hs' => ?_, ?_, h.order, h.complete⟩
        · obtain rfl : { s with inq := [] } = s' := by simpa [hs] using hs'
          exact ⟨hm.host, by simpa using hm.queued, hm.window, hm.recent, hm.closed, hm.seen⟩
        · exact ⟨[], by simpa using hm.queued⟩
      · simp only [Ledger.note, if_neg hk]
        exact h.frame (by simp [Ne.symm hk])
    · exact h

theorem faithful_step (c : Call) (h : Faithful outMax sid l t) :
    Faithful outMax sid (l.note outMax sid (c, (act outMax t c).1)) (act outMax t c).2 := by
  cases c with
  | create k hostId cols rows owner now => exact faithful_create t k hostId cols rows owner now _ h
  | noteTask k taskId =>
    refine ⟨fun s hs => ?_, h.handed, h.order, h.complete⟩
    simp only [act, ptyNoteTask, Table.find_update] at hs
    split_ifs at hs
    · obtain ⟨s', hs', rfl⟩ := Option.map_eq_some_iff.mp hs
      have hm := h.live s' hs'
      exact ⟨hm.host, hm.queued, hm.window, hm.recent, hm.closed, hm.seen⟩
    · exact h.live s hs
  | push k hostId data ended now => exact faithful_push k hostId data ended now _ h
  | read k now => exact faithful_read k now h
  | queue k msg now => exact faithful_queue k msg now h
  | take k hostId => exact faithful_take k hostId h
  | reap now =>
    refine ⟨fun s hs => ?_, h.handed, h.order, h.complete⟩
    simp only [act, reapPtySessions, Table.find_filterMap] at hs
    obtain ⟨s', hs', hreap⟩ := Option.bind_eq_some_iff.mp hs
    exact (h.live s' hs').reap hreap

theorem faithful_run (sid : String)
    (h : (machine outMax).Run (machine outMax).start es t) :
    Faithful outMax sid (ledger outMax sid es) t := by
  refine ofCalls_history (fun es t => Faithful outMax sid (ledger outMax sid es) t) h ?_
    fun es t c _ hf => ?_
  · exact ⟨by simp [machine, ofCalls], by simp [ledger, Ledger.unopened],
      by simp [ledger, Ledger.unopened], by simp [ledger, Ledger.unopened]⟩
  · rw [ledger, List.foldl_append]
    exact faithful_step c hf

/-! ### The terminal over whole runs -/

/-- Keystrokes: the agent is handed what the browser's calls had accepted, in that order, each
message once; while the session is open the rest waits in the queue. Only the host the session
was opened on is ever handed any. -/
theorem input_in_order (sid : String)
    (h : (machine outMax).Run (machine outMax).start es t) :
    (ledger outMax sid es).taken <+: (ledger outMax sid es).accepted ∧
    (∀ s, t.find sid = some s →
      (ledger outMax sid es).taken ++ s.inq = (ledger outMax sid es).accepted) ∧
    AtEach (fun past e => ∀ hostId msgs closed,
      e = (.take sid hostId, .input (some (msgs, closed))) → msgs ≠ [] →
      (ledger outMax sid past).host = some hostId) es := by
  have hf := faithful_run sid h
  refine ⟨hf.handed, fun s hs => (hf.live s hs).queued, ?_⟩
  refine ofCalls_atEach _ h fun past t c run hostId msgs closed he hmsgs => ?_
  obtain ⟨rfl, hans⟩ := Prod.mk.inj he
  have hst : (ptyTakeInput t sid hostId).1 = some (msgs, closed) := Answer.input.inj hans
  cases hs : t.find sid with
  | none => simp [ptyTakeInput, hs, Ne.symm hmsgs] at hst
  | some s =>
    have hm := (faithful_run sid run).live s hs
    by_cases hh : s.hostId = hostId
    · rw [hm.host, hh]
    · simp [ptyTakeInput, hs, hh, Ne.symm hmsgs] at hst

theorem input_in_order_typing :
    (ledger 4 "t1" (perform (exchange 4) Table.empty typing).1).accepted = [.i "l", .i "s"] ∧
    (ledger 4 "t1" (perform (exchange 4) Table.empty typing).1).taken <+:
      (ledger 4 "t1" (perform (exchange 4) Table.empty typing).1).accepted :=
  ⟨by decide, (input_in_order "t1" (perform_run _ (exchange 4) Table.empty typing)).1⟩

/-- Output: a drain yields what the host has pushed since the drain before, up to the most recent
text the cap has room for; nothing is reordered or repeated, and nothing is missing while no
drain has found more than the cap waiting. -/
theorem output_recent (hmax : 0 < outMax) (sid : String)
    (h : (machine outMax).Run (machine outMax).start es t) :
    ((ledger outMax sid es).drained ++ (ledger outMax sid es).pending).Sublist
      (ledger outMax sid es).pushed ∧
    ((ledger outMax sid es).lossless = true →
      (ledger outMax sid es).drained ++ (ledger outMax sid es).pending =
        (ledger outMax sid es).pushed) ∧
    (∀ s, t.find sid = some s →
      s.out.flatten = (ledger outMax sid es).pending.rtake outMax.toNat ∧
      (s.out.flatten.length : ℤ) ≤ outMax) ∧
    AtEach (fun past e => ∀ data closed now,
      e = (.read sid now, .output (some (data, closed))) →
      data = (ledger outMax sid past).pending.rtake outMax.toNat) es := by
  have hf := faithful_run sid h
  refine ⟨hf.order, hf.complete hmax, fun s hs => ?_, ?_⟩
  · have hw := (hf.live s hs).window hmax
    refine ⟨hw, ?_⟩
    have := length_rtake_le outMax.toNat (ledger outMax sid es).pending
    rw [hw]
    omega
  · refine ofCalls_atEach _ h fun past t c run data closed now he => ?_
    obtain ⟨rfl, hans⟩ := Prod.mk.inj he
    have hst : (ptyReadOutput t sid now).1 = some (data, closed) := Answer.output.inj hans
    cases hs : t.find sid with
    | none => simp [ptyReadOutput, hs] at hst
    | some s =>
      obtain ⟨rfl, -⟩ : s.out.flatten = data ∧ _ := by simpa [ptyReadOutput, hs] using hst
      exact ((faithful_run sid run).live s hs).window hmax

theorem output_recent_typing :
    (ledger 4 "t1" (perform (exchange 4) Table.empty typing).1).drained = ['b', 'c', 'd', 'e'] ∧
    ((ledger 4 "t1" (perform (exchange 4) Table.empty typing).1).drained ++
      (ledger 4 "t1" (perform (exchange 4) Table.empty typing).1).pending).Sublist
        (ledger 4 "t1" (perform (exchange 4) Table.empty typing).1).pushed :=
  ⟨by decide, (output_recent (by decide) "t1" (perform_run _ (exchange 4) Table.empty typing)).1⟩

/-- What a call on a terminal the browser has closed is told. -/
def ToldClosed (sid : String) (e : Event) : Prop :=
  (∀ hostId data ended now, e.1 = .push sid hostId data ended now → e.2 = .told true) ∧
  (∀ hostId, e.1 = .take sid hostId → ∃ msgs, e.2 = .input (some (msgs, true))) ∧
  ∀ now, e.1 = .read sid now → e.2 = .output none ∨ ∃ data, e.2 = .output (some (data, true))

theorem toldClosed_of_gone {c : Call} (hs : t.find sid = none) :
    ToldClosed sid (c, (act outMax t c).1) := by
  refine ⟨?_, ?_, ?_⟩
  · rintro hostId data ended now rfl
    simp [act, ptyPushOutput, hs]
  · rintro hostId rfl
    exact ⟨[], by simp [act, ptyTakeInput, hs]⟩
  · rintro now rfl
    exact .inl (by simp [act, ptyReadOutput, hs])

theorem toldClosed_of_closed {c : Call} {s : Session} (hs : t.find sid = some s)
    (hc : s.closed = true) : ToldClosed sid (c, (act outMax t c).1) := by
  refine ⟨?_, ?_, ?_⟩
  · rintro hostId data ended now rfl
    by_cases hh : s.hostId = hostId <;> simp [act, ptyPushOutput, hs, hh, hc]
  · rintro hostId rfl
    by_cases hh : s.hostId = hostId <;> simp [act, ptyTakeInput, hs, hh, hc]
  · rintro now rfl
    exact .inr ⟨s.out.flatten, by simp [act, ptyReadOutput, hs, hc]⟩

/-- Closing: from the browser's close on, in whatever order the calls come and whether or not the
reaper has dropped the session, every call of the agent and every read is told so, until the id
is opened anew. -/
theorem closed_told (sid : String) (h : (machine outMax).Run (machine outMax).start es t) :
    AtEach (fun past e => (ledger outMax sid past).closing = true → ToldClosed sid e) es := by
  refine ofCalls_atEach _ h fun past t c run hclosing => ?_
  cases hs : t.find sid with
  | none => exact toldClosed_of_gone hs
  | some s => exact toldClosed_of_closed hs (((faithful_run sid run).live s hs).closed hclosing)

theorem closed_told_typing :
    AtEach (fun past e => (ledger 4 "t1" past).closing = true → ToldClosed "t1" e)
      (perform (exchange 4) Table.empty typing).1 :=
  closed_told "t1" (perform_run _ (exchange 4) Table.empty typing)

/-- A terminal is explained only while it is silent: its host has pushed no text since it was
opened and the browser has not closed it. -/
theorem waitReason_silent {stallAfter : ℚ} {agents : List Agent} {status : ℤ → Option String}
    {now : ℚ} {text : String} (sid : String)
    (h : (machine outMax).Run (machine outMax).start es t)
    (hr : ptyWaitReason stallAfter agents status t sid now = some text) :
    (ledger outMax sid es).pushed = [] ∧ (ledger outMax sid es).drained = [] ∧
      (ledger outMax sid es).closing = false := by
  have hf := faithful_run sid h
  unfold ptyWaitReason at hr
  cases hs : t.find sid with
  | none => simp [hs] at hr
  | some s =>
    have hm := hf.live s hs
    have hopen : s.seen = false ∧ s.closed = false := by
      rw [hs] at hr
      cases h1 : s.seen <;> cases h2 : s.closed <;> simp_all
    have hpushed := hm.seen.mp hopen.1
    refine ⟨hpushed, ?_, ?_⟩
    · have := hf.order
      rw [hpushed, List.sublist_nil, List.append_eq_nil_iff] at this
      exact this.1
    · by_contra hc
      have := hm.closed (by simpa using hc)
      simp [hopen.2] at this

theorem waitReason_silent_opened :
    ∃ text, ptyWaitReason 6 [] (fun _ => none)
        (perform (exchange 4) Table.empty (typing.take 3)).2 "t1" 7 = some text ∧
      (ledger 4 "t1" (perform (exchange 4) Table.empty (typing.take 3)).1).pushed = [] ∧
      (ledger 4 "t1" (perform (exchange 4) Table.empty (typing.take 3)).1).drained = [] ∧
      (ledger 4 "t1" (perform (exchange 4) Table.empty (typing.take 3)).1).closing = false := by
  obtain ⟨text, hr⟩ : ∃ text, ptyWaitReason 6 [] (fun _ => none)
      (perform (exchange 4) Table.empty (typing.take 3)).2 "t1" 7 = some text :=
    Option.isSome_iff_exists.mp (by decide +kernel)
  exact ⟨text, hr, waitReason_silent "t1" (perform_run _ (exchange 4) Table.empty (typing.take 3)) hr⟩

end PtySession
