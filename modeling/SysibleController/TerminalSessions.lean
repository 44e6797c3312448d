import SysibleController.PtySession
import SysibleController.Interleaving
import SysibleController.PythonText

/-! The open terminals of the controller, those over SSH (`_TERMINAL_SESSIONS` in
`backend/remote_routes.py`) and those that an agent hosts: opening, writing, reading, resizing,
closing and the reaper, each cut at the locks it takes, any number of them at once. An SSH client
goes by its number; what is sent through a channel and what it answers are left out. -/
namespace TerminalSessions

open KeyedTable PythonText Interleaving TransitionSystem

structure Session where
  sid : String
  client : ℕ
  owner : Option String
  lastActivity : ℚ
  deriving DecidableEq

inductive Route where
  | write (data : String)
  | read
  | resize (cols rows : ℤ)
  | close
  deriving DecidableEq

/-- `token` tells whether the request carries an administrator's token. -/
structure Request where
  sid : String
  route : Route
  token : Bool
  deriving DecidableEq

/-- A request past the owner check, with the name and the role its token stood for there. -/
structure Admitted where
  request : Request
  admin : Option (String × String)
  deriving DecidableEq

/-- `opened`, `closed`, `clients` and `used` are a ledger that no route reads: the ids handed
out with their owners, the clients that were closed and how many there were, and the requests
that have reached a session. -/
structure Server where
  pty : PtySession.Sessions
  ssh : Table Session.sid
  opened : List (String × Option String)
  clients : ℕ
  closed : List ℕ
  used : List Admitted

inductive Opening where
  | agent (hostId : String) (owner : Option String)
  | ssh (owner : Option String)
  deriving DecidableEq

/-- A thread, by where it stands: the reaper and `open_terminal`, which starts with its work, a
call on the table of agent-hosted terminals, and the routes of one session. -/
inductive Thread where
  | reaping (after : Option Opening)
  | closing (left : List Session) (after : Option Opening)
  | opening (o : Opening)
  | storing (client : ℕ) (owner : Option String)
  | pty (c : PtySession.Call)
  | asked (q : Request)
  | askedSsh (q : Request)
  | checking (q : Request) (owner : Option String)
  | routing (a : Admitted)
  | piping (a : Admitted)
  | fetching (a : Admitted)
  | touching (a : Admitted) (x : Session)
  | sending (a : Admitted) (x : Session)
  deriving DecidableEq

/-- `sid` is a new `uuid4`, `admin` the answer of `resolve_admin_token`, `fails` the text of an
`OSError` of the channel, and `late` tells that a long poll is past its deadline. -/
structure Env where
  now : ℚ
  sid : String
  taskId : ℤ
  connects : Option HTTPException
  admin : Option (String × String)
  fails : Option String
  late : Bool

inductive Outcome where
  | goesOn
  | answered
  | refused (e : HTTPException)
  deriving DecidableEq

def idle (now : ℚ) (x : Session) : Bool :=
  PtySession.terminalIdleTimeout < now - x.lastActivity

def otherOperator : HTTPException := ⟨403, "This terminal session belongs to another operator."⟩

def noSession : HTTPException :=
  ⟨404, "no open terminal session - call /terminal/open first"⟩

/-- `_check_terminal_owner`, once there is an owner and a token. -/
def permits (owner : Option String) : Option (String × String) → Bool
  | none => false
  | some (name, role) => role ≠ "auditor" && some name = owner

def clamp (low high n : ℤ) : ℤ := max low (min high n)

/-- What a route does to a terminal that an agent hosts. -/
def ptyCall (q : Request) (now : ℚ) : PtySession.Call :=
  match q.route with
  | .write data => .queue q.sid (.i data) now
  | .read => .read q.sid now
  | .resize cols rows => .queue q.sid (.r (clamp 8 500 cols) (clamp 4 300 rows)) now
  | .close => .queue q.sid .close now

/-- An `OSError` of the channel is told by the routes that write to it. -/
def channelOutcome : Route → Option String → Outcome
  | .write _, some why => .refused ⟨400, "Could not write to terminal: " ++ why⟩
  | .resize _ _, some why => .refused ⟨400, "Could not resize terminal: " ++ why⟩
  | _, _ => .answered

def next (outMax : ℤ) (env : Env) (s : Server) : Thread → Server × Outcome × Option Thread
  | .reaping after =>
    ({ s with ssh := s.ssh.deleteWhere (idle env.now) }, .goesOn,
      some (.closing (s.ssh.rows.filter (idle env.now)) after))
  | .closing [] after => (s, .goesOn, after.map .opening)
  | .closing (x :: left) after =>
    ({ s with closed := s.closed ++ [x.client] }, .goesOn, some (.closing left after))
  | .opening (.agent hostId owner) =>
    ({ s with
        pty := PtySession.ptyCreate s.pty env.sid hostId 80 24 owner env.now
        opened := s.opened ++ [(env.sid, owner)] },
      .goesOn, some (.pty (.noteTask env.sid env.taskId)))
  | .opening (.ssh owner) =>
    match env.connects with
    | some e =>
      ({ s with clients := s.clients + 1, closed := s.closed ++ [s.clients] }, .refused e, none)
    | none =>
      ({ s with clients := s.clients + 1 }, .goesOn, some (.storing s.clients owner))
  | .storing client owner =>
    ({ s with
        ssh := s.ssh.put ⟨env.sid, client, owner, env.now⟩
        opened := s.opened ++ [(env.sid, owner)] }, .answered, none)
  | .pty c => ({ s with pty := (PtySession.act outMax s.pty c).2 }, .answered, none)
  | .asked q =>
    (s, .goesOn, some (match s.pty.find q.sid with
      | some x => .checking q x.owner
      | none => .askedSsh q))
  | .askedSsh q => (s, .goesOn, some (.checking q ((s.ssh.find q.sid).bind Session.owner)))
  | .checking q owner =>
    if owner = none ∨ q.token = false then (s, .goesOn, some (.routing ⟨q, none⟩))
    else if permits owner env.admin then (s, .goesOn, some (.routing ⟨q, env.admin⟩))
    else (s, .refused otherOperator, none)
  | .routing a =>
    (s, .goesOn, some (if (s.pty.find a.request.sid).isSome then .piping a else .fetching a))
  | .piping a =>
    let r := PtySession.act outMax s.pty (ptyCall a.request env.now)
    let used := if (s.pty.find a.request.sid).isSome then s.used ++ [a] else s.used
    ({ s with pty := r.2, used }, .answered,
      -- a read that finds nothing is a turn of a long poll
      if r.1 = .output (some ([], false)) ∧ env.late = false then some (.piping a) else none)
  | .fetching a =>
    match s.ssh.find a.request.sid with
    | none => (s, if a.request.route = .close then .answered else .refused noSession, none)
    | some x =>
      if a.request.route = .close then
        ({ s with ssh := s.ssh.deleteWhere fun r => r.sid = x.sid, used := s.used ++ [a] },
          .goesOn, some (.closing [x] none))
      else (s, .goesOn, some (.touching a x))
  | .touching a x =>
    ({ s with
        ssh := s.ssh.update x.sid (fun r => { r with lastActivity := env.now }) fun _ => rfl },
      .goesOn, some (.sending a x))
  | .sending a _ =>
    ({ s with used := s.used ++ [a] }, channelOutcome a.request.route env.fails, none)

def Known (s : Server) (sid : String) : Prop := ∃ owner, (sid, owner) ∈ s.opened

/-- A thread that enters: the timer, an open, the agent's side of a terminal or its reaper, or a
request for a session. -/
def enters : Thread → Prop
  | .reaping _ | .asked _ => True
  | .pty (.push ..) | .pty (.take ..) | .pty (.reap _) => True
  | _ => False

def terminals (outMax : ℤ) : Program Server Thread Outcome where
  entry := enters
  act s th e s' th' := ∃ env, ¬Known s env.sid ∧ next outMax env s th = (s', e, th')

def start : Server := ⟨.empty, .empty, [], 0, [], []⟩

/-- Session ids are handed out by the open alone: a request names one that was. -/
def Handed (p : Pool Server Thread) (e : Event Thread Outcome) : Prop :=
  ∀ q o, e = .act (.asked q) o → Known p.shared q.sid

variable {outMax : ℤ} {env : Env} {s s' : Server} {th : Thread}

/-! ### What a step does to the sessions -/

/-- Sessions go, and new ones come under ids that were not handed out before. -/
structure Moves (s s' : Server) : Prop where
  grows : ∀ x ∈ s.opened, x ∈ s'.opened
  fresh : ∀ sid owner, (sid, owner) ∈ s'.opened → (sid, owner) ∈ s.opened ∨ ¬Known s sid
  once : (∀ sid o o', (sid, o) ∈ s.opened → (sid, o') ∈ s.opened → o = o') →
    ∀ sid o o', (sid, o) ∈ s'.opened → (sid, o') ∈ s'.opened → o = o'
  pty : ∀ x ∈ s'.pty.rows, (∃ y ∈ s.pty.rows, y.sid = x.sid ∧ y.owner = x.owner) ∨
    (x.sid, x.owner) ∈ s'.opened ∧ ¬Known s x.sid
  ssh : ∀ x ∈ s'.ssh.rows, (∃ y ∈ s.ssh.rows, y.sid = x.sid ∧ y.owner = x.owner) ∨
    (x.sid, x.owner) ∈ s'.opened ∧ ¬Known s x.sid

/-- Nothing is opened. -/
theorem Moves.of_kept (ho : s'.opened = s.opened)
    (hpty : ∀ x ∈ s'.pty.rows, ∃ y ∈ s.pty.rows, y.sid = x.sid ∧ y.owner = x.owner)
    (hssh : ∀ x ∈ s'.ssh.rows, ∃ y ∈ s.ssh.rows, y.sid = x.sid ∧ y.owner = x.owner) :
    Moves s s' :=
  ⟨fun _ hx => ho ▸ hx, fun _ _ hx => .inl (ho ▸ hx), fun h => ho ▸ h,
    fun x hx => .inl (hpty x hx), fun x hx => .inl (hssh x hx)⟩

theorem kept_refl {ρ : Type} {sid : ρ → String} {owner : ρ → Option String} (rows : List ρ) :
    ∀ x ∈ rows, ∃ y ∈ rows, sid y = sid x ∧ owner y = owner x :=
  fun x hx => ⟨x, hx, rfl, rfl⟩

theorem Moves.refl (s : Server) : Moves s s := .of_kept rfl (kept_refl _) (kept_refl _)

theorem kept_update (t : PtySession.Sessions) (k : String) (f : PtySession.Session →
    PtySession.Session) (hf : ∀ r, (f r).sid = r.sid) (howner : ∀ r, (f r).owner = r.owner) :
    ∀ x ∈ (t.update k f hf).rows, ∃ y ∈ t.rows, y.sid = x.sid ∧ y.owner = x.owner := by
  intro x hx
  obtain ⟨y, hy, rfl⟩ := List.mem_map.mp hx
  refine ⟨y, hy, ?_⟩
  by_cases hk : y.sid = k
  · simp [hk, hf, howner]
  · simp [hk]

/-- No call on the agent-hosted terminals but `create` opens one, and none changes an owner. -/
theorem kept_pty (t : PtySession.Sessions) {c : PtySession.Call}
    (hc : ∀ sid hostId cols rows owner now, c ≠ .create sid hostId cols rows owner now) :
    ∀ x ∈ (PtySession.act outMax t c).2.rows, ∃ y ∈ t.rows, y.sid = x.sid ∧ y.owner = x.owner := by
  cases c with
  | create sid hostId cols rows owner now => exact absurd rfl (hc sid hostId cols rows owner now)
  | noteTask sid taskId =>
    exact kept_update t sid (fun s => { s with taskId := some taskId }) (fun _ => rfl) fun _ => rfl
  | push sid hostId data ended now =>
    simp only [PtySession.act, PtySession.ptyPushOutput]
    cases t.find sid with
    | none => exact kept_refl _
    | some y =>
      dsimp only
      split_ifs
      · exact kept_refl _
      · exact kept_update t sid _ (PtySession.Session.sid_push outMax data ended now) fun _ => rfl
  | read sid now =>
    simp only [PtySession.act, PtySession.ptyReadOutput]
    cases t.find sid with
    | none => exact kept_refl _
    | some y =>
      exact kept_update t sid (fun r => { r with last := now, out := [] }) (fun _ => rfl)
        fun _ => rfl
  | queue sid msg now =>
    simp only [PtySession.act, PtySession.ptyQueueInput]
    cases t.find sid with
    | none => exact kept_refl _
    | some y =>
      refine kept_update t sid _ (PtySession.Session.sid_queue msg now) fun r => ?_
      unfold PtySession.Session.queue
      split_ifs <;> rfl
  | take sid hostId =>
    simp only [PtySession.act, PtySession.ptyTakeInput]
    cases t.find sid with
    | none => exact kept_refl _
    | some y =>
      dsimp only
      split_ifs
      · exact kept_refl _
      · exact kept_update t sid (fun r => { r with inq := [] }) (fun _ => rfl) fun _ => rfl
      · exact kept_refl _
  | reap now =>
    intro x hx
    obtain ⟨y, hy, hxy⟩ := List.mem_filterMap.mp hx
    refine ⟨y, hy, ?_⟩
    unfold PtySession.reapOne at hxy
    split_ifs at hxy
    · exact Option.some.inj hxy ▸ ⟨rfl, rfl⟩
    · exact Option.some.inj hxy ▸ ⟨rfl, rfl⟩

theorem ptyCall_ne (q : Request) (now : ℚ) (sid hostId : String) (cols rows : ℤ)
    (owner : Option String) (now' : ℚ) :
    ptyCall q now ≠ .create sid hostId cols rows owner now' := by
  unfold ptyCall
  split <;> simp

theorem Moves.opened {sid : String} {owner : Option String} (hsid : ¬Known s sid)
    (ho : s'.opened = s.opened ++ [(sid, owner)])
    (hpty : ∀ x ∈ s'.pty.rows, (∃ y ∈ s.pty.rows, y.sid = x.sid ∧ y.owner = x.owner) ∨
      (x.sid, x.owner) = (sid, owner))
    (hssh : ∀ x ∈ s'.ssh.rows, (∃ y ∈ s.ssh.rows, y.sid = x.sid ∧ y.owner = x.owner) ∨
      (x.sid, x.owner) = (sid, owner)) : Moves s s' := by
  have hnew : (sid, owner) ∈ s'.opened := ho ▸ List.mem_append_right _ (List.mem_singleton_self _)
  have hold : ∀ k o, (k, o) ∈ s'.opened → (k, o) ∈ s.opened ∨ k = sid ∧ o = owner := by
    intro k o hk
    rw [ho, List.mem_append, List.mem_singleton, Prod.mk.injEq] at hk
    exact hk
  refine ⟨fun x hx => ho ▸ List.mem_append_left _ hx, fun k o hk => ?_, fun h k o o' hk hk' => ?_,
    fun x hx => (hpty x hx).imp_right fun heq => ?_,
    fun x hx => (hssh x hx).imp_right fun heq => ?_⟩
  · exact (hold k o hk).imp_right fun ⟨heq, _⟩ => heq ▸ hsid
  · rcases hold k o hk with hk | ⟨rfl, rfl⟩ <;> rcases hold _ o' hk' with hk' | ⟨heq, rfl⟩
    · exact h k o o' hk hk'
    · exact absurd ⟨o, heq ▸ hk⟩ hsid
    · exact absurd ⟨o', hk'⟩ hsid
    · rfl
  · exact ⟨heq ▸ hnew, (Prod.mk.inj heq).1 ▸ hsid⟩
  · exact ⟨heq ▸ hnew, (Prod.mk.inj heq).1 ▸ hsid⟩

theorem mem_put_sid {ρ : Type} {sid : ρ → String} {t : Table sid} {r x : ρ}
    (hx : x ∈ (t.put r).rows) : x ∈ t.rows ∨ x = r := by
  rcases List.mem_append.mp hx with hx | hx
  · exact .inl (List.mem_filter.mp hx).1
  · exact .inr (List.mem_singleton.mp hx)

/-- A thread on the agent-hosted terminals never opens one. -/
def Uncreating : Thread → Prop
  | .pty c => ∀ sid hostId cols rows owner now, c ≠ .create sid hostId cols rows owner now
  | _ => True

theorem moves_next (hfresh : ¬Known s env.sid) (hth : Uncreating th) :
    Moves s (next outMax env s th).1 := by
  cases th with
  | reaping after =>
    exact .of_kept rfl (kept_refl _) fun x hx => ⟨x, (List.mem_filter.mp hx).1, rfl, rfl⟩
  | closing left after =>
    cases left with
    | nil => exact .refl s
    | cons x left => exact .of_kept rfl (kept_refl _) (kept_refl _)
  | opening o =>
    cases o with
    | agent hostId owner =>
      refine .opened hfresh rfl (fun x hx => ?_) fun x hx => .inl ⟨x, hx, rfl, rfl⟩
      exact (mem_put_sid hx).imp (fun hx => ⟨x, hx, rfl, rfl⟩) fun heq => by rw [heq]
    | ssh owner =>
      simp only [next]
      cases env.connects with
      | none => exact .of_kept rfl (kept_refl _) (kept_refl _)
      | some e => exact .of_kept rfl (kept_refl _) (kept_refl _)
  | storing client owner =>
    refine .opened hfresh rfl (fun x hx => .inl ⟨x, hx, rfl, rfl⟩) fun x hx => ?_
    exact (mem_put_sid hx).imp (fun hx => ⟨x, hx, rfl, rfl⟩) fun heq => by rw [heq]
  | pty c => exact .of_kept rfl (kept_pty s.pty hth) (kept_refl _)
  | asked q | askedSsh q | routing a => exact .refl s
  | checking q owner =>
    simp only [next]
    split_ifs <;> exact .refl s
  | piping a => exact .of_kept rfl (kept_pty s.pty (ptyCall_ne _ _)) (kept_refl _)
  | fetching a =>
    simp only [next]
    cases s.ssh.find a.request.sid with
    | none => exact .refl s
    | some x =>
      dsimp only
      split_ifs
      · exact .of_kept rfl (kept_refl _) fun x hx => ⟨x, (List.mem_filter.mp hx).1, rfl, rfl⟩
      · exact .refl s
  | touching a x =>
    refine .of_kept rfl (kept_refl _) fun y hy => ?_
    obtain ⟨r, hr, rfl⟩ := List.mem_map.mp hy
    refine ⟨r, hr, ?_⟩
    split_ifs <;> exact ⟨rfl, rfl⟩
  | sending a x => exact .of_kept rfl (kept_refl _) (kept_refl _)

/-- The only call that a thread makes on the agent-hosted terminals notes a task. -/
theorem uncreating_next {th' : Thread} (h : th' ∈ (next outMax env s th).2.2) :
    Uncreating th' := by
  cases th' with
  | pty c =>
    cases th with
    | opening o =>
      cases o with
      | agent hostId owner =>
        obtain rfl := Thread.pty.inj (Option.some.inj h)
        intro sid hostId cols rows owner now hcreate
        cases hcreate
      | ssh owner =>
        simp only [next] at h
        cases hc : env.connects <;> simp [hc] at h
    | reaping after | storing client owner | pty d | askedSsh q | touching a x | sending a x =>
      simp [next] at h
    | closing left after => cases left <;> simp [next] at h
    | asked q =>
      cases hf : s.pty.find q.sid <;> simp [next, hf] at h
    | checking q owner =>
      simp only [next] at h
      split_ifs at h <;> simp at h
    | routing a | piping a =>
      simp only [next] at h
      split_ifs at h <;> simp at h
    | fetching a =>
      cases hf : s.ssh.find a.request.sid <;> simp only [next, hf] at h
      · cases h
      · split_ifs at h <;> simp at h
  | _ => trivial

theorem uncreating_of_enters (h : enters th) : Uncreating th := by
  cases th with
  | pty c =>
    rintro sid hostId cols rows owner now rfl
    cases h
  | _ => trivial

/-! ### Whose sessions requests reach -/

def Gone (s : Server) (sid : String) : Prop :=
  (∀ x ∈ s.pty.rows, x.sid ≠ sid) ∧ ∀ x ∈ s.ssh.rows, x.sid ≠ sid

/-- If the request carries a token and the session has an owner, the token stood for the owner,
and not for an auditor. -/
def Owned (s : Server) (a : Admitted) : Prop :=
  a.request.token = true → ∀ name, (a.request.sid, some name) ∈ s.opened →
    ∃ role, a.admin = some (name, role) ∧ role ≠ "auditor"

structure Sound (s : Server) : Prop where
  once : ∀ sid o o', (sid, o) ∈ s.opened → (sid, o') ∈ s.opened → o = o'
  pty : ∀ x ∈ s.pty.rows, (x.sid, x.owner) ∈ s.opened
  ssh : ∀ x ∈ s.ssh.rows, (x.sid, x.owner) ∈ s.opened
  used : ∀ a ∈ s.used, Known s a.request.sid ∧ Owned s a

/-- What each thread may rely on, whatever the others do. -/
def Local (s : Server) : Thread → Prop
  | .pty c => Uncreating (.pty c)
  | .askedSsh q => Known s q.sid ∧ ∀ x ∈ s.pty.rows, x.sid ≠ q.sid
  | .checking q owner => Known s q.sid ∧ ((q.sid, owner) ∈ s.opened ∨ Gone s q.sid)
  | .routing a | .piping a | .fetching a =>
    Known s a.request.sid ∧ (Owned s a ∨ Gone s a.request.sid)
  | .touching a _ | .sending a _ => Known s a.request.sid ∧ Owned s a
  | _ => True

theorem Known.moves {sid : String} (h : Known s sid) (hm : Moves s s') : Known s' sid :=
  h.imp fun _ ho => hm.grows _ ho

theorem Moves.not_pty (hm : Moves s s') {sid : String} (hk : Known s sid)
    (h : ∀ x ∈ s.pty.rows, x.sid ≠ sid) : ∀ x ∈ s'.pty.rows, x.sid ≠ sid := by
  rintro x hx rfl
  rcases hm.pty x hx with ⟨y, hy, hsid, -⟩ | ⟨-, hnew⟩
  · exact h y hy hsid
  · exact hnew hk

theorem Gone.moves {sid : String} (h : Gone s sid) (hk : Known s sid) (hm : Moves s s') :
    Gone s' sid := by
  refine ⟨hm.not_pty hk h.1, ?_⟩
  rintro x hx rfl
  rcases hm.ssh x hx with ⟨y, hy, hsid, -⟩ | ⟨-, hnew⟩
  · exact h.2 y hy hsid
  · exact hnew hk

theorem Owned.moves {a : Admitted} (h : Owned s a) (hk : Known s a.request.sid)
    (hm : Moves s s') : Owned s' a := by
  intro htoken name hname
  rcases hm.fresh _ _ hname with hold | hnew
  · exact h htoken name hold
  · exact absurd hk hnew

theorem Local.moves (h : Local s th) (hm : Moves s s') : Local s' th := by
  cases th with
  | pty c => exact h
  | askedSsh q => exact ⟨h.1.moves hm, hm.not_pty h.1 h.2⟩
  | checking q owner =>
    exact ⟨h.1.moves hm, h.2.imp (hm.grows _) fun hgone => hgone.moves h.1 hm⟩
  | routing a | piping a | fetching a =>
    exact ⟨h.1.moves hm, h.2.imp (fun ho => ho.moves h.1 hm) fun hgone => hgone.moves h.1 hm⟩
  | touching a x | sending a x => exact ⟨h.1.moves hm, h.2.moves h.1 hm⟩
  | reaping after | closing left after | opening o | storing client owner | asked q => trivial

theorem Sound.moves (h : Sound s) (hm : Moves s s')
    (hused : ∀ a ∈ s'.used, a ∈ s.used ∨ Known s a.request.sid ∧ Owned s a) : Sound s' := by
  refine ⟨hm.once h.once, fun x hx => ?_, fun x hx => ?_, fun a ha => ?_⟩
  · rcases hm.pty x hx with ⟨y, hy, hsid, howner⟩ | ⟨hnew, -⟩
    · exact hsid ▸ howner ▸ hm.grows _ (h.pty y hy)
    · exact hnew
  · rcases hm.ssh x hx with ⟨y, hy, hsid, howner⟩ | ⟨hnew, -⟩
    · exact hsid ▸ howner ▸ hm.grows _ (h.ssh y hy)
    · exact hnew
  · obtain ⟨hk, ho⟩ := (hused a ha).elim (h.used a) id
    exact ⟨hk.moves hm, ho.moves hk hm⟩

theorem Gone.find_none {sid : String} (h : Gone s sid) :
    s.pty.find sid = none ∧ s.ssh.find sid = none :=
  ⟨List.find?_eq_none.mpr fun x hx => by simpa using h.1 x hx,
    List.find?_eq_none.mpr fun x hx => by simpa using h.2 x hx⟩

theorem not_mem_of_find {ρ : Type} {sid : ρ → String} {t : Table sid} {k : String}
    (h : t.find k = none) : ∀ x ∈ t.rows, sid x ≠ k :=
  fun x hx => by simpa using List.find?_eq_none.mp h x hx

/-- A request that is not turned away: the session is unowned, or the token is its owner's. -/
theorem owned_of_check (h : Sound s) {q : Request} {owner : Option String}
    (hopened : (q.sid, owner) ∈ s.opened) {admin : Option (String × String)}
    (hpass : owner = none ∨ q.token = false ∨ permits owner admin = true) :
    Owned s ⟨q, admin⟩ := by
  intro htoken name hname
  have howner := h.once _ _ _ hopened hname
  subst howner
  rcases hpass with hnone | hno | hp
  · cases hnone
  · rw [hno] at htoken
    cases htoken
  · cases admin with
    | none => cases hp
    | some who =>
      obtain ⟨name', role⟩ := who
      simp only [permits, Bool.and_eq_true, decide_eq_true_eq, Option.some.injEq] at hp
      obtain ⟨hrole, rfl⟩ := hp
      exact ⟨role, rfl, hrole⟩

theorem local_next (h : Sound s) (hl : Local s th) (hfresh : ¬Known s env.sid)
    (hq : ∀ q, th = .asked q → Known s q.sid)
    {th' : Thread} (hth' : th' ∈ (next outMax env s th).2.2) :
    Local (next outMax env s th).1 th' := by
  cases th with
  | reaping after =>
    obtain rfl := Option.mem_some_iff.mp hth'
    trivial
  | closing left after =>
    cases left with
    | nil =>
      obtain ⟨o, -, rfl⟩ := Option.map_eq_some_iff.mp hth'
      trivial
    | cons x left =>
      obtain rfl := Option.mem_some_iff.mp hth'
      trivial
  | opening o =>
    cases o with
    | agent hostId owner =>
      have hun := uncreating_next hth'
      obtain rfl := Option.mem_some_iff.mp hth'
      exact hun
    | ssh owner =>
      simp only [next] at hth' ⊢
      cases hc : env.connects with
      | none =>
        simp only [hc] at hth'
        obtain rfl := Option.mem_some_iff.mp hth'
        trivial
      | some e => simp [hc] at hth'
  | storing client owner => cases hth'
  | pty c => cases hth'
  | asked q =>
    have hk := hq q rfl
    simp only [next, Option.mem_some_iff] at hth'
    subst hth'
    cases hf : s.pty.find q.sid with
    | none => exact ⟨hk, not_mem_of_find hf⟩
    | some x =>
      obtain ⟨hx, hsid⟩ := Table.find_eq_some.mp hf
      exact ⟨hk, .inl (hsid ▸ h.pty x hx)⟩
  | askedSsh q =>
    simp only [next, Option.mem_some_iff] at hth'
    subst hth'
    cases hf : s.ssh.find q.sid with
    | none => exact ⟨hl.1, .inr ⟨hl.2, not_mem_of_find hf⟩⟩
    | some x =>
      obtain ⟨hx, hsid⟩ := Table.find_eq_some.mp hf
      exact ⟨hl.1, .inl (hsid ▸ h.ssh x hx)⟩
  | checking q owner =>
    obtain ⟨hk, hcheck⟩ := hl
    simp only [next] at hth' ⊢
    split_ifs at hth' ⊢ with hfree hpermits
    · obtain rfl := Option.mem_some_iff.mp hth'
      refine ⟨hk, hcheck.imp_left fun hopened => owned_of_check h hopened ?_⟩
      exact hfree.imp_right .inl
    · obtain rfl := Option.mem_some_iff.mp hth'
      exact ⟨hk, hcheck.imp_left fun hopened => owned_of_check h hopened (.inr (.inr hpermits))⟩
    · cases hth'
  | routing a =>
    simp only [next, Option.mem_some_iff] at hth'
    subst hth'
    simp only [next]
    split_ifs <;> exact hl
  | piping a =>
    have hm : Moves s (next outMax env s (.piping a)).1 := moves_next hfresh trivial
    simp only [next] at hth'
    split_ifs at hth'
    · obtain rfl := Option.mem_some_iff.mp hth'
      exact Local.moves hl hm
    · cases hth'
  | fetching a =>
    obtain ⟨hk, hown⟩ := hl
    simp only [next] at hth' ⊢
    cases hf : s.ssh.find a.request.sid with
    | none => simp [hf] at hth'
    | some x =>
      simp only [hf] at hth' ⊢
      split_ifs at hth' ⊢
      · obtain rfl := Option.mem_some_iff.mp hth'
        trivial
      · obtain rfl := Option.mem_some_iff.mp hth'
        refine ⟨hk, hown.resolve_right fun hgone => ?_⟩
        rw [hgone.find_none.2] at hf
        cases hf
  | touching a x =>
    have hm : Moves s (next outMax env s (.touching a x)).1 := moves_next hfresh trivial
    obtain rfl := Option.mem_some_iff.mp hth'
    exact Local.moves hl hm
  | sending a x => cases hth'

/-- A request that has reached a session got past the check while the session was open. -/
theorem used_next (hl : Local s th) {a : Admitted} (ha : a ∈ (next outMax env s th).1.used) :
    a ∈ s.used ∨ Known s a.request.sid ∧ Owned s a := by
  have hlast : ∀ {b : Admitted}, a ∈ s.used ++ [b] → Known s b.request.sid → Owned s b →
      a ∈ s.used ∨ Known s a.request.sid ∧ Owned s a := by
    intro b hb hk ho
    rcases List.mem_append.mp hb with hb | hb
    · exact .inl hb
    · exact .inr (List.mem_singleton.mp hb ▸ ⟨hk, ho⟩)
  cases th with
  | reaping after | storing client owner | pty c | asked q | askedSsh q | routing b
  | touching b x => exact .inl ha
  | closing left after => cases left <;> exact .inl ha
  | opening o =>
    cases o with
    | agent hostId owner => exact .inl ha
    | ssh owner =>
      simp only [next] at ha
      cases hc : env.connects <;> simp only [hc] at ha <;> exact .inl ha
  | checking q owner =>
    simp only [next] at ha
    split_ifs at ha <;> exact .inl ha
  | piping b =>
    obtain ⟨hk, hown⟩ := hl
    simp only [next] at ha
    split_ifs at ha with hopen
    · refine hlast ha hk (hown.resolve_right fun hgone => ?_)
      simp [hgone.find_none.1] at hopen
    · exact .inl ha
  | fetching b =>
    obtain ⟨hk, hown⟩ := hl
    simp only [next] at ha
    cases hf : s.ssh.find b.request.sid with
    | none =>
      simp only [hf] at ha
      exact .inl ha
    | some x =>
      simp only [hf] at ha
      split_ifs at ha
      · refine hlast ha hk (hown.resolve_right fun hgone => ?_)
        rw [hgone.find_none.2] at hf
        cases hf
      · exact .inl ha
  | sending b x => exact hlast ha hl.1 hl.2

theorem assertions (outMax : ℤ) : Assertions (terminals outMax) Handed Sound Local where
  entry s th _ hentry := by
    cases th with
    | reaping after | asked q => trivial
    | pty c => exact uncreating_of_enters hentry
    | closing left after | opening o | storing client owner | askedSsh q | checking q owner
    | routing a | piping a | fetching a | touching a x | sending a x => cases hentry
  act s pre post th e s' th' hc hI hL hact := by
    obtain ⟨env, hfresh, hnext⟩ := hact
    obtain ⟨rfl, he⟩ := Prod.mk.inj hnext
    obtain ⟨rfl, rfl⟩ := Prod.mk.inj he
    have hl : Local s th := hL th (by simp)
    have hth : Uncreating th := by
      cases th with
      | pty c => exact hl
      | _ => trivial
    have hm : Moves s (next outMax env s th).1 := moves_next hfresh hth
    refine ⟨hI.moves hm fun a ha => used_next hl ha, fun x hx => ?_, fun x hx => ?_⟩
    · refine local_next hI hl hfresh ?_ hx
      rintro q rfl
      exact hc q _ rfl
    · refine (hL x ?_).moves hm
      rcases hx with hx | hx <;> simp [hx]

def adas (sid : String) : Env := ⟨5, sid, 0, none, some ("ada", "sysadmin"), none, false⟩

def closeRequest : Request := ⟨"s1", .close, true⟩

def adaCloses : Admitted := ⟨closeRequest, some ("ada", "sysadmin")⟩

def shell : Session := ⟨"s1", 0, some "ada", 5⟩

def connected : Server := { start with clients := 1 }

def shellOpen : Server :=
  { connected with ssh := ⟨[shell], by simp⟩, opened := [("s1", some "ada")] }

def shellClosing : Server := { shellOpen with ssh := .empty, used := [adaCloses] }

abbrev handed : Machine (Pool Server Thread) (Event Thread Outcome) :=
  ((terminals 4).machine start).restrict Handed

theorem handed_call (ts : List Thread) (h : enters th) :
    handed.step ⟨s, ts⟩ (.call th) ⟨s, th :: ts⟩ :=
  ⟨fun _ _ heq => (by cases heq), .call h⟩

theorem handed_act (env : Env) {th' : Thread} {o : Outcome} {ts : List Thread}
    (hfresh : ¬Known s env.sid) (hasked : ∀ q, th = .asked q → Known s q.sid)
    (h : next 4 env s th = (s', o, some th')) :
    handed.step ⟨s, th :: ts⟩ (.act th o) ⟨s', th' :: ts⟩ := by
  refine ⟨fun q o' heq => ?_, .first ⟨env, hfresh, h⟩⟩
  obtain ⟨rfl, rfl⟩ := Event.act.inj heq
  exact hasked q rfl

theorem handed_ends (env : Env) {o : Outcome} {ts : List Thread} (hfresh : ¬Known s env.sid)
    (hasked : ∀ q, th = .asked q → Known s q.sid) (h : next 4 env s th = (s', o, none)) :
    handed.step ⟨s, th :: ts⟩ (.act th o) ⟨s', ts⟩ := by
  refine ⟨fun q o' heq => ?_, .first_ends ⟨env, hfresh, h⟩⟩
  obtain ⟨rfl, rfl⟩ := Event.act.inj heq
  exact hasked q rfl

/-- A terminal over SSH is opened for `ada`, and her request to close it has taken it from the
table. -/
theorem closeRun : ∃ es, handed.Run ⟨start, []⟩ es ⟨shellClosing, [.closing [shell] none]⟩ := by
  have hfree : ¬Known start "s1" := by simp [Known, start]
  have hfree' : ¬Known connected "s1" := by simp [Known, connected, start]
  have hnext : ¬Known shellOpen "s2" := by simp [Known, shellOpen]
  have hknown : Known shellOpen "s1" := ⟨some "ada", by simp [shellOpen]⟩
  have hcalled : handed.Run _ _ ⟨start, [.reaping (some (.ssh (some "ada")))]⟩ :=
    .single (handed_call [] trivial)
  have hreaped : handed.Run _ _ ⟨start, [.closing [] (some (.ssh (some "ada")))]⟩ :=
    hcalled.snoc (handed_act (adas "s1") hfree (fun _ h => by cases h) rfl)
  have hopening : handed.Run _ _ ⟨start, [.opening (.ssh (some "ada"))]⟩ :=
    hreaped.snoc (handed_act (adas "s1") hfree (fun _ h => by cases h) rfl)
  have hmade : handed.Run _ _ ⟨connected, [.storing 0 (some "ada")]⟩ :=
    hopening.snoc (handed_act (adas "s1") hfree (fun _ h => by cases h) rfl)
  have hstored : handed.Run _ _ ⟨shellOpen, []⟩ :=
    hmade.snoc (handed_ends (adas "s1") hfree' (fun _ h => by cases h) rfl)
  have hclose : handed.Run _ _ ⟨shellOpen, [.asked closeRequest]⟩ :=
    hstored.snoc (handed_call [] trivial)
  have hasked : handed.Run _ _ ⟨shellOpen, [.askedSsh closeRequest]⟩ :=
    hclose.snoc (handed_act (adas "s2") hnext (fun q h => by cases h; exact hknown) rfl)
  have hfound : handed.Run _ _ ⟨shellOpen, [.checking closeRequest (some "ada")]⟩ :=
    hasked.snoc (handed_act (adas "s2") hnext (fun _ h => by cases h) rfl)
  have hchecked : handed.Run _ _ ⟨shellOpen, [.routing adaCloses]⟩ :=
    hfound.snoc (handed_act (adas "s2") hnext (fun _ h => by cases h) rfl)
  have hrouted : handed.Run _ _ ⟨shellOpen, [.fetching adaCloses]⟩ :=
    hchecked.snoc (handed_act (adas "s2") hnext (fun _ h => by cases h) rfl)
  exact ⟨_, hrouted.snoc (handed_act (adas "s2") hnext (fun _ h => by cases h) rfl)⟩

/-- One for a client that is still to be made. -/
def unmade (c clients : ℕ) : ℕ := if c < clients then 0 else 1

/-- How often client `c` is stored, closed or still to be made. -/
def place (c : ℕ) (s : Server) : ℕ :=
  (s.ssh.rows.map Session.client).count c + s.closed.count c + unmade c s.clients

theorem unmade_succ (c clients : ℕ) :
    unmade c (clients + 1) + [clients].count c = unmade c clients := by
  unfold unmade
  rw [List.count_singleton]
  by_cases heq : clients = c
  · simp [heq]
  · have hlt : c < clients + 1 ↔ c < clients := by omega
    simp [heq, hlt]

/-- How often a thread still has to store or to close client `c`. -/
def held (c : ℕ) : Thread → ℕ
  | .closing left _ => (left.map Session.client).count c
  | .storing client _ => [client].count c
  | _ => 0

theorem count_split (c : ℕ) (p : Session → Bool) (rows : List Session) :
    ((rows.filter fun x => !p x).map Session.client).count c +
      ((rows.filter p).map Session.client).count c = (rows.map Session.client).count c := by
  have hperm := ((List.filter_append_perm p rows).map Session.client).count_eq c
  rw [List.map_append, List.count_append] at hperm
  omega

theorem filter_sid {rows : List Session} (h : (rows.map Session.sid).Nodup) {x : Session}
    (hx : x ∈ rows) : (rows.filter fun r => r.sid = x.sid) = [x] := by
  induction rows with
  | nil => cases hx
  | cons y rows ih =>
    obtain ⟨hy, hrows⟩ := List.nodup_cons.mp h
    rcases List.mem_cons.mp hx with rfl | hx
    · have hnone : (rows.filter fun r => r.sid = x.sid) = [] := by
        refine List.filter_eq_nil_iff.mpr fun r hr heq => hy ?_
        exact List.mem_map.mpr ⟨r, hr, by simpa using heq⟩
      simp [hnone]
    · have hne : y.sid ≠ x.sid := fun heq => hy (List.mem_map.mpr ⟨x, hx, heq.symm⟩)
      simp [hne, ih hrows hx]

def Stored (s : Server) : Prop := ∀ x ∈ s.ssh.rows, Known s x.sid

theorem place_next (c : ℕ) (h : Stored s) (hfresh : ¬Known s env.sid) :
    place c (next outMax env s th).1 + (((next outMax env s th).2.2).map (held c)).getD 0 =
      place c s + held c th := by
  cases th with
  | reaping after =>
    have hsplit := count_split c (idle env.now) s.ssh.rows
    simp only [next, place, held, Table.deleteWhere, Option.map_some, Option.getD_some]
    omega
  | closing left after =>
    cases left with
    | nil => cases after <;> simp [next, place, held]
    | cons x left =>
      simp only [next, place, held, Option.map_some, Option.getD_some, List.count_append,
        List.map_cons, List.count_cons, List.count_nil]
      omega
  | opening o =>
    cases o with
    | agent hostId owner => simp [next, place, held]
    | ssh owner =>
      simp only [next]
      cases env.connects with
      | none =>
        have hmade := unmade_succ c s.clients
        simp only [place, held, Option.map_some, Option.getD_some]
        omega
      | some e =>
        have hmade := unmade_succ c s.clients
        simp only [place, held, Option.map_none, Option.getD_none, List.count_append]
        omega
  | storing client owner =>
    have hall : (s.ssh.rows.filter fun q => q.sid ≠ env.sid) = s.ssh.rows := by
      refine List.filter_eq_self.mpr fun x hx => ?_
      have hne : x.sid ≠ env.sid := fun heq => hfresh (heq ▸ h x hx)
      simpa using hne
    simp only [next, place, held, Table.put, hall, Option.map_none, Option.getD_none,
      List.map_append, List.map_cons, List.map_nil, List.count_append]
    omega
  | pty d => simp [next, place, held]
  | asked q => cases hf : s.pty.find q.sid <;> simp [next, place, held, hf]
  | askedSsh q => simp [next, place, held]
  | checking q owner =>
    simp only [next]
    split_ifs <;> simp [place, held]
  | routing a =>
    simp only [next]
    split_ifs <;> simp [place, held]
  | piping a =>
    simp only [next]
    split_ifs <;> simp [place, held]
  | fetching a =>
    simp only [next]
    cases hf : s.ssh.find a.request.sid with
    | none => simp [held]
    | some x =>
      dsimp only
      split_ifs
      · have hx := (Table.find_eq_some.mp hf).1
        have hsplit := count_split c (fun r => r.sid = x.sid) s.ssh.rows
        rw [filter_sid s.ssh.unique hx] at hsplit
        simp only [place, held, Table.deleteWhere, Option.map_some, Option.getD_some]
        omega
      · simp [held]
  | touching a x =>
    have hclients : ((s.ssh.rows.map fun r => if r.sid = x.sid then
        { r with lastActivity := env.now } else r).map Session.client) =
        s.ssh.rows.map Session.client := by
      rw [List.map_map]
      refine List.map_congr_left fun r _ => ?_
      by_cases hr : r.sid = x.sid <;> simp [hr]
    simp [next, place, held, Table.update, hclients]
  | sending a x => simp [next, place, held]

theorem stored_assertions (outMax : ℤ) : Assertions (terminals outMax) (fun _ _ => True) Stored
    fun _ => Uncreating where
  entry s th _ hentry := uncreating_of_enters hentry
  act s pre post th e s' th' _ hI hL hact := by
    obtain ⟨env, hfresh, hnext⟩ := hact
    obtain ⟨rfl, he⟩ := Prod.mk.inj hnext
    obtain ⟨rfl, rfl⟩ := Prod.mk.inj he
    have hm : Moves s (next outMax env s th).1 := moves_next hfresh (hL th (by simp))
    refine ⟨fun x hx => ?_, fun x hx => uncreating_next hx, fun x hx => hL x ?_⟩
    · rcases hm.ssh x hx with ⟨y, hy, hsid, -⟩ | ⟨hnew, -⟩
      · exact hsid ▸ (hI y hy).moves hm
      · exact ⟨_, hnew⟩
    · rcases hx with hx | hx <;> simp [hx]

theorem stored_run {es : List (Event Thread Outcome)} {p : Pool Server Thread}
    (h : ((terminals outMax).machine start).Run ⟨start, []⟩ es p) : Stored p.shared :=
  ((stored_assertions outMax).run (h.restrict fun _ _ => trivial)
    (holds_start (P := terminals outMax) fun _ hx => by cases hx)).1

theorem held_of_enters (c : ℕ) (h : enters th) : held c th = 0 := by
  cases th with
  | reaping after | asked q | pty d => rfl
  | closing left after | opening o | storing client owner | askedSsh q | checking q owner
  | routing a | piping a | fetching a | touching a x | sending a x => cases h

/-- Every client is in one place: still to be made, in the hands of one thread, stored, or
closed. -/
theorem total_run (c : ℕ) {es : List (Event Thread Outcome)} {p : Pool Server Thread}
    (h : ((terminals outMax).machine start).Run ⟨start, []⟩ es p) :
    p.total (place c) (held c) = 1 := by
  induction h with
  | nil => simp [Pool.total, place, unmade, start, Table.empty]
  | snoc run st ih =>
    rw [st.total_eq (fun th => held_of_enters c) fun th e s' th' hact => ?_, ih]
    obtain ⟨env, hfresh, hnext⟩ := hact
    have hplace : place c (next outMax env _ th).1 + _ = _ :=
      place_next c (stored_run run) hfresh
    rwa [hnext] at hplace

end TerminalSessions
