import SysibleController.Rolling

/-! What one phase of a group, and what `bail`, adds to the history of a run and does to the
books. Everything later about whole runs rests on these descriptions alone. -/
namespace Rolling

open EarlyExit PastTrace

/-! ### Reading a history -/

def Exchange.Passed (x : Exchange) (p : Phase) (h : String) : Prop :=
  x.call = .on p h ∧ x.answer.ok = true

/-- The answer that makes the run stop what it is doing. -/
def Exchange.Halts (x : Exchange) : Prop :=
  match x.call with
  | .on _ _ => x.answer.ok = false
  | .cancelled => x.answer.ok = true

def Exchange.RefusedPoll (x : Exchange) : Prop := x.call = .cancelled ∧ x.answer.ok = false

/-- The last successful rotation change of `h` was a drain. -/
def OutOf (past : History) (h : String) : Prop :=
  Since (fun x => ¬x.Passed .undrain h) (fun x => x.Passed .drain h) past

/-- The action was called on `h`, and `h` has not settled since. -/
def Unsettled (past : History) (h : String) : Prop :=
  Since (fun x => ¬x.Passed .settle h) (fun x => x.call = .on .act h) past

/-- The last health check of `h` passed. -/
def AnsweredHealthy (past : History) (h : String) : Prop :=
  Since (fun x => x.call = .on .health h → x.answer.ok = true) (fun x => x.Passed .health h) past

def Acted (past : History) (h : String) : Prop := ∃ x ∈ past, x.call = .on .act h

/-- While nothing has halted the run but a failed check of the preflight. -/
def Clean (past : History) : Prop := AtEach (fun past x => x.Halts → ∀ h, ¬Acted past h) past

theorem acted_append {past rest : History} {h : String} :
    Acted (past ++ rest) h ↔ Acted past h ∨ Acted rest h := by
  simp [Acted, or_and_right, exists_or]

theorem Unsettled.acted {past : History} {h : String} (hu : Unsettled past h) : Acted past h := by
  obtain ⟨a, x, b, rfl, hx, -⟩ := hu
  exact ⟨x, by simp, hx⟩

theorem Clean.append {past rest : History} (h : Clean past) (hrest : ∀ x ∈ rest, ¬x.Halts) :
    Clean (past ++ rest) := by
  refine atEach_append.mpr ⟨h, fun a x b hab hx => absurd hx (hrest x ?_)⟩
  simp [hab]

/-! ### One phase -/

def healthyAfter (p : Phase) (hosts : List String) (healthyNow : Finset String) : Finset String :=
  match p with
  | .drain => healthyNow \ hosts.toFinset
  | .undrain => healthyNow ∪ hosts.toFinset
  | _ => healthyNow

def leftAfter (p : Phase) (hosts : List String) (leftDrained : Finset String) : Finset String :=
  match p with
  | .drain => leftDrained ∪ hosts.toFinset
  | .undrain => leftDrained \ hosts.toFinset
  | _ => leftDrained

/-- The calls of a phase that has not stopped. -/
def OnlyPasses (p : Phase) (hosts : List String) (calls : History) : Prop :=
  ∀ x ∈ calls, x.RefusedPoll ∨ ∃ h ∈ hosts, x.Passed p h

/-- Phase `p` went through `hosts` without a stop and made the calls `calls`. -/
structure PhaseRun (p : Phase) (hosts : List String) (s s' : State) (calls : History) : Prop where
  history : s'.history = s.history ++ calls
  only : OnlyPasses p hosts calls
  passed : ∀ h ∈ hosts, ∃ x ∈ calls, x.Passed p h
  healthyNow : s'.healthyNow = healthyAfter p hosts s.healthyNow
  leftDrained : s'.leftDrained = leftAfter p hosts s.leftDrained
  done : s'.done = if p = .undrain then s.done ++ hosts else s.done
  drained : s'.drained = if p = .drain then s.drained ++ hosts else s.drained

/-- Phase `p` went through `before` and stopped at `host`, with `x` as its last exchange. -/
structure PhaseStop (p : Phase) (hosts : List String) (s : State) (b : Stop) (s' : State)
    (before : List String) (host : String) (calls : History) (x : Exchange) : Prop where
  split : ∃ after, hosts = before ++ host :: after
  run : PhaseRun p before s { s' with history := s.history ++ calls } calls
  history : s'.history = s.history ++ calls ++ [x]
  halts : x.Halts
  cause : x.call = .cancelled ∧ b = cancelStop ∨
    x.call = .on p host ∧ ∃ detail, b = failure p host detail

theorem PhaseRun.refl (p : Phase) (s : State) : PhaseRun p [] s s [] := by
  constructor <;> cases p <;> simp [healthyAfter, leftAfter, OnlyPasses]

theorem PhaseRun.poll {p : Phase} {hosts : List String} {s t : State} {calls : History}
    (h : PhaseRun p hosts s t calls) {a : Answer} (ha : a.ok = false) :
    PhaseRun p hosts s (t.record .cancelled a) (calls ++ [⟨.cancelled, a⟩]) where
  history := by simp [State.record, h.history]
  only x hx := by
    rcases List.mem_append.mp hx with hx | hx
    · exact h.only x hx
    · exact .inl (List.mem_singleton.mp hx ▸ ⟨rfl, ha⟩)
  passed host hhost := by
    obtain ⟨x, hx, hp⟩ := h.passed host hhost
    exact ⟨x, List.mem_append_left _ hx, hp⟩
  healthyNow := h.healthyNow
  leftDrained := h.leftDrained
  done := h.done
  drained := h.drained

/-- The books after one more member, from the books after the members before it. -/
theorem PhaseRun.ok {p : Phase} {hosts : List String} {s t : State} {calls : History}
    (h : PhaseRun p hosts s t calls) {host : String} {a : Answer} (ha : a.ok = true) :
    PhaseRun p (hosts ++ [host]) s
      (afterOk p host ((t.record (.on p host) a).emit host p a.ok a.detail))
      (calls ++ [⟨.on p host, a⟩]) where
  history := by cases p <;> simp [afterOk, State.record, State.emit, h.history]
  only x hx := by
    rcases List.mem_append.mp hx with hx | hx
    · refine (h.only x hx).imp_right fun ⟨g, hg, hp⟩ => ⟨g, List.mem_append_left _ hg, hp⟩
    · exact .inr ⟨host, by simp, List.mem_singleton.mp hx ▸ ⟨rfl, ha⟩⟩
  passed g hg := by
    rcases List.mem_append.mp hg with hg | hg
    · obtain ⟨x, hx, hp⟩ := h.passed g hg
      exact ⟨x, List.mem_append_left _ hx, hp⟩
    · exact ⟨_, List.mem_append_right _ (List.mem_singleton_self _),
        by rw [List.mem_singleton.mp hg], ha⟩
  healthyNow := by
    have := h.healthyNow
    cases p <;> simp only [afterOk, State.record, State.emit, healthyAfter] at this ⊢ <;> rw [this]
    · ext g
      simp
      tauto
    · ext g
      simp
  leftDrained := by
    have := h.leftDrained
    cases p <;> simp only [afterOk, State.record, State.emit, leftAfter] at this ⊢ <;> rw [this]
    · ext g
      simp
    · ext g
      simp
      tauto
  done := by
    have := h.done
    cases p <;> simp_all [afterOk, State.record, State.emit]
  drained := by
    have := h.drained
    cases p <;> simp_all [afterOk, State.record, State.emit]

/-- The exchange that stops a phase, with the books as they were before it. -/
theorem PhaseRun.stop {p : Phase} {hosts before after : List String} {host : String}
    {s t t' : State} {calls : History} (h : PhaseRun p before s t calls)
    (hsplit : hosts = before ++ host :: after) {b : Stop} {x : Exchange} (hx : x.Halts)
    (hcause : x.call = .cancelled ∧ b = cancelStop ∨
      x.call = .on p host ∧ ∃ detail, b = failure p host detail)
    (hbooks : t' = { t with history := t.history ++ [x], events := t'.events }) :
    PhaseStop p hosts s b t' before host calls x := by
  rw [hbooks]
  exact ⟨⟨after, hsplit⟩, ⟨rfl, h.only, h.passed, h.healthyNow, h.leftDrained, h.done, h.drained⟩,
    by rw [h.history], hx, hcause⟩

theorem visit_ends {pool : Callables} {p : Phase} {hosts before after : List String}
    {host : String} {s t : State} {calls : History} (h : PhaseRun p before s t calls)
    (hsplit : hosts = before ++ host :: after) :
    Ends (fun s' => ∃ calls, PhaseRun p (before ++ [host]) s s' calls)
      (fun e => ∃ before host calls x, PhaseStop p hosts s e.1 e.2 before host calls x)
      (visit pool p t host) := by
  have hcall : ∀ {t : State} {calls : History}, PhaseRun p before s t calls →
      Ends (fun s' => ∃ calls, PhaseRun p (before ++ [host]) s s' calls)
        (fun e => ∃ before host calls x, PhaseStop p hosts s e.1 e.2 before host calls x)
        (if (attempt pool p host t).1.ok then .ok (afterOk p host (attempt pool p host t).2)
          else .error (failure p host (attempt pool p host t).1.detail,
            (attempt pool p host t).2)) := by
    intro t calls h
    by_cases ha : (attempt pool p host t).1.ok = true
    · rw [if_pos ha]
      exact ⟨_, h.ok ha⟩
    · rw [if_neg ha]
      exact ⟨before, host, calls, _, h.stop hsplit (x := ⟨.on p host, _⟩)
        (Bool.eq_false_iff.mpr ha) (.inr ⟨rfl, _, rfl⟩) rfl⟩
  unfold visit stopRequested ask
  split_ifs with hact hpoll
  · dsimp only
    by_cases ha : (pool.reply t.history .cancelled).ok = true
    · rw [if_pos ha]
      exact ⟨before, host, calls, _, h.stop hsplit (x := ⟨.cancelled, _⟩) ha (.inl ⟨rfl, rfl⟩) rfl⟩
    · rw [if_neg ha]
      exact hcall (h.poll (Bool.eq_false_iff.mpr ha))
  · exact hcall h
  · exact hcall h

theorem runPhase_ends (pool : Callables) (p : Phase) (hosts : List String) (s : State) :
    Ends (fun s' => ∃ calls, PhaseRun p hosts s s' calls)
      (fun e => ∃ before host calls x, PhaseStop p hosts s e.1 e.2 before host calls x)
      (runPhase pool p hosts s) := by
  have hloop := Ends.foldlM (f := visit pool p)
    (I := fun before after t => hosts = before ++ after ∧ ∃ calls, PhaseRun p before s t calls)
    (E := fun e => ∃ before host calls x, PhaseStop p hosts s e.1 e.2 before host calls x)
    (fun before host after t ⟨hsplit, calls, h⟩ => (visit_ends h hsplit).mono
      (fun t' h' => ⟨by simpa using hsplit, h'⟩) fun _ h' => h')
    hosts [] s ⟨rfl, [], .refl p s⟩
  exact hloop.mono (fun t h => by simpa using h.2) fun _ h => h

/-! ### Putting a group back -/

/-- What `bail` did to the members it does not blame. -/
structure PutBack (b : Stop) (s s' : State) (calls : History) : Prop where
  history : s'.history = s.history ++ calls
  only : ∀ x ∈ calls, ∃ h ∈ s.drained, h ∉ b.blamed ∧
    (x.call = .on .health h ∨ x.call = .on .undrain h)
  returned : ∀ h, (∃ x ∈ calls, x.Passed .health h) ↔ ∃ x ∈ calls, x.call = .on .undrain h
  leftDrained : ∀ h, h ∈ s'.leftDrained ↔
    h ∈ s.leftDrained ∧ ∀ x ∈ calls, ¬x.Passed .undrain h
  done : s'.done = s.done

theorem PutBack.refl (b : Stop) (s : State) : PutBack b s s [] := by
  constructor <;> simp

/-- One more member: its check, and if that passed its undrain. -/
theorem PutBack.append {b : Stop} {s t t' : State} {calls more : History}
    (hc : PutBack b s t calls) (h : PutBack b { t with drained := s.drained } t' more) :
    PutBack b s t' (calls ++ more) where
  history := by rw [h.history, hc.history, List.append_assoc]
  only x hx := (List.mem_append.mp hx).elim (hc.only x) (h.only x)
  returned g := by
    have h1 := hc.returned g
    have h2 := h.returned g
    simp only [List.mem_append, or_and_right, exists_or]
    rw [h1, h2]
  leftDrained g := by
    rw [h.leftDrained, hc.leftDrained]
    simp only [List.mem_append, or_imp, forall_and, and_assoc]
  done := h.done.trans hc.done

theorem putBack_one (pool : Callables) (b : Stop) {s : State} {h : String} (hh : h ∈ s.drained) :
    ∃ calls, PutBack b s (putBack pool b.blamed s h) calls ∧
      (putBack pool b.blamed s h).drained = s.drained := by
  unfold putBack attempt ask
  split_ifs with hb
  · exact ⟨[], .refl b s, rfl⟩
  · dsimp only
    split_ifs with hhealth hundrain
    · rw [Bool.not_eq_true'] at hhealth
      refine ⟨[_], ⟨rfl, ?_, ?_, ?_, rfl⟩, rfl⟩
      · simp [hh, hb]
      · simp [Exchange.Passed, hhealth]
      · simp [Exchange.Passed, State.emit, State.record]
    · refine ⟨[_, _], ⟨List.append_assoc .., ?_, ?_, ?_, rfl⟩, rfl⟩
      · simp [hh, hb]
      · simpa [Exchange.Passed] using hhealth
      · simp [Exchange.Passed, State.emit, State.record] at hundrain ⊢
        simp [hundrain, and_comm, eq_comm]
    · refine ⟨[_, _], ⟨List.append_assoc .., ?_, ?_, ?_, rfl⟩, rfl⟩
      · simp [hh, hb]
      · simpa [Exchange.Passed] using hhealth
      · simp [Exchange.Passed, State.emit, State.record] at hundrain ⊢
        simp [hundrain]

theorem bail_putBack (pool : Callables) (b : Stop) (s : State) :
    ∃ calls, PutBack b s (bail pool b s) calls := by
  have hloop := foldl_rule (f := putBack pool b.blamed)
    (I := fun before after t => s.drained = before ++ after ∧ t.drained = s.drained ∧
      ∃ calls, PutBack b s t calls)
    (fun before h after t ⟨hsplit, hdrained, calls, hc⟩ => by
      obtain ⟨more, hm, hd⟩ := putBack_one pool b (s := t) (h := h) (by simp [hdrained, hsplit])
      refine ⟨by simpa using hsplit, hd.trans hdrained, calls ++ more, hc.append ?_⟩
      rwa [← hdrained])
    s.drained [] s ⟨rfl, rfl, [], .refl b s⟩
  exact hloop.2.2

theorem PutBack.call_eq {b : Stop} {s t : State} {calls : History} (h : PutBack b s t calls)
    {x : Exchange} (hx : x ∈ calls) {q : Phase} {g : String} (hc : x.call = .on q g) :
    (q = .health ∨ q = .undrain) ∧ g ∈ s.drained ∧ g ∉ b.blamed := by
  obtain ⟨g', hd, hb, hc' | hc'⟩ := h.only x hx <;> rw [hc] at hc' <;>
    obtain ⟨rfl, rfl⟩ := Call.on.inj hc'
  · exact ⟨.inl rfl, hd, hb⟩
  · exact ⟨.inr rfl, hd, hb⟩

/-! ### Histories across a phase -/

section Phases

variable {p q : Phase} {hosts : List String} {past calls : History} {x : Exchange} {g : String}

theorem OnlyPasses.call_eq (h : OnlyPasses p hosts calls) (hx : x ∈ calls)
    (hc : x.call = .on q g) : q = p ∧ g ∈ hosts ∧ x.answer.ok = true := by
  rcases h x hx with ⟨hpoll, -⟩ | ⟨host, hhost, hcall, hok⟩
  · simp [hpoll] at hc
  · rw [hcall] at hc
    obtain ⟨rfl, rfl⟩ := Call.on.inj hc
    exact ⟨rfl, hhost, hok⟩

theorem OnlyPasses.not_halts (h : OnlyPasses p hosts calls) (hx : x ∈ calls) : ¬x.Halts := by
  unfold Exchange.Halts
  rcases h x hx with ⟨hpoll, hok⟩ | ⟨host, -, hcall, hok⟩
  · simp [hpoll, hok]
  · simp [hcall, hok]

theorem OnlyPasses.outOf_iff (h : OnlyPasses p hosts calls)
    (hg : (p ≠ .drain ∧ p ≠ .undrain) ∨ g ∉ hosts) :
    OutOf (past ++ calls) g ↔ OutOf past g := by
  refine since_append_of_neutral (fun x hx hp => ?_) (fun x hx hp => ?_) <;>
    obtain ⟨hq, hmem, -⟩ := h.call_eq hx hp.1 <;> rcases hg with hg | hg
  · exact hg.1 hq.symm
  · exact hg hmem
  · exact hg.2 hq.symm
  · exact hg hmem

theorem outOf_append_of_aside (h : ∀ y ∈ calls, ∀ q, y.call ≠ .on q g) :
    OutOf (past ++ calls) g ↔ OutOf past g := by
  refine since_append_of_neutral (fun y hy hp => ?_) (fun y hy hp => ?_) <;>
    exact h y hy _ hp.1

theorem outOf_of_drained (h : OnlyPasses .drain hosts calls)
    (hg : ∃ x ∈ calls, x.Passed .drain g) : OutOf (past ++ calls) g := by
  obtain ⟨x, hx, hp⟩ := hg
  obtain ⟨a, b, rfl⟩ := List.append_of_mem hx
  refine since_append.mpr (.inl ⟨a, x, b, rfl, hp, fun y hy hu => ?_⟩)
  simpa using (h.call_eq (x := y) (by simp [hy]) hu.1).1

theorem not_outOf_of_undrained (h : OnlyPasses .undrain hosts calls)
    (hg : ∃ x ∈ calls, x.Passed .undrain g) : ¬OutOf (past ++ calls) g := by
  obtain ⟨x, hx, hp⟩ := hg
  intro hout
  rcases since_append.mp hout with ⟨a, y, b, rfl, hy, -⟩ | ⟨-, hkeep⟩
  · simpa using (h.call_eq (x := y) (by simp) hy.1).1
  · exact hkeep x hx hp

theorem OnlyPasses.unsettled (h : OnlyPasses p hosts calls) (hu : Unsettled (past ++ calls) g) :
    Unsettled past g ∨ p = .act ∧ g ∈ hosts := by
  rcases since_append.mp hu with ⟨a, y, b, rfl, hy, -⟩ | ⟨hu, -⟩
  · obtain ⟨hq, hmem, -⟩ := h.call_eq (x := y) (by simp) hy
    exact .inr ⟨hq.symm, hmem⟩
  · exact .inl hu

theorem not_unsettled_of_settled (h : OnlyPasses .settle hosts calls)
    (hg : ∃ x ∈ calls, x.Passed .settle g) : ¬Unsettled (past ++ calls) g := by
  obtain ⟨x, hx, hp⟩ := hg
  intro hu
  rcases since_append.mp hu with ⟨a, y, b, rfl, hy, -⟩ | ⟨-, hkeep⟩
  · simpa using (h.call_eq (x := y) (by simp) hy).1
  · exact hkeep x hx hp

theorem OnlyPasses.acted (h : OnlyPasses p hosts calls) (ha : Acted (past ++ calls) g) :
    Acted past g ∨ p = .act ∧ g ∈ hosts := by
  refine (acted_append.mp ha).imp_right fun ⟨x, hx, hc⟩ => ?_
  obtain ⟨hq, hmem, -⟩ := h.call_eq hx hc
  exact ⟨hq.symm, hmem⟩

/-- Checks that pass leave an earlier one standing. -/
theorem OnlyPasses.answeredHealthy (h : OnlyPasses p hosts calls)
    (ha : AnsweredHealthy past g ∨ ∃ x ∈ calls, x.Passed .health g) :
    AnsweredHealthy (past ++ calls) g := by
  have hkeep : ∀ x ∈ calls, x.call = .on .health g → x.answer.ok = true :=
    fun x hx hc => (h.call_eq hx hc).2.2
  refine since_append.mpr ?_
  rcases ha with ha | ⟨x, hx, hp⟩
  · exact .inr ⟨ha, hkeep⟩
  · obtain ⟨a, b, rfl⟩ := List.append_of_mem hx
    exact .inl ⟨a, x, b, rfl, hp, fun y hy => hkeep y (by simp [hy])⟩

end Phases

theorem outOf_halt {past : History} {x : Exchange} {g : String} (hx : x.Halts) :
    OutOf (past ++ [x]) g ↔ OutOf past g := by
  have hnot : ∀ q, ¬x.Passed q g := by
    rintro q ⟨hc, hok⟩
    simp [Exchange.Halts, hc, hok] at hx
  exact since_snoc_of_neutral (hnot _) (hnot _)

end Rolling
