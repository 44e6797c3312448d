import SysibleController.RollingRuns

/-! A host is returned to rotation only after it has settled, as far as the roller keeps to
it: the main loop always does, `bail` does not look. Members may repeat here. -/
namespace Rolling

open EarlyExit PastTrace

/-- Between every action on a host and every later undrain of it the host has settled. -/
def SettledBeforeReturn (calls : History) : Prop :=
  ∀ before between after x y h, calls = before ++ x :: (between ++ y :: after) →
    x.call = .on .act h → y.call = .on .undrain h → ∃ z ∈ between, z.Passed .settle h

def ReturnsSettled (past : History) (x : Exchange) : Prop :=
  ∀ h, x.call = .on .undrain h → ¬Unsettled past h

theorem settledBeforeReturn_iff {calls : History} :
    SettledBeforeReturn calls ↔ AtEach ReturnsSettled calls := by
  constructor
  · rintro hs past y after hcalls h hy ⟨a, x, b, rfl, hx, hb⟩
    obtain ⟨z, hz, hp⟩ := hs a b after x y h (by simpa using hcalls) hx hy
    exact hb z hz hp
  · intro hs a b c x y h hcalls hx hy
    by_contra hno
    push Not at hno
    exact hs (a ++ x :: b) y c (by simpa using hcalls) h hy ⟨a, x, b, rfl, hx, hno⟩

theorem Unsettled.of_append {past more : History} {h : String}
    (hmore : ∀ y ∈ more, y.call ≠ .on .act h) (hu : Unsettled (past ++ more) h) :
    Unsettled past h := by
  rcases since_append.mp hu with ⟨a, y, b, rfl, hy, -⟩ | ⟨hu, -⟩
  · exact absurd hy (hmore y (by simp))
  · exact hu

/-- Calls of one phase return nobody unsettled if they are no undrains or nobody is unsettled. -/
theorem returnsSettled_append {past calls : History} {p : Phase} (hs : AtEach ReturnsSettled past)
    (hcalls : ∀ x ∈ calls, x.call = .cancelled ∨ ∃ h, x.call = .on p h)
    (hp : p = .undrain → ∀ h, ¬Unsettled past h) : AtEach ReturnsSettled (past ++ calls) := by
  refine atEach_append.mpr ⟨hs, fun a y b hab h hy hu => ?_⟩
  have hphase : ∀ x ∈ calls, ∀ q g, x.call = .on q g → q = p := by
    intro x hx q g hq
    rcases hcalls x hx with hc | ⟨h', hc⟩ <;> rw [hc] at hq
    · simp at hq
    · exact (Call.on.inj hq).1.symm
  obtain rfl := hphase y (by simp [hab]) _ _ hy
  refine hp rfl h (hu.of_append fun x hx hact => ?_)
  simpa using hphase x (by simp [hab, hx]) _ _ hact

theorem PhaseRun.phaseCalls {p : Phase} {hosts : List String} {s t : State} {calls : History}
    (h : PhaseRun p hosts s t calls) : ∀ x ∈ calls, x.call = .cancelled ∨ ∃ g, x.call = .on p g :=
  fun x hx => (h.only x hx).imp And.left fun ⟨g, _, hp⟩ => ⟨g, hp.1⟩

/-- Nobody outside `pending` has been acted on without settling since. -/
structure SettleInvariant (pending : List String) (s : State) : Prop where
  clean : Clean s.history
  returns : AtEach ReturnsSettled s.history
  unsettled : ∀ h, Unsettled s.history h → h ∈ pending

/-- What a phase that stopped leaves to `bail`. -/
def SettleHalt (b : Stop) (s : State) : Prop :=
  ∃ past x, s.history = past ++ [x] ∧ Clean past ∧ x.Halts ∧ AtEach ReturnsSettled s.history ∧
    ∀ h, h ∉ b.blamed → Unsettled past h ∨ Unsettled (past ++ [x]) h → ∀ q, x.call ≠ .on q h

variable {p : Phase} {hosts pending : List String} {s t : State} {calls : History}

theorem SettleInvariant.run (h : SettleInvariant pending s) (hrun : PhaseRun p hosts s t calls)
    (hp : p = .undrain → pending = []) (pending' : List String)
    (hpending : ∀ g, Unsettled t.history g → g ∈ pending') : SettleInvariant pending' t := by
  refine ⟨?_, ?_, hpending⟩ <;> rw [hrun.history]
  · exact h.clean.append fun x hx => hrun.only.not_halts hx
  · refine returnsSettled_append h.returns hrun.phaseCalls fun hu g hg => ?_
    simpa [hp hu] using h.unsettled g hg

theorem SettleInvariant.stop (h : SettleInvariant pending s) {b : Stop} {before : List String}
    {host : String} {x : Exchange} (hstop : PhaseStop p hosts s b t before host calls x)
    (hp : p ≠ .act → p ≠ .settle → pending = []) : SettleHalt b t := by
  have hrun := hstop.run
  have hclean : Clean (s.history ++ calls) := h.clean.append fun y hy => hrun.only.not_halts hy
  have hphase : ∀ y ∈ calls ++ [x], y.call = .cancelled ∨ ∃ g, y.call = .on p g := by
    intro y hy
    rcases List.mem_append.mp hy with hy | hy
    · exact hrun.phaseCalls y hy
    · rw [List.mem_singleton.mp hy]
      exact hstop.cause.imp And.left fun hc => ⟨host, hc.1⟩
  refine ⟨s.history ++ calls, x, hstop.history, hclean, hstop.halts, ?_, fun g hg hu q hq => ?_⟩
  · rw [hstop.history, List.append_assoc]
    refine returnsSettled_append h.returns hphase fun hu g hg => ?_
    simpa [hp (by simp [hu]) (by simp [hu])] using h.unsettled g hg
  · rcases hstop.cause with ⟨hc, -⟩ | ⟨hc, detail, rfl⟩
    · simp [hc] at hq
    · obtain ⟨rfl, rfl⟩ := Call.on.inj (hc.symm.trans hq)
      cases p with
      | act | settle => simp [failure] at hg
      | drain | health | undrain =>
        have hu' : Unsettled (s.history ++ calls) host :=
          hu.elim id (Unsettled.of_append (by simp [hc]))
        have hu'' := (hrun.only.unsettled hu').resolve_right (by simp)
        simpa [hp (by simp) (by simp)] using h.unsettled host hu''

theorem rollGroup_settles {pool : Callables} (hsettle : pool.hasSettle = true)
    {group : List String} (hs : SettleInvariant [] s) :
    Ends (SettleInvariant []) (fun e => SettleHalt e.1 e.2) (rollGroup pool group s) := by
  have hphase : ∀ {pending : List String} (p : Phase) (hosts : List String) (s : State),
      SettleInvariant pending s → (p ≠ .act → p ≠ .settle → pending = []) →
      Ends (fun t => ∃ calls, PhaseRun p hosts s t calls) (fun e => SettleHalt e.1 e.2)
        (runPhase pool p hosts s) := fun p hosts s hs hp =>
    (runPhase_ends pool p hosts s).mono (fun _ h => h) fun _ ⟨_, _, _, _, hstop⟩ => hs.stop hstop hp
  unfold rollGroup
  have hs0 : SettleInvariant [] { s with drained := [] } := ⟨hs.clean, hs.returns, hs.unsettled⟩
  refine (hphase .drain group _ hs0 (by simp)).bind fun s1 ⟨_, h1⟩ => ?_
  have hs1 := hs0.run h1 (by simp) [] fun g hg =>
    hs0.unsettled g ((h1.only.unsettled (h1.history ▸ hg)).resolve_right (by simp))
  refine (hphase .act s1.drained s1 hs1 (by simp)).bind fun s2 ⟨_, h2⟩ => ?_
  have hd2 : s2.drained = s1.drained := h2.drained
  have hs2 := hs1.run h2 (by simp) s1.drained fun g hg =>
    (h2.only.unsettled (h2.history ▸ hg)).elim (fun hu => by simpa using hs1.unsettled g hu) And.right
  rw [settlePhase, if_pos hsettle, hd2]
  refine (hphase .settle s1.drained s2 hs2 (by simp)).bind fun s3 ⟨_, h3⟩ => ?_
  have hs3 := hs2.run h3 (by simp) [] fun g hg => by
    have hg2 := (h3.only.unsettled (h3.history ▸ hg)).resolve_right (by simp)
    rw [h3.history] at hg
    exact absurd hg (not_unsettled_of_settled h3.only (h3.passed g (hs2.unsettled g hg2)))
  refine (hphase .health s3.drained s3 hs3 (by simp)).bind fun s4 ⟨_, h4⟩ => ?_
  have hs4 := hs3.run h4 (by simp) [] fun g hg =>
    hs3.unsettled g ((h4.only.unsettled (h4.history ▸ hg)).resolve_right (by simp))
  refine (hphase .undrain s4.drained s4 hs4 (by simp)).mono (fun s5 ⟨_, h5⟩ => ?_) fun _ h => h
  exact hs4.run h5 (by simp) [] fun g hg =>
    hs4.unsettled g ((h5.only.unsettled (h5.history ▸ hg)).resolve_right (by simp))

/-- A halted group after `bail`: exactly the open members that pass their check are returned
unsettled. -/
theorem bail_settles (pool : Callables) {b : Stop} (hs : SettleHalt b s) :
    AtEach ReturnsSettled (bail pool b s).history ↔
      NoneAfterHalt Unsettled .health (bail pool b s).history := by
  obtain ⟨past, x, hpast, hclean, hhalts, hreturns, haside⟩ := hs
  obtain ⟨calls, hback⟩ := bail_putBack pool b s
  have hneutral : ∀ {more : History} {h : String}, (∀ y ∈ more, y ∈ calls) →
      Unsettled (past ++ [x] ++ more) h → Unsettled (past ++ [x]) h := fun hmore =>
    .of_append fun y hy hact => by simpa using (hback.call_eq (hmore y hy) hact).1
  have hopen : ∀ {h : String}, (∀ q, x.call ≠ .on q h) →
      (Unsettled (past ++ [x]) h ↔ Unsettled past h) := fun hx =>
    since_snoc_of_neutral (hx _) fun hp => hx _ hp.1
  rw [hpast] at hreturns
  rw [hback.history, hpast, atEach_append, and_iff_right hreturns, List.append_assoc]
  rw [List.singleton_append, noneAfterHalt_bail (fun _ _ => Unsettled.acted)
    (fun past more h hmore => .of_append fun y hy => (hmore y hy).1) hclean hhalts
    (fun y hy => (hback.only y hy).imp fun _ h => h.2.2)
    (fun h ⟨y, hy, hp⟩ hu => haside h (hback.call_eq hy hp.1).2.2 hu)]
  constructor
  · intro hret h hu y hy hp
    obtain ⟨u, hu', hcall⟩ := (hback.returned h).mp ⟨y, hy, hp⟩
    obtain ⟨a, c, rfl⟩ := List.append_of_mem hu'
    have hx := haside h (hback.call_eq hy hp.1).2.2 (.inl hu)
    refine hret a u c rfl h hcall (since_append.mpr (.inr ⟨(hopen hx).mpr hu, fun z hz hs => ?_⟩))
    simpa using (hback.call_eq (by simp [hz]) hs.1).1
  · rintro hnone a u c rfl h hcall hu
    have hu1 := hneutral (by simp +contextual) hu
    have hx := haside h (hback.call_eq (by simp) hcall).2.2 (.inr hu1)
    obtain ⟨y, hy, hp⟩ := (hback.returned h).mpr ⟨u, by simp, hcall⟩
    exact hnone h ((hopen hx).mp hu1) y hy hp

theorem Asked.returnsSettled {members : List String} {states : List (String × Bool)}
    (hs : Asked members states s) : AtEach ReturnsSettled s.history := by
  intro a y b hab h hy
  obtain ⟨g, hg⟩ := hs.only y (by simp [hab])
  simp [hg] at hy

/-- The condition in one sentence: once an exchange has halted the run, no host it is not about
that is acted on and not settled passes a health check. -/
def NoOpenHostPasses (calls : History) : Prop := NoneAfterHalt Unsettled .health calls

theorem settled_before_return_iff {pool : Callables} (hsettle : pool.hasSettle = true)
    (cfg : Settings) :
    SettledBeforeReturn (roll pool cfg).final.history ↔
      NoOpenHostPasses (roll pool cfg).final.history := by
  rw [settledBeforeReturn_iff]
  have hacted : ∀ past h, Unsettled past h → Acted past h := fun _ _ => Unsettled.acted
  have hpoll : ∀ (s : State) (a : Answer), AtEach ReturnsSettled s.history →
      AtEach ReturnsSettled (s.record .cancelled a).history := fun s a hs =>
    returnsSettled_append (p := .act) hs (by simp) (by simp)
  refine roll_rule (B := fun _ => SettleInvariant [])
    (Q := fun s => AtEach ReturnsSettled s.history ↔ NoOpenHostPasses s.history)
    (fun states s host why hs => ?_) (fun states s hs => ?_) (fun groups s a hs ha => ?_)
    (fun groups s a hs ha => ?_) (fun groups s hs => ?_) (fun s host why hs => hs)
    (fun group groups s hs hfloor => ?_)
  · exact iff_of_true hs.returnsSettled (noneAfterHalt_of_clean hacted hs.clean)
  · exact ⟨hs.clean, hs.returnsSettled, fun h hu => absurd hu.acted (hs.not_acted h)⟩
  · refine ⟨hs.clean.append ?_, hpoll s a hs.returns, fun h hu => hs.unsettled h ?_⟩
    · simp [Exchange.Halts, ha]
    · exact Unsettled.of_append (by simp) hu
  · exact iff_of_true (hpoll s a hs.returns) (noneAfterHalt_snoc hacted hs.clean)
  · exact iff_of_true hs.returns (noneAfterHalt_of_clean hacted hs.clean)
  · exact (rollGroup_settles hsettle hs).mono (fun _ h => h) fun e h => bail_settles pool h

theorem settled_before_return_sample : (allBut .act "b").hasSettle = true ∧
    (SettledBeforeReturn (roll (allBut .act "b") ⟨["a", "b", "c"], 1, false, 1⟩).final.history ↔
      NoOpenHostPasses (roll (allBut .act "b") ⟨["a", "b", "c"], 1, false, 1⟩).final.history) :=
  ⟨rfl, settled_before_return_iff rfl _⟩

/-- Two members are out together, the action succeeds on the first and fails on the second:
the first goes back after a health check, never having settled. -/
theorem returned_unsettled : ¬SettledBeforeReturn
    (roll (allBut .act "b") ⟨["a", "b", "c"], 2, false, 1⟩).final.history := by
  have hrun : (roll (allBut .act "b") ⟨["a", "b", "c"], 2, false, 1⟩).final.history =
      [⟨.on .health "a", .returned true ""⟩, ⟨.on .health "b", .returned true ""⟩,
        ⟨.on .health "c", .returned true ""⟩, ⟨.on .drain "a", .returned true ""⟩,
        ⟨.on .drain "b", .returned true ""⟩] ++ ⟨.on .act "a", .returned true ""⟩ ::
      ([⟨.on .act "b", .returned false ""⟩, ⟨.on .health "a", .returned true ""⟩] ++
        ⟨.on .undrain "a", .returned true ""⟩ :: []) := by decide
  intro hs
  obtain ⟨z, hz, hp⟩ := hs _ _ _ _ _ "a" hrun rfl rfl
  revert z
  simp [Exchange.Passed]

end Rolling
