import SysibleController.RollingRuns

/-! A host is put back into rotation only while this run holds it out: the last rotation call
for it was a drain that succeeded. The phases of a group keep to it; `bail` walks over the
whole group again, also over the members that the group has already returned. -/
namespace Rolling

open EarlyExit PastTrace

def Exchange.Rotates (x : Exchange) (h : String) : Prop :=
  x.call = .on .drain h ∨ x.call = .on .undrain h

/-- The last rotation call for `h` was a drain that succeeded. -/
def HeldOut (past : History) (h : String) : Prop :=
  Since (fun x => ¬x.Rotates h) (fun x => x.Passed .drain h) past

def ReturnsHeldOut (past : History) (x : Exchange) : Prop :=
  ∀ h, x.call = .on .undrain h → HeldOut past h

def OnlyHeldOutReturn (calls : History) : Prop := AtEach ReturnsHeldOut calls

def Returned (past : History) (h : String) : Prop := ∃ x ∈ past, x.Passed .undrain h

/-- After an undrain that fails, no host returned before it passes a health check. -/
def NoReturnedHostPasses (calls : History) : Prop :=
  ∀ past x rest h, calls = past ++ x :: rest → x.Halts → (∃ g, x.call = .on .undrain g) →
    Returned past h → ∀ y ∈ rest, ¬y.Passed .health h

/-- No undrain has failed. -/
def Standing (past : History) : Prop := ∀ x ∈ past, x.Halts → ∀ g, x.call ≠ .on .undrain g

def CalledOnce (calls : History) : Prop := (calls.map Exchange.call).Nodup

/-! ### Reading a history -/

section Histories

variable {past calls a c : History} {x y : Exchange} {g h : String} {p : Phase}
  {hosts : List String}

theorem Exchange.Passed.rotates_drain (hx : x.Passed .drain h) : x.Rotates h := .inl hx.1

theorem Exchange.Passed.rotates_undrain (hx : x.Passed .undrain h) : x.Rotates h := .inr hx.1

theorem heldOut_append (hcalls : ∀ y ∈ calls, ¬y.Rotates h) :
    HeldOut (past ++ calls) h ↔ HeldOut past h :=
  since_append_of_neutral (fun y hy hp => hcalls y hy hp.rotates_drain) hcalls

/-- Without a drain of `h` in between, whoever is held out now was so before. -/
theorem HeldOut.of_append (hcalls : ∀ y ∈ calls, y.call ≠ .on .drain h)
    (hout : HeldOut (past ++ calls) h) : HeldOut past h ∧ ∀ y ∈ calls, ¬y.Rotates h := by
  rcases since_append.mp hout with ⟨a, y, b, rfl, hy, -⟩ | hout
  · exact absurd hy.1 (hcalls y (by simp))
  · exact hout

theorem returned_append : Returned (past ++ calls) h ↔ Returned past h ∨ Returned calls h := by
  simp [Returned, or_and_right, exists_or]

theorem CalledOnce.snoc (hcalls : CalledOnce calls) (hx : ∀ y ∈ calls, y.call ≠ x.call) :
    CalledOnce (calls ++ [x]) := by
  have hnew : x.call ∉ calls.map Exchange.call := by
    intro hmem
    obtain ⟨y, hy, heq⟩ := List.mem_map.mp hmem
    exact hx y hy heq
  simpa [CalledOnce, List.nodup_append_comm] using And.intro hnew hcalls

theorem CalledOnce.before (hcalls : CalledOnce (a ++ x :: c)) (hy : y ∈ a) : y.call ≠ x.call := by
  intro heq
  have hnodup := List.nodup_append.mp (by simpa [CalledOnce] using hcalls)
  exact hnodup.2.2 _ (List.mem_map_of_mem hy) _ (List.mem_cons_self ..) heq

theorem CalledOnce.after (hcalls : CalledOnce (a ++ x :: c)) (hy : y ∈ c) : y.call ≠ x.call := by
  intro heq
  have hnodup := (List.nodup_append.mp (by simpa [CalledOnce] using hcalls)).2.1
  exact (List.nodup_cons.mp hnodup).1 (heq ▸ List.mem_map_of_mem hy)

/-- Calls of one phase that is no undrain, or undrains of held out hosts, once each. -/
theorem returnsHeldOut_append (hpast : AtEach ReturnsHeldOut past) (honce : CalledOnce calls)
    (hcalls : ∀ y ∈ calls, ∃ h, y.call = .on .undrain h ∧ HeldOut past h) :
    AtEach ReturnsHeldOut (past ++ calls) := by
  refine atEach_append.mpr ⟨hpast, fun a y c hac h hy => ?_⟩
  subst hac
  obtain ⟨h', hy', hout⟩ := hcalls y (by simp)
  obtain ⟨-, rfl⟩ := Call.on.inj (hy.symm.trans hy')
  refine (heldOut_append fun z hz => ?_).mpr hout
  have hne := honce.before hz
  rintro (hc | hc)
  · obtain ⟨g, hg, -⟩ := hcalls z (by simp [hz])
    simp [hc] at hg
  · exact hne (hc.trans hy.symm)

theorem returnsHeldOut_aside (hpast : AtEach ReturnsHeldOut past)
    (hcalls : ∀ y ∈ calls, ∀ h, y.call ≠ .on .undrain h) :
    AtEach ReturnsHeldOut (past ++ calls) :=
  atEach_append.mpr ⟨hpast, fun a y c hac h hy => absurd hy (hcalls y (by simp [hac]) h)⟩

theorem noReturnedHostPasses_of_standing (hcalls : Standing calls) : NoReturnedHostPasses calls := by
  rintro past x rest h rfl hx ⟨g, hg⟩
  exact absurd hg (hcalls x (by simp) hx g)

theorem Standing.append (hpast : Standing past) (hcalls : ∀ y ∈ calls, ¬y.Halts) :
    Standing (past ++ calls) := by
  intro x hx hhalt
  rcases List.mem_append.mp hx with hx | hx
  · exact hpast x hx hhalt
  · exact absurd hhalt (hcalls x hx)

theorem OnlyPasses.aside (h : OnlyPasses p hosts calls) (hp : p ≠ .undrain) :
    ∀ y ∈ calls, ∀ g, y.call ≠ .on .undrain g :=
  fun _ hy _ hc => hp (h.call_eq hy hc).1.symm

theorem OnlyPasses.not_rotates (h : OnlyPasses p hosts calls)
    (hg : (p ≠ .drain ∧ p ≠ .undrain) ∨ g ∉ hosts) : ∀ y ∈ calls, ¬y.Rotates g := by
  rintro y hy (hc | hc) <;> obtain ⟨hq, hmem, -⟩ := h.call_eq hy hc <;> rcases hg with hg | hg
  · exact hg.1 hq.symm
  · exact hg hmem
  · exact hg.2 hq.symm
  · exact hg hmem

theorem OnlyPasses.returned (h : OnlyPasses p hosts calls) (hg : Returned calls g) :
    p = .undrain ∧ g ∈ hosts := by
  obtain ⟨x, hx, hp⟩ := hg
  obtain ⟨hq, hmem, -⟩ := h.call_eq hx hp.1
  exact ⟨hq.symm, hmem⟩

theorem OnlyPasses.heldOut (h : OnlyPasses .drain hosts calls) (honce : CalledOnce calls)
    (hg : ∃ x ∈ calls, x.Passed .drain g) : HeldOut (past ++ calls) g := by
  obtain ⟨x, hx, hp⟩ := hg
  obtain ⟨a, c, rfl⟩ := List.append_of_mem hx
  refine since_append.mpr (.inl ⟨a, x, c, rfl, hp, fun y hy => ?_⟩)
  rintro (hc | hc)
  · exact honce.after hy (hc.trans hp.1.symm)
  · simpa using (h.call_eq (x := y) (by simp [hy]) hc).1

end Histories

/-! ### The calls of a phase and of `bail`, in their order -/

/-- A phase that polls nobody asks its hosts in order, as far as it gets. -/
theorem runPhase_calls (pool : Callables) {p : Phase} (hp : p ≠ .act) (hosts : List String)
    (s : State) :
    Ends (fun t => ∃ calls, t.history = s.history ++ calls ∧
        calls.map Exchange.call <+: hosts.map (.on p))
      (fun e => ∃ calls, e.2.history = s.history ++ calls ∧
        calls.map Exchange.call <+: hosts.map (.on p))
      (runPhase pool p hosts s) := by
  have hloop := Ends.foldlM (f := visit pool p)
    (I := fun before after t => hosts = before ++ after ∧ ∃ calls,
      t.history = s.history ++ calls ∧ calls.map Exchange.call = before.map (.on p))
    (E := fun e => ∃ calls, e.2.history = s.history ++ calls ∧
      calls.map Exchange.call <+: hosts.map (.on p))
    (fun before host after t ⟨hsplit, calls, hhist, hcalls⟩ => ?_) hosts [] s ⟨rfl, [], by simp, rfl⟩
  · refine hloop.mono (fun t ht => ?_) fun _ h => h
    obtain ⟨-, calls, hhist, hcalls⟩ := ht
    exact ⟨calls, hhist, hcalls ▸ List.prefix_rfl⟩
  · let calls' : History := calls ++ [⟨.on p host, pool.reply t.history (.on p host)⟩]
    have hmore : calls'.map Exchange.call = (before ++ [host]).map (.on p) := by
      simp [calls', hcalls]
    unfold visit attempt ask
    rw [if_neg hp]
    dsimp only
    rw [if_neg Bool.false_ne_true]
    split_ifs with ha
    · refine ⟨by simpa using hsplit, calls', ?_, hmore⟩
      cases p <;> simp [calls', afterOk, State.record, State.emit, hhist]
    · refine ⟨calls', by simp [calls', State.record, State.emit, hhist], ?_⟩
      rw [hmore, hsplit]
      exact ⟨after.map (.on p), by simp⟩

/-- The calls that `bail` has made for some of the members: each one's check and its undrain once,
the undrain after a check that passed. -/
structure Returning (s : State) (before : List String) (t : State) (calls : History) : Prop where
  history : t.history = s.history ++ calls
  once : CalledOnce calls
  asked : ∀ x ∈ calls, ∃ h ∈ before, x.call = .on .health h ∨ x.call = .on .undrain h
  order : AtEach (fun past x => ∀ h, x.call = .on .undrain h → ∃ y ∈ past, y.Passed .health h) calls

section Returning

variable {s t : State} {before : List String} {h : String} {calls more : History}

theorem Returning.other (hr : Returning s before t calls) (hfresh : h ∉ before) :
    ∀ x ∈ calls, x.call ≠ .on .health h ∧ x.call ≠ .on .undrain h := by
  intro x hx
  obtain ⟨g, hg, hc⟩ := hr.asked x hx
  have hne : g ≠ h := fun he => hfresh (he ▸ hg)
  rcases hc with hc | hc <;> simp [hc, hne]

theorem Returning.asked_more (hr : Returning s before t calls)
    (hmore : ∀ x ∈ more, x.call = .on .health h ∨ x.call = .on .undrain h) :
    ∀ x ∈ calls ++ more, ∃ g ∈ before ++ [h], x.call = .on .health g ∨ x.call = .on .undrain g := by
  intro x hx
  rcases List.mem_append.mp hx with hx | hx
  · obtain ⟨g, hg, hc⟩ := hr.asked x hx
    exact ⟨g, List.mem_append_left _ hg, hc⟩
  · exact ⟨h, by simp, hmore x hx⟩

theorem Returning.check {a : Answer} {u : State} (hr : Returning s before t calls)
    (hfresh : h ∉ before) (hu : u.history = s.history ++ (calls ++ [⟨.on .health h, a⟩])) :
    Returning s (before ++ [h]) u (calls ++ [⟨.on .health h, a⟩]) :=
  ⟨hu, hr.once.snoc fun x hx => (hr.other hfresh x hx).1, hr.asked_more (by simp),
    atEach_snoc.mpr ⟨hr.order, by simp⟩⟩

theorem Returning.undrain {a b : Answer} {u : State} (hr : Returning s before t calls)
    (hfresh : h ∉ before) (ha : a.ok = true)
    (hu : u.history = s.history ++ (calls ++ [⟨.on .health h, a⟩, ⟨.on .undrain h, b⟩])) :
    Returning s (before ++ [h]) u (calls ++ [⟨.on .health h, a⟩, ⟨.on .undrain h, b⟩]) := by
  have hsplit : calls ++ [⟨.on .health h, a⟩, ⟨.on .undrain h, b⟩] =
      calls ++ [⟨.on .health h, a⟩] ++ [⟨.on .undrain h, b⟩] := by simp
  obtain ⟨-, honce, -, horder⟩ := hr.check (u := { t with history := _ }) hfresh rfl
  refine ⟨hu, ?_, hr.asked_more (by simp), ?_⟩
  · rw [hsplit]
    refine honce.snoc fun x hx => ?_
    rcases List.mem_append.mp hx with hx | hx
    · exact (hr.other hfresh x hx).2
    · simp [List.mem_singleton.mp hx]
  · rw [hsplit]
    refine atEach_snoc.mpr ⟨horder, fun g hg => ?_⟩
    obtain ⟨-, rfl⟩ := Call.on.inj hg
    exact ⟨⟨.on .health h, a⟩, by simp, rfl, ha⟩

theorem putBack_returning (pool : Callables) (blamed : List String)
    (hr : Returning s before t calls) (hfresh : h ∉ before) :
    ∃ calls, Returning s (before ++ [h]) (putBack pool blamed t h) calls := by
  unfold putBack attempt ask
  split_ifs with hb
  · exact ⟨calls, hr.history, hr.once, by simpa using hr.asked_more (List.forall_mem_nil _),
      hr.order⟩
  · dsimp only
    split_ifs with hhealth hundrain
    · exact ⟨_, hr.check hfresh (by simp [State.emit, State.record, hr.history]; rfl)⟩
    all_goals
      have ha : (pool.reply t.history (.on .health h)).ok = true := by simpa using hhealth
      exact ⟨_, hr.undrain hfresh ha (by simp [State.emit, State.record, hr.history]; rfl)⟩

end Returning

/-- `bail` checks a member and then, if the check passed, returns it; it asks nothing twice. -/
theorem bail_calls (pool : Callables) (b : Stop) {s : State} (hnodup : s.drained.Nodup) :
    ∃ calls, PutBack b s (bail pool b s) calls ∧ CalledOnce calls ∧
      AtEach (fun past x => ∀ h, x.call = .on .undrain h → ∃ y ∈ past, y.Passed .health h)
        calls := by
  have hloop := foldl_rule (f := putBack pool b.blamed)
    (I := fun before after t => s.drained = before ++ after ∧ ∃ calls, Returning s before t calls)
    (fun before h after t ⟨hsplit, calls, hr⟩ => ?_) s.drained [] s
    ⟨rfl, [], by simp, List.nodup_nil, by simp, by simp [AtEach]⟩
  · obtain ⟨-, calls, hr⟩ := hloop
    obtain ⟨calls', hback⟩ := bail_putBack pool b s
    obtain rfl := List.append_cancel_left (hr.history.symm.trans hback.history)
    exact ⟨calls, hback, hr.once, hr.order⟩
  · refine ⟨by simpa using hsplit, putBack_returning pool b.blamed hr ?_⟩
    rw [hsplit] at hnodup
    exact fun hh => (List.nodup_append.mp hnodup).2.2 h hh h (List.mem_cons_self ..) rfl

/-! ### One group -/

/-- Between groups: nothing has gone wrong, and the groups to come have not been returned. -/
structure RotationInvariant (groups : List (List String)) (s : State) : Prop where
  returns : AtEach ReturnsHeldOut s.history
  standing : Standing s.history
  fresh : ∀ h ∈ groups.flatten, ¬Returned s.history h
  roster : groups.flatten.Nodup

/-- Inside a group, from its drains to its undrains. -/
structure GroupHeldOut (group : List String) (groups : List (List String)) (s : State) : Prop where
  between : RotationInvariant (group :: groups) s
  drained : s.drained = group
  out : ∀ h ∈ group, HeldOut s.history h

/-- What a phase that stopped leaves to `bail`: a member is held out, or the group has returned
it and the stop is a failed undrain. -/
structure RotationHalt (b : Stop) (s : State) (past : History) (x : Exchange) : Prop where
  history : s.history = past ++ [x]
  halts : x.Halts
  returns : AtEach ReturnsHeldOut s.history
  standing : Standing past
  roster : s.drained.Nodup
  members : ∀ h ∈ s.drained, h ∉ b.blamed →
    (HeldOut s.history h ∧ ¬Returned past h) ∨
    (¬HeldOut s.history h ∧ Returned past h ∧ ∃ g, x.call = .on .undrain g)

section Group

variable {group hosts before : List String} {groups : List (List String)} {s t : State}
  {calls past : History} {x : Exchange} {p : Phase} {b : Stop} {host : String}

theorem RotationInvariant.group_nodup (h : RotationInvariant (group :: groups) s) :
    group.Nodup ∧ ∀ g ∈ group, g ∉ groups.flatten := by
  have hnodup := List.nodup_append.mp (by simpa using h.roster)
  exact ⟨hnodup.1, fun g hg hg' => hnodup.2.2 g hg g hg' rfl⟩

/-- A phase that undrains nobody keeps the invariant. -/
theorem RotationInvariant.aside (h : RotationInvariant groups s) (hp : p ≠ .undrain)
    (hrun : PhaseRun p hosts s t calls) : RotationInvariant groups t := by
  have haside := hrun.only.aside hp
  refine ⟨?_, ?_, fun g hg hret => ?_, h.roster⟩
  · rw [hrun.history]
    exact returnsHeldOut_aside h.returns haside
  · rw [hrun.history]
    exact h.standing.append fun y hy => hrun.only.not_halts hy
  · rw [hrun.history] at hret
    rcases returned_append.mp hret with hret | ⟨y, hy, hpass⟩
    · exact h.fresh g hg hret
    · exact haside y hy g hpass.1

theorem GroupHeldOut.run (h : GroupHeldOut group groups s) (hp : p ≠ .drain ∧ p ≠ .undrain)
    (hrun : PhaseRun p hosts s t calls) : GroupHeldOut group groups t := by
  refine ⟨h.between.aside hp.2 hrun, ?_, fun g hg => ?_⟩
  · rw [hrun.drained, if_neg hp.1, h.drained]
  · rw [hrun.history]
    exact (heldOut_append (hrun.only.not_rotates (.inl hp))).mpr (h.out g hg)

/-- A phase other than the undrains that stops leaves all it has drained held out. -/
theorem RotationInvariant.stop (h : RotationInvariant groups s) (hp : p ≠ .undrain)
    (hstop : PhaseStop p hosts s b t before host calls x) (hroster : t.drained.Nodup)
    (hout : ∀ g ∈ t.drained, HeldOut t.history g ∧ g ∈ groups.flatten) :
    RotationHalt b t (s.history ++ calls) x := by
  have hrun := hstop.run
  have haside : ∀ y ∈ calls ++ [x], ∀ g, y.call ≠ .on .undrain g := by
    intro y hy g hc
    rcases List.mem_append.mp hy with hy | hy
    · exact hrun.only.aside hp y hy g hc
    · rw [List.mem_singleton.mp hy] at hc
      rcases hstop.cause with ⟨hc', -⟩ | ⟨hc', -⟩ <;> rw [hc'] at hc
      · simp at hc
      · exact hp (Call.on.inj hc).1
  refine ⟨hstop.history, hstop.halts, ?_, ?_, hroster, fun g hg _ => .inl ⟨(hout g hg).1, ?_⟩⟩
  · rw [hstop.history, List.append_assoc]
    exact returnsHeldOut_aside h.returns haside
  · exact h.standing.append fun y hy => hrun.only.not_halts hy
  · intro hret
    rcases returned_append.mp hret with hret | ⟨y, hy, hpass⟩
    · exact h.fresh g (hout g hg).2 hret
    · exact haside y (by simp [hy]) g hpass.1

theorem RotationInvariant.drain_stop (h : RotationInvariant (group :: groups) s)
    (hstop : PhaseStop .drain group s b t before host calls x)
    (hcalls : (calls ++ [x]).map Exchange.call <+: group.map (.on .drain)) (hs : s.drained = []) :
    RotationHalt b t (s.history ++ calls) x := by
  obtain ⟨hnodup, -⟩ := h.group_nodup
  have hdrained : t.drained = before := by simpa [hs] using hstop.run.drained
  obtain ⟨after, hsplit⟩ := hstop.split
  have honce : CalledOnce (calls ++ [x]) :=
    hcalls.sublist.nodup (hnodup.map fun _ _ heq => (Call.on.inj heq).2)
  have honce' : CalledOnce calls := (List.nodup_append.mp (by simpa [CalledOnce] using honce)).1
  refine h.stop (by decide) hstop (hdrained ▸ (List.nodup_append.mp (hsplit ▸ hnodup)).1) ?_
  intro g hg
  rw [hdrained] at hg
  obtain ⟨y, hy, hpass⟩ := hstop.run.passed g hg
  refine ⟨?_, by simp [hsplit, hg]⟩
  rw [hstop.history]
  refine (heldOut_append fun z hz => ?_).mpr (hstop.run.only.heldOut honce' ⟨y, hy, hpass⟩)
  rw [List.mem_singleton.mp hz]
  rintro (hc | hc)
  · exact honce.before hy (hpass.1.trans hc.symm)
  · obtain ⟨g', -, hg'⟩ := List.mem_map.mp
      (hcalls.subset (List.mem_map_of_mem (List.mem_append_right _ (List.mem_singleton_self x))))
    simp [hc] at hg'

theorem GroupHeldOut.returns_undrains (h : GroupHeldOut group groups s) (hnodup : group.Nodup)
    (hcalls : calls.map Exchange.call <+: group.map (.on .undrain)) :
    AtEach ReturnsHeldOut (s.history ++ calls) := by
  refine returnsHeldOut_append h.between.returns ?_ fun y hy => ?_
  · exact hcalls.sublist.nodup (hnodup.map fun _ _ heq => (Call.on.inj heq).2)
  · obtain ⟨g, hg, heq⟩ := List.mem_map.mp (hcalls.subset (List.mem_map_of_mem hy))
    exact ⟨g, heq.symm, h.out g hg⟩

/-- The undrains, each of a host that is held out. -/
theorem GroupHeldOut.undrained (h : GroupHeldOut group groups s)
    (hrun : PhaseRun .undrain group s t calls)
    (hcalls : calls.map Exchange.call <+: group.map (.on .undrain)) :
    RotationInvariant groups t := by
  obtain ⟨hnodup, hapart⟩ := h.between.group_nodup
  refine ⟨?_, ?_, fun g hg hret => ?_, ?_⟩
  · rw [hrun.history]
    exact h.returns_undrains hnodup hcalls
  · rw [hrun.history]
    exact h.between.standing.append fun y hy => hrun.only.not_halts hy
  · rw [hrun.history] at hret
    rcases returned_append.mp hret with hret | hret
    · exact h.between.fresh g (by simp at hg ⊢; exact .inr hg) hret
    · exact hapart g (hrun.only.returned hret).2 hg
  · exact (List.nodup_append.mp (by simpa using h.between.roster)).2.1

theorem GroupHeldOut.stop (h : GroupHeldOut group groups s)
    (hstop : PhaseStop .undrain group s b t before host calls x)
    (hcalls : (calls ++ [x]).map Exchange.call <+: group.map (.on .undrain)) :
    RotationHalt b t (s.history ++ calls) x := by
  obtain ⟨hnodup, -⟩ := h.between.group_nodup
  have hrun := hstop.run
  have hdrained : t.drained = group := by
    have := hrun.drained
    simpa [h.drained] using this
  have hx : x.call = .on .undrain host ∧ b.blamed = [host] := by
    obtain ⟨g, -, hg⟩ := List.mem_map.mp
      (hcalls.subset (List.mem_map_of_mem (List.mem_append_right _ (List.mem_singleton_self x))))
    rcases hstop.cause with ⟨hc, -⟩ | ⟨hc, detail, rfl⟩
    · simp [hc] at hg
    · exact ⟨hc, rfl⟩
  refine ⟨hstop.history, hstop.halts, ?_, ?_, hdrained ▸ hnodup, fun g hg hblamed => ?_⟩
  · rw [hstop.history, List.append_assoc]
    exact h.returns_undrains hnodup hcalls
  · exact h.between.standing.append fun y hy => hrun.only.not_halts hy
  rw [hdrained] at hg
  have hne : g ≠ host := by simpa [hx.2] using hblamed
  have hlast : ¬x.Rotates g := by simp [Exchange.Rotates, hx.1, hne.symm]
  rw [hstop.history]
  by_cases hbefore : g ∈ before
  · obtain ⟨y, hy, hpass⟩ := hrun.passed g hbefore
    refine .inr ⟨fun hout => ?_, ⟨y, List.mem_append_right _ hy, hpass⟩, host, hx.1⟩
    have hsome : HeldOut (s.history ++ calls) g :=
      (heldOut_append (by simpa using hlast)).mp hout
    refine (hsome.of_append fun z hz hc => ?_).2 y hy hpass.rotates_undrain
    simpa using (hrun.only.call_eq hz hc).1
  · have hquiet := hrun.only.not_rotates (.inr hbefore)
    refine .inl ⟨?_, fun hret => ?_⟩
    · rw [heldOut_append (by simpa using hlast), heldOut_append hquiet]
      exact h.out g hg
    · rcases returned_append.mp hret with hret | ⟨y, hy, hpass⟩
      · exact h.between.fresh g (by simp [hg]) hret
      · exact hquiet y hy hpass.rotates_undrain

theorem RotationInvariant.drains {pool : Callables} (h : RotationInvariant (group :: groups) s)
    (hdrained : s.drained = []) : Ends (GroupHeldOut group groups)
      (fun e => ∃ past x, RotationHalt e.1 e.2 past x) (runPhase pool .drain group s) := by
  obtain ⟨hnodup, -⟩ := h.group_nodup
  refine ((runPhase_ends pool .drain group _).and
    (runPhase_calls pool (by decide) group _)).mono ?_ ?_
  · rintro t ⟨⟨calls, hrun⟩, calls', hhist, hcalls⟩
    obtain rfl := List.append_cancel_left (hrun.history.symm.trans hhist)
    have honce : CalledOnce calls :=
      hcalls.sublist.nodup (hnodup.map fun _ _ heq => (Call.on.inj heq).2)
    refine ⟨h.aside (by decide) hrun, by simpa [hdrained] using hrun.drained, fun g hg => ?_⟩
    rw [hrun.history]
    exact hrun.only.heldOut honce (hrun.passed g hg)
  · rintro ⟨b, t⟩ ⟨⟨before, host, calls, x, hstop⟩, calls', hhist, hcalls⟩
    rw [hstop.history, List.append_assoc] at hhist
    obtain rfl := List.append_cancel_left hhist
    exact ⟨_, x, h.drain_stop hstop hcalls hdrained⟩

/-- A phase between the drains and the undrains. -/
theorem GroupHeldOut.phase {pool : Callables} {p : Phase} (hp : p ≠ .drain ∧ p ≠ .undrain)
    (ht : GroupHeldOut group groups t) : Ends (GroupHeldOut group groups)
      (fun e => ∃ past x, RotationHalt e.1 e.2 past x) (runPhase pool p t.drained t) := by
  obtain ⟨hnodup, -⟩ := ht.between.group_nodup
  refine (runPhase_ends pool p t.drained t).mono (fun u ⟨_, hu⟩ => ht.run hp hu) ?_
  rintro ⟨b, u⟩ ⟨before, host, calls, x, hstop⟩
  have hu : u.drained = group := by
    have := hstop.run.drained
    rwa [if_neg hp.1, ht.drained] at this
  have hin : ∀ {g}, g ∈ group → g ∈ (group :: groups).flatten := fun hg => by simp [hg]
  refine ⟨_, x, ht.between.stop hp.2 hstop (hu ▸ hnodup) fun g hg => ⟨?_, hin (hu ▸ hg)⟩⟩
  rw [hstop.history]
  refine (heldOut_append ?_).mpr ((heldOut_append (hstop.run.only.not_rotates (.inl hp))).mpr
    (ht.out g (hu ▸ hg)))
  intro y hy hrot
  rw [List.mem_singleton.mp hy] at hrot
  rcases hstop.cause with ⟨hc, -⟩ | ⟨hc, -⟩ <;> rcases hrot with hrot | hrot <;> rw [hc] at hrot
  · simp at hrot
  · simp at hrot
  · exact hp.1 (Call.on.inj hrot).1
  · exact hp.2 (Call.on.inj hrot).1

theorem GroupHeldOut.undrains {pool : Callables} (h : GroupHeldOut group groups s) :
    Ends (RotationInvariant groups) (fun e => ∃ past x, RotationHalt e.1 e.2 past x)
      (runPhase pool .undrain group s) := by
  refine ((runPhase_ends pool .undrain group s).and
    (runPhase_calls pool (by decide) group s)).mono ?_ ?_
  · rintro t ⟨⟨calls, hrun⟩, calls', hhist, hcalls⟩
    obtain rfl := List.append_cancel_left (hrun.history.symm.trans hhist)
    exact h.undrained hrun hcalls
  · rintro ⟨b, t⟩ ⟨⟨before, host, calls, x, hstop⟩, calls', hhist, hcalls⟩
    rw [hstop.history, List.append_assoc] at hhist
    obtain rfl := List.append_cancel_left hhist
    exact ⟨_, x, h.stop hstop hcalls⟩

theorem rollGroup_rotation {pool : Callables} (h : RotationInvariant (group :: groups) s) :
    Ends (RotationInvariant groups) (fun e => ∃ past x, RotationHalt e.1 e.2 past x)
      (rollGroup pool group s) := by
  have h0 : RotationInvariant (group :: groups) { s with drained := [] } :=
    ⟨h.returns, h.standing, h.fresh, h.roster⟩
  unfold rollGroup
  refine (h0.drains rfl).bind fun s1 h1 => ?_
  refine (h1.phase (by decide)).bind fun s2 h2 => ?_
  refine Ends.bind (Q := GroupHeldOut group groups) ?_ fun s3 h3 => ?_
  · unfold settlePhase
    split_ifs
    · exact h2.phase (by decide)
    · exact h2
  refine (h3.phase (by decide)).bind fun s4 h4 => ?_
  rw [h4.drained]
  exact h4.undrains

/-- A check of a member that `bail` makes is followed by its undrain, so the member was held out. -/
theorem RotationHalt.not_returned (h : RotationHalt b s past x) (hback : PutBack b s t calls)
    (hret : AtEach (fun more u => ReturnsHeldOut (s.history ++ more) u) calls) (hy : y ∈ calls)
    (hpass : y.Passed .health g) : ¬Returned past g := by
  intro hreturned
  obtain ⟨-, hmem, hblamed⟩ := hback.call_eq hy hpass.1
  obtain ⟨u, hu, hcall⟩ := (hback.returned g).mp ⟨y, hy, hpass⟩
  obtain ⟨a, c, rfl⟩ := List.append_of_mem hu
  have hout := hret a u c rfl g hcall
  have hnot := ((h.members g hmem hblamed).resolve_left fun hl => hl.2 hreturned).1
  refine hnot (hout.of_append fun z hz hc => ?_).1
  simpa using (hback.call_eq (x := z) (by simp [hz]) hc).1

/-- A halted group after `bail`: a host is put back twice exactly if the group had returned it
and it passes its check. -/
theorem bail_rotation (pool : Callables) (h : RotationHalt b s past x) :
    AtEach ReturnsHeldOut (bail pool b s).history ↔
      NoReturnedHostPasses (bail pool b s).history := by
  obtain ⟨calls, hback, honce, horder⟩ := bail_calls pool b h.roster
  have hnodrain : ∀ y ∈ calls, ∀ g, y.call ≠ .on .drain g := fun y hy g hc => by
    simpa using (hback.call_eq hy hc).1
  rw [hback.history, atEach_append, and_iff_right h.returns]
  constructor
  · rintro hret past' x' rest g hsplit hhalt ⟨g', hundrain⟩ hreturned y hy hpass
    have hheld : ∀ y ∈ calls, y.Passed .health g → ¬Returned past g :=
      fun y => h.not_returned hback hret
    rw [h.history, List.append_assoc, List.singleton_append] at hsplit
    rcases List.append_eq_append_iff.mp hsplit with ⟨a, rfl, ha⟩ | ⟨a, rfl, ha⟩
    · cases a with
      | nil =>
        obtain ⟨rfl, rfl⟩ := List.cons.inj ha
        exact hheld y hy hpass (by simpa using hreturned)
      | cons w a =>
        obtain ⟨rfl, rfl⟩ := List.cons.inj ha
        rcases returned_append.mp hreturned with hreturned | ⟨z, hz, hz'⟩
        · exact hheld y (by simp [hy]) hpass hreturned
        rcases List.mem_cons.mp hz with rfl | hz
        · have := h.halts
          simp [Exchange.Halts, hz'.1, hz'.2] at this
        · obtain ⟨a1, a2, rfl⟩ := List.append_of_mem hz
          obtain ⟨r1, r2, rfl⟩ := List.append_of_mem hy
          obtain ⟨v, hv, hv'⟩ := horder a1 z (a2 ++ x' :: (r1 ++ y :: r2)) (by simp) g hz'.1
          have honce' : CalledOnce ((a1 ++ z :: a2 ++ x' :: r1) ++ y :: r2) := by simpa using honce
          exact honce'.before (y := v) (by simp [hv]) (hv'.1.trans hpass.1.symm)
    · cases a with
      | nil =>
        obtain ⟨rfl, rfl⟩ := List.cons.inj ha
        exact hheld y hy hpass (by simpa using hreturned)
      | cons w a =>
        obtain ⟨rfl, -⟩ := List.cons.inj ha
        exact h.standing x' (by simp) hhalt g' hundrain
  · rintro hnone a u c rfl g hu
    obtain ⟨-, hmem, hblamed⟩ := hback.call_eq (x := u) (by simp) hu
    rcases h.members g hmem hblamed with ⟨hout, -⟩ | ⟨-, hreturned, hundrain⟩
    · refine (heldOut_append fun z hz => ?_).mpr hout
      rintro (hc | hc)
      · exact hnodrain z (by simp [hz]) g hc
      · exact honce.before hz (hc.trans hu.symm)
    · obtain ⟨y, hy, hpass⟩ := (hback.returned g).mpr ⟨u, by simp, hu⟩
      exact absurd hpass (hnone past x _ g (by rw [h.history]; simp) h.halts hundrain hreturned y hy)

end Group

/-! ### Whole runs -/

theorem Asked.rotation {members : List String} {states : List (String × Bool)} {s : State}
    (hs : Asked members states s) {groups : List (List String)} (hnodup : groups.flatten.Nodup) :
    RotationInvariant groups s := by
  have haside : ∀ x ∈ s.history, ∀ g, x.call ≠ .on .undrain g := by
    intro x hx g hc
    obtain ⟨h, hh⟩ := hs.only x hx
    simp [hh] at hc
  refine ⟨fun a y b hab h hy => ?_, fun x hx _ => haside x hx, fun h _ ⟨x, hx, hp⟩ => ?_, hnodup⟩
  · exact absurd hy (haside y (by simp [hab]) h)
  · exact haside x hx h hp.1

theorem RotationInvariant.poll {groups : List (List String)} {s : State}
    (h : RotationInvariant groups s) (a : Answer) :
    RotationInvariant groups (s.record .cancelled a) := by
  refine ⟨returnsHeldOut_aside h.returns (by simp), fun x hx => ?_, fun g hg hret => ?_, h.roster⟩
  · rcases List.mem_append.mp hx with hx | hx
    · exact h.standing x hx
    · simp [List.mem_singleton.mp hx]
  · rcases returned_append.mp hret with hret | ⟨x, hx, hp⟩
    · exact h.fresh g hg hret
    · simp [List.mem_singleton.mp hx, Exchange.Passed] at hp

/-- Exactly when a run puts a host back only while it holds it out. -/
theorem held_out_before_return_iff (pool : Callables) {cfg : Settings}
    (hnodup : cfg.members.Nodup) :
    OnlyHeldOutReturn (roll pool cfg).final.history ↔
      NoReturnedHostPasses (roll pool cfg).final.history := by
  refine roll_rule (B := RotationInvariant)
    (Q := fun s => AtEach ReturnsHeldOut s.history ↔ NoReturnedHostPasses s.history)
    (fun states s host why hs => ?_) (fun states s hs => ?_) (fun groups s a hs _ => hs.poll a)
    (fun groups s a hs _ => ?_) (fun groups s hs => ?_) (fun s host why hs => hs)
    (fun group groups s hs _ => ?_)
  · have h : RotationInvariant [] s := hs.rotation List.nodup_nil
    exact iff_of_true h.returns (noReturnedHostPasses_of_standing h.standing)
  · have h : RotationInvariant (batches cfg.members cfg.maxUnavailable) s :=
      hs.rotation (by rwa [batches_flatten])
    exact ⟨h.returns, h.standing, h.fresh, h.roster⟩
  · have h := hs.poll a
    exact iff_of_true h.returns (noReturnedHostPasses_of_standing h.standing)
  · exact iff_of_true hs.returns (noReturnedHostPasses_of_standing hs.standing)
  · exact (rollGroup_rotation hs).mono (fun _ h => h) fun e ⟨_, _, h⟩ => bail_rotation pool h

theorem held_out_before_return_sample :
    OnlyHeldOutReturn (roll (allBut .undrain "b") ⟨["a", "b", "c"], 1, false, 1⟩).final.history ↔
      NoReturnedHostPasses
        (roll (allBut .undrain "b") ⟨["a", "b", "c"], 1, false, 1⟩).final.history :=
  held_out_before_return_iff _ (by decide)

/-- Two members are out together; the first is returned and the undrain of the second fails:
`bail` undrains the first once more, though it is in rotation. -/
theorem returned_twice : ¬OnlyHeldOutReturn
    (roll (allBut .undrain "b") ⟨["a", "b", "c"], 2, false, 1⟩).final.history := by
  have hrun : (roll (allBut .undrain "b") ⟨["a", "b", "c"], 2, false, 1⟩).final.history =
      (roll (allBut .undrain "b") ⟨["a", "b", "c"], 2, false, 1⟩).final.history.take 11 ++
        [⟨.on .undrain "a", .returned true ""⟩, ⟨.on .undrain "b", .returned false ""⟩,
          ⟨.on .health "a", .returned true ""⟩] ++ ⟨.on .undrain "a", .returned true ""⟩ :: [] := by
    decide
  intro hs
  have hout := hs _ _ _ hrun "a" rfl
  refine (hout.of_append ?_).2 ⟨.on .undrain "a", .returned true ""⟩ (by simp) (.inr rfl)
  simp

end Rolling
