import SysibleController.RollingRuns

/-! The books of a run without repeated members: who is out of rotation, who is done, and
what the floor of rule 1 is worth at each drain. -/
namespace Rolling

open EarlyExit PastTrace

/-- Every phase of the run has succeeded on `h`. -/
def Finished (pool : Callables) (past : History) (h : String) : Prop :=
  ∀ p, (p = .settle → pool.hasSettle = true) → ∃ x ∈ past, x.Passed p h

/-- What the floor promises of a member outside the group that is being drained. -/
def FloorHolds (cfg : Settings) (serves : History → String → Prop) (past : History)
    (x : Exchange) : Prop :=
  ∀ h, x.call = .on .drain h → ∀ group ∈ batches cfg.members cfg.maxUnavailable, h ∈ group →
    ∃ others : Finset String, cfg.minHealthy ≤ others.card ∧
      ∀ m ∈ others, m ∈ cfg.members ∧ m ∉ group ∧ ¬OutOf past m ∧ serves past m

structure Ledger (pool : Callables) (cfg : Settings) (s : State) : Prop where
  rotation : ∀ h, h ∈ s.leftDrained ↔ OutOf s.history h
  finished : ∀ h ∈ s.done, h ∉ s.leftDrained ∧ Finished pool s.history h
  doneNodup : s.done.Nodup
  known : ∀ h, h ∈ s.done ∨ h ∈ s.leftDrained → h ∈ cfg.members
  floor : AtEach (FloorHolds cfg AnsweredHealthy) s.history

/-- Between two groups everybody is in rotation. -/
structure Between (pool : Callables) (cfg : Settings) (groups : List (List String)) (s : State) :
    Prop where
  ledger : Ledger pool cfg s
  clean : Clean s.history
  left : s.leftDrained = ∅
  acted : ∀ h, Acted s.history h → h ∈ s.done
  counted : ∀ h ∈ s.healthyNow, h ∈ cfg.members ∧ AnsweredHealthy s.history h
  roster : s.done ++ groups.flatten = cfg.members
  rest : ∃ past, past ++ groups = batches cfg.members cfg.maxUnavailable

/-- The whole group is out, and has passed the phases `ps`. -/
structure InGroup (pool : Callables) (cfg : Settings) (group : List String)
    (groups : List (List String)) (ps : List Phase) (s : State) : Prop where
  ledger : Ledger pool cfg s
  clean : Clean s.history
  left : s.leftDrained = group.toFinset
  drained : s.drained = group
  acted : ∀ h, Acted s.history h → h ∈ s.done ∨ h ∈ group
  counted : ∀ h ∈ s.healthyNow, h ∈ cfg.members ∧ AnsweredHealthy s.history h
  passed : ∀ p ∈ ps, ∀ h ∈ group, ∃ x ∈ s.history, x.Passed p h
  answered : .health ∈ ps → ∀ h ∈ group, AnsweredHealthy s.history h
  roster : s.done ++ (group ++ groups.flatten) = cfg.members
  rest : ∃ past, past ++ group :: groups = batches cfg.members cfg.maxUnavailable

/-- A group that stopped, before `bail`. -/
structure Halted (pool : Callables) (cfg : Settings) (b : Stop) (s : State) : Prop where
  ledger : Ledger pool cfg s
  acted : ∀ h, Acted s.history h → h ∈ s.done ∨ h ∈ s.leftDrained
  halt : ∃ past x, s.history = past ++ [x] ∧ Clean past ∧ x.Halts ∧
    ∀ h ∈ s.drained, h ∉ b.blamed → ∀ q, x.call ≠ .on q h

variable {pool : Callables} {cfg : Settings} {group : List String}
  {groups : List (List String)} {ps : List Phase} {s t : State} {calls past : History}
  {p : Phase} {x : Exchange}

theorem Finished.append {h : String} (hf : Finished pool past h) (more : History) :
    Finished pool (past ++ more) h := fun p hp =>
  (hf p hp).imp fun _ h => ⟨List.mem_append_left _ h.1, h.2⟩

/-! ### The floor -/

/-- The members that rule 1 counts on, when it lets a group through. -/
theorem floor_of_check (hcheck : cfg.minHealthy ≤
      s.healthyNow.card - (group.filter (· ∈ s.healthyNow)).length) :
    cfg.minHealthy ≤ ((s.healthyNow.filter (· ∉ group)).card : ℤ) := by
  have hsplit := Finset.card_filter_add_card_filter_not (s := s.healthyNow) (· ∈ group)
  have htaking : (s.healthyNow.filter (· ∈ group)).card ≤
      (group.filter (· ∈ s.healthyNow)).length := by
    refine (Finset.card_le_card fun m hm => ?_).trans (List.toFinset_card_le _)
    have hm := Finset.mem_filter.mp hm
    simp [hm.1, hm.2]
  omega

theorem group_unique {g : List String} (hnodup : cfg.members.Nodup)
    (hgroup : group ∈ batches cfg.members cfg.maxUnavailable)
    (hg : g ∈ batches cfg.members cfg.maxUnavailable) {h : String} (h1 : h ∈ group) (h2 : h ∈ g) :
    g = group := by
  rw [← batches_flatten cfg.members cfg.maxUnavailable, List.nodup_flatten] at hnodup
  by_contra hne
  have hsymm : Std.Symm (List.Disjoint (α := String)) := ⟨fun _ _ hd => hd.symm⟩
  exact hnodup.2.forall hg hgroup hne h2 h1

/-- Draining one group takes nobody out of the count that rule 1 made. -/
theorem floor_drain (hnodup : cfg.members.Nodup)
    (hgroup : group ∈ batches cfg.members cfg.maxUnavailable)
    (hfloor : AtEach (FloorHolds cfg AnsweredHealthy) past) {others : Finset String}
    (hcard : cfg.minHealthy ≤ others.card)
    (hothers : ∀ m ∈ others, m ∈ cfg.members ∧ m ∉ group ∧ ¬OutOf past m ∧ AnsweredHealthy past m)
    (hcalls : ∀ y ∈ calls, y.call = .cancelled ∨ ∃ h ∈ group, y.call = .on .drain h) :
    AtEach (FloorHolds cfg AnsweredHealthy) (past ++ calls) := by
  refine atEach_append.mpr ⟨hfloor, fun a y b hab h hy g hg hh => ?_⟩
  have hmem : h ∈ group := by
    rcases hcalls y (by simp [hab]) with hc | ⟨h', hh', hc⟩ <;> rw [hy] at hc
    · simp at hc
    · exact (Call.on.inj hc).2 ▸ hh'
  obtain rfl := group_unique hnodup hgroup hg hmem hh
  refine ⟨others, hcard, fun m hm => ?_⟩
  obtain ⟨hmember, hout, hrot, hans⟩ := hothers m hm
  have hnot : ∀ z ∈ a, ∀ q, z.call ≠ .on q m := by
    intro z hz q hq
    rcases hcalls z (by simp [hab, hz]) with hc | ⟨h', hh', hc⟩ <;> rw [hq] at hc
    · simp at hc
    · exact hout ((Call.on.inj hc).2 ▸ hh')
  refine ⟨hmember, hout, ?_, ?_⟩
  · rwa [outOf_append_of_aside hnot]
  · exact since_append.mpr (.inr ⟨hans, fun z hz hc => absurd hc (hnot z hz _)⟩)

theorem floor_append {serves : History → String → Prop} (hfloor : AtEach (FloorHolds cfg serves) past)
    (hcalls : ∀ y ∈ calls, ∀ h, y.call ≠ .on .drain h) :
    AtEach (FloorHolds cfg serves) (past ++ calls) :=
  atEach_append.mpr ⟨hfloor, fun a y b hab h hy => absurd hy (hcalls y (by simp [hab]) h)⟩

/-! ### The three kinds of phases -/

theorem Between.not_outOf (h : Between pool cfg groups s) (g : String) : ¬OutOf s.history g :=
  fun hg => by simpa [h.left] using (h.ledger.rotation g).mpr hg

theorem Between.floor (h : Between pool cfg (group :: groups) s) (hnodup : cfg.members.Nodup)
    (hcheck : cfg.minHealthy ≤ s.healthyNow.card - (group.filter (· ∈ s.healthyNow)).length)
    (hcalls : ∀ y ∈ calls, y.call = .cancelled ∨ ∃ h ∈ group, y.call = .on .drain h) :
    AtEach (FloorHolds cfg AnsweredHealthy) (s.history ++ calls) := by
  obtain ⟨past, hrest⟩ := h.rest
  refine floor_drain hnodup (by simp [← hrest]) h.ledger.floor (floor_of_check hcheck) ?_ hcalls
  intro m hm
  obtain ⟨hm, hout⟩ := Finset.mem_filter.mp hm
  exact ⟨(h.counted m hm).1, hout, h.not_outOf m, (h.counted m hm).2⟩

/-- Draining moves the members of a group from the rotation to the books' left side. -/
theorem Between.drain (h : Between pool cfg (group :: groups) s) (hnodup : cfg.members.Nodup)
    (hcheck : cfg.minHealthy ≤ s.healthyNow.card - (group.filter (· ∈ s.healthyNow)).length)
    {hosts : List String} (hsub : ∀ g ∈ hosts, g ∈ group)
    (hrun : PhaseRun .drain hosts { s with drained := [] } t calls) :
    Ledger pool cfg t ∧ Clean t.history ∧ (∀ g, Acted t.history g → g ∈ t.done) ∧
      t.leftDrained = hosts.toFinset ∧ t.drained = hosts ∧ t.done = s.done := by
  have hhist : t.history = s.history ++ calls := hrun.history
  have hleft : t.leftDrained = hosts.toFinset := by
    rw [hrun.leftDrained]
    simp [leftAfter, h.left]
  have hdone : t.done = s.done := hrun.done
  have hgroup : ∀ g ∈ group, g ∈ cfg.members ∧ g ∉ s.done := by
    intro g hg
    have hroster := h.roster
    rw [List.flatten_cons] at hroster
    rw [← hroster, List.nodup_append] at hnodup
    exact ⟨by rw [← hroster]; simp [hg], fun hd => hnodup.2.2 g hd g (by simp [hg]) rfl⟩
  have hacted : ∀ g, Acted t.history g → g ∈ t.done := fun g hg => by
    rw [hdone]
    exact h.acted g ((hrun.only.acted (hhist ▸ hg)).resolve_right (by simp))
  refine ⟨⟨fun g => ?_, fun g hg => ?_, hdone ▸ h.ledger.doneNodup, fun g hg => ?_, ?_⟩, ?_, hacted,
    hleft, hrun.drained, hdone⟩
  · rw [hleft, hhist, List.mem_toFinset]
    by_cases hg : g ∈ hosts
    · exact iff_of_true hg (outOf_of_drained hrun.only (hrun.passed g hg))
    · refine iff_of_false hg fun ho => h.not_outOf g ((hrun.only.outOf_iff (.inr hg)).mp ho)
  · rw [hdone] at hg
    rw [hleft, hhist, List.mem_toFinset]
    exact ⟨fun hh => (hgroup g (hsub g hh)).2 hg, (h.ledger.finished g hg).2.append _⟩
  · rw [hdone, hleft, List.mem_toFinset] at hg
    exact hg.elim (fun hg => h.ledger.known g (.inl hg)) fun hg => (hgroup g (hsub g hg)).1
  · rw [hhist]
    refine h.floor hnodup hcheck fun y hy => (hrun.only y hy).imp And.left fun hon => ?_
    obtain ⟨g, hg, hp⟩ := hon
    exact ⟨g, hsub g hg, hp.1⟩
  · rw [hhist]
    exact h.clean.append fun x hx => hrun.only.not_halts hx

theorem InGroup.fresh (h : InGroup pool cfg group groups ps s) (hnodup : cfg.members.Nodup) :
    group.Nodup ∧ ∀ g ∈ group, g ∈ cfg.members ∧ g ∉ s.done := by
  have hroster := h.roster
  rw [← hroster, List.nodup_append, List.nodup_append] at hnodup
  refine ⟨hnodup.2.1.1, fun g hg => ⟨?_, fun hd => hnodup.2.2 g hd g (by simp [hg]) rfl⟩⟩
  rw [← hroster]
  simp [hg]

theorem InGroup.outOf_iff (h : InGroup pool cfg group groups ps s) (g : String) :
    OutOf s.history g ↔ g ∈ group := by
  rw [← h.ledger.rotation, h.left, List.mem_toFinset]

/-- Action, settling and check leave the books alone. -/
theorem InGroup.run (h : InGroup pool cfg group groups ps s)
    (hp : p ≠ .drain ∧ p ≠ .undrain) {hosts : List String} (hsub : ∀ g ∈ hosts, g ∈ group)
    (hrun : PhaseRun p hosts s t calls) :
    Ledger pool cfg t ∧ Clean t.history ∧ (∀ g, Acted t.history g → g ∈ t.done ∨ g ∈ group) ∧
      t.leftDrained = group.toFinset ∧ t.drained = group ∧ t.done = s.done ∧
      t.healthyNow = s.healthyNow := by
  have hleft : t.leftDrained = s.leftDrained := by
    rw [hrun.leftDrained]
    cases p <;> simp [leftAfter] at hp ⊢
  have hhealthy : t.healthyNow = s.healthyNow := by
    rw [hrun.healthyNow]
    cases p <;> simp [healthyAfter] at hp ⊢
  have hdone : t.done = s.done := hrun.done.trans (if_neg hp.2)
  have hdrained : t.drained = group := (hrun.drained.trans (if_neg hp.1)).trans h.drained
  refine ⟨⟨fun g => ?_, fun g hg => ?_, hdone ▸ h.ledger.doneNodup, ?_, ?_⟩, ?_, fun g hg => ?_,
    hleft.trans h.left, hdrained, hdone, hhealthy⟩
  · rw [hleft, hrun.history, hrun.only.outOf_iff (.inl hp)]
    exact h.ledger.rotation g
  · rw [hdone] at hg
    rw [hleft, hrun.history]
    exact ⟨(h.ledger.finished g hg).1, (h.ledger.finished g hg).2.append _⟩
  · rw [hdone, hleft]
    exact h.ledger.known
  · rw [hrun.history]
    exact floor_append h.ledger.floor fun y hy g hc => hp.1 (hrun.only.call_eq hy hc).1.symm
  · rw [hrun.history]
    exact h.clean.append fun x hx => hrun.only.not_halts hx
  · rw [hdone]
    rcases hrun.only.acted (hrun.history ▸ hg) with hg | ⟨-, hg⟩
    · exact h.acted g hg
    · exact .inr (hsub g hg)

/-- Undraining a part `hosts` of the group moves it over to the members done. -/
theorem InGroup.undrain (h : InGroup pool cfg group groups ps s) (hnodup : cfg.members.Nodup)
    (hall : ∀ p, p ≠ .undrain → (p = .settle → pool.hasSettle = true) → p ∈ ps)
    {hosts after : List String} (hsplit : group = hosts ++ after)
    (hrun : PhaseRun .undrain hosts s t calls) :
    Ledger pool cfg t ∧ Clean t.history ∧
      (∀ g, Acted t.history g → g ∈ t.done ∨ g ∈ t.leftDrained) ∧
      (∀ g, g ∈ t.leftDrained ↔ g ∈ group ∧ g ∉ hosts) ∧ t.drained = group ∧
      t.done = s.done ++ hosts := by
  obtain ⟨hgroup, hfresh⟩ := h.fresh hnodup
  have hsub : ∀ g ∈ hosts, g ∈ group := fun g hg => by simp [hsplit, hg]
  have hleft : ∀ g, g ∈ t.leftDrained ↔ g ∈ group ∧ g ∉ hosts := by
    intro g
    rw [hrun.leftDrained, leftAfter, h.left, Finset.mem_sdiff, List.mem_toFinset, List.mem_toFinset]
  have hdone : t.done = s.done ++ hosts := hrun.done
  refine ⟨⟨fun g => ?_, fun g hg => ?_, ?_, fun g hg => ?_, ?_⟩, ?_, fun g hg => ?_, hleft,
    hrun.drained.trans h.drained, hdone⟩
  · rw [hleft, hrun.history]
    by_cases hg : g ∈ hosts
    · exact iff_of_false (fun hc => hc.2 hg) (not_outOf_of_undrained hrun.only (hrun.passed g hg))
    · rw [hrun.only.outOf_iff (.inr hg), h.outOf_iff]
      exact and_iff_left hg
  · rw [hleft, hrun.history]
    rcases List.mem_append.mp (hdone ▸ hg) with hg | hg
    · exact ⟨fun hc => (hfresh g hc.1).2 hg, (h.ledger.finished g hg).2.append _⟩
    · refine ⟨fun hc => hc.2 hg, fun p hp => ?_⟩
      by_cases hu : p = .undrain
      · obtain ⟨x, hx, hpass⟩ := hrun.passed g hg
        exact ⟨x, List.mem_append_right _ hx, hu ▸ hpass⟩
      · obtain ⟨x, hx, hpass⟩ := h.passed p (hall p hu hp) g (hsub g hg)
        exact ⟨x, List.mem_append_left _ hx, hpass⟩
  · rw [hdone, List.nodup_append]
    refine ⟨h.ledger.doneNodup, (hsplit ▸ hgroup).of_append_left, fun g hg g' hg' hne => ?_⟩
    exact (hfresh g' (hsub g' hg')).2 (hne ▸ hg)
  · rw [hdone, List.mem_append, hleft] at hg
    rcases hg with (hg | hg) | hg
    · exact h.ledger.known g (.inl hg)
    · exact (hfresh g (hsub g hg)).1
    · exact (hfresh g hg.1).1
  · rw [hrun.history]
    exact floor_append h.ledger.floor fun y hy g hc => by simpa using (hrun.only.call_eq hy hc).1
  · rw [hrun.history]
    exact h.clean.append fun x hx => hrun.only.not_halts hx
  · rw [hdone, List.mem_append, hleft]
    have := h.acted g ((hrun.only.acted (hrun.history ▸ hg)).resolve_right (by simp))
    tauto

/-! ### A whole group -/

/-- The exchange that stops a phase changes no books. -/
theorem halted_of_stop {b : Stop} {hosts before : List String} {host : String}
    (hledger : Ledger pool cfg { t with history := s.history ++ calls })
    (hclean : Clean (s.history ++ calls))
    (hacted : ∀ g, Acted (s.history ++ calls) g → g ∈ t.done ∨ g ∈ t.leftDrained)
    (hstop : PhaseStop p hosts s b t before host calls x)
    (hfloor : AtEach (FloorHolds cfg AnsweredHealthy) t.history)
    (hhost : p = .act → host ∈ t.leftDrained)
    (haside : p = .drain → host ∉ t.drained) : Halted pool cfg b t := by
  refine ⟨⟨fun g => ?_, fun g hg => ?_, hledger.doneNodup, hledger.known, hfloor⟩, fun g hg => ?_,
    _, x, hstop.history, hclean, hstop.halts, fun g hg hb q hq => ?_⟩
  · rw [hstop.history, outOf_halt hstop.halts]
    exact hledger.rotation g
  · obtain ⟨hleft, hfinished⟩ := hledger.finished g hg
    rw [hstop.history]
    exact ⟨hleft, hfinished.append _⟩
  · rw [hstop.history] at hg
    rcases acted_append.mp hg with hg | ⟨y, hy, hc⟩
    · exact hacted g hg
    · rw [List.mem_singleton.mp hy] at hc
      rcases hstop.cause with ⟨hx, -⟩ | ⟨hx, -⟩ <;> rw [hc] at hx
      · simp at hx
      · obtain ⟨hact, rfl⟩ := Call.on.inj hx
        exact .inr (hhost hact.symm)
  · rcases hstop.cause with ⟨hx, -⟩ | ⟨hx, detail, rfl⟩ <;> rw [hq] at hx
    · simp at hx
    · obtain ⟨rfl, rfl⟩ := Call.on.inj hx
      cases q with
      | drain => exact haside rfl hg
      | act | settle | health | undrain => simp [failure] at hb

theorem Between.drained (h : Between pool cfg (group :: groups) s) (hnodup : cfg.members.Nodup)
    (hcheck : cfg.minHealthy ≤ s.healthyNow.card - (group.filter (· ∈ s.healthyNow)).length)
    (hrun : PhaseRun .drain group { s with drained := [] } t calls) :
    InGroup pool cfg group groups [.drain] t := by
  obtain ⟨hledger, hclean, hacted, hleft, hdrained, hdone⟩ :=
    h.drain hnodup hcheck (fun _ hg => hg) hrun
  have hhist : t.history = s.history ++ calls := hrun.history
  refine ⟨hledger, hclean, hleft, hdrained, fun g hg => .inl (hacted g hg), fun g hg => ?_, ?_,
    by simp, by rw [hdone, ← List.flatten_cons, h.roster], h.rest⟩
  · rw [hrun.healthyNow, healthyAfter, Finset.mem_sdiff] at hg
    rw [hhist]
    exact (h.counted g hg.1).imp_right fun ha => hrun.only.answeredHealthy (.inl ha)
  · simp only [List.mem_singleton, forall_eq, hhist]
    intro g hg
    obtain ⟨x, hx, hp⟩ := hrun.passed g hg
    exact ⟨x, List.mem_append_right _ hx, hp⟩

theorem InGroup.next (h : InGroup pool cfg group groups ps s) (hp : p ≠ .drain ∧ p ≠ .undrain)
    (hrun : PhaseRun p group s t calls) : InGroup pool cfg group groups (p :: ps) t := by
  obtain ⟨hledger, hclean, hacted, hleft, hdrained, hdone, hhealthy⟩ :=
    h.run hp (fun _ hg => hg) hrun
  refine ⟨hledger, hclean, hleft, hdrained, hacted, fun g hg => ?_, fun q hq g hg => ?_,
    fun hq g hg => ?_, by rw [hdone, h.roster], h.rest⟩ <;> rw [hrun.history]
  · exact (h.counted g (hhealthy ▸ hg)).imp_right fun ha => hrun.only.answeredHealthy (.inl ha)
  · rcases List.mem_cons.mp hq with rfl | hq
    · obtain ⟨x, hx, hpass⟩ := hrun.passed g hg
      exact ⟨x, List.mem_append_right _ hx, hpass⟩
    · obtain ⟨x, hx, hpass⟩ := h.passed q hq g hg
      exact ⟨x, List.mem_append_left _ hx, hpass⟩
  · rcases List.mem_cons.mp hq with rfl | hq
    · exact hrun.only.answeredHealthy (.inr (hrun.passed g hg))
    · exact hrun.only.answeredHealthy (.inl (h.answered hq g hg))

theorem InGroup.returned (h : InGroup pool cfg group groups ps s) (hnodup : cfg.members.Nodup)
    (hall : ∀ p, p ≠ .undrain → (p = .settle → pool.hasSettle = true) → p ∈ ps)
    (hrun : PhaseRun .undrain group s t calls) : Between pool cfg groups t := by
  obtain ⟨hledger, hclean, hacted, hleft, -, hdone⟩ :=
    h.undrain hnodup hall (List.append_nil group).symm hrun
  have hempty : t.leftDrained = ∅ := by
    ext g
    simp [hleft g]
  refine ⟨hledger, hclean, hempty, fun g hg => ?_, fun g hg => ?_, ?_, ?_⟩
  · simpa [hempty] using hacted g hg
  · rw [hrun.healthyNow, healthyAfter, Finset.mem_union, List.mem_toFinset] at hg
    rw [hrun.history]
    rcases hg with hg | hg
    · exact (h.counted g hg).imp_right fun ha => hrun.only.answeredHealthy (.inl ha)
    · exact ⟨((h.fresh hnodup).2 g hg).1, hrun.only.answeredHealthy
        (.inl (h.answered (hall _ (by simp) (by simp)) g hg))⟩
  · rw [hdone, List.append_assoc, h.roster]
  · exact h.rest.imp' (· ++ [group]) fun past hpast => by simpa using hpast

theorem Between.stopped (h : Between pool cfg (group :: groups) s) (hnodup : cfg.members.Nodup)
    (hcheck : cfg.minHealthy ≤ s.healthyNow.card - (group.filter (· ∈ s.healthyNow)).length)
    {b : Stop} {before : List String} {host : String}
    (hstop : PhaseStop .drain group { s with drained := [] } b t before host calls x) :
    Halted pool cfg b t := by
  obtain ⟨after, hsplit⟩ := hstop.split
  obtain ⟨hledger, hclean, hacted, -, hdrained, -⟩ :=
    h.drain hnodup hcheck (fun g hg => by simp [hsplit, hg]) hstop.run
  refine halted_of_stop hledger hclean (fun g hg => .inl (hacted g hg)) hstop ?_ (by simp)
    fun _ hhost => ?_
  · rw [hstop.history, List.append_assoc]
    refine h.floor hnodup hcheck fun y hy => ?_
    rcases List.mem_append.mp hy with hy | hy
    · exact (hstop.run.only y hy).imp And.left fun ⟨g, hg, hp⟩ => ⟨g, by simp [hsplit, hg], hp.1⟩
    · rw [List.mem_singleton.mp hy]
      exact hstop.cause.imp And.left fun hc => ⟨host, by simp [hsplit], hc.1⟩
  · have hdup : host ∈ before := hdrained ▸ hhost
    rw [← h.roster, List.flatten_cons, hsplit] at hnodup
    have hgroup := (List.nodup_append.mp (List.nodup_append.mp hnodup).2.1).1
    exact (List.nodup_append.mp hgroup).2.2 host hdup host (List.mem_cons_self ..) rfl

/-- The exchange that stops a later phase is no drain. -/
theorem floor_of_stop {b : Stop} {hosts before : List String} {host : String}
    (hp : p ≠ .drain) (hfloor : AtEach (FloorHolds cfg AnsweredHealthy) (s.history ++ calls))
    (hstop : PhaseStop p hosts s b t before host calls x) :
    AtEach (FloorHolds cfg AnsweredHealthy) t.history := by
  rw [hstop.history]
  refine floor_append hfloor fun y hy g hc => ?_
  rw [List.mem_singleton.mp hy] at hc
  rcases hstop.cause with ⟨hx, -⟩ | ⟨hx, -⟩ <;> rw [hc] at hx
  · simp at hx
  · exact hp (Call.on.inj hx).1.symm

theorem InGroup.stopped (h : InGroup pool cfg group groups ps s) (hp : p ≠ .drain ∧ p ≠ .undrain)
    {b : Stop} {before : List String} {host : String}
    (hstop : PhaseStop p group s b t before host calls x) : Halted pool cfg b t := by
  obtain ⟨after, hsplit⟩ := hstop.split
  obtain ⟨hledger, hclean, hacted, hleft, -⟩ :=
    h.run hp (fun g hg => by simp [hsplit, hg]) hstop.run
  have hleft' : ∀ g, g ∈ t.leftDrained ↔ g ∈ group := fun g => by
    rw [show t.leftDrained = _ from hleft, List.mem_toFinset]
  exact halted_of_stop hledger hclean (fun g hg => by simpa [hleft'] using hacted g hg) hstop
    (floor_of_stop hp.1 hledger.floor hstop) (fun _ => by simp [hleft', hsplit])
    fun hd => absurd hd hp.1

theorem InGroup.stopped_undrain (h : InGroup pool cfg group groups ps s)
    (hnodup : cfg.members.Nodup)
    (hall : ∀ p, p ≠ .undrain → (p = .settle → pool.hasSettle = true) → p ∈ ps)
    {b : Stop} {before : List String} {host : String}
    (hstop : PhaseStop .undrain group s b t before host calls x) : Halted pool cfg b t := by
  obtain ⟨after, hsplit⟩ := hstop.split
  obtain ⟨hledger, hclean, hacted, -⟩ := h.undrain hnodup hall hsplit hstop.run
  exact halted_of_stop hledger hclean hacted hstop
    (floor_of_stop (by simp) hledger.floor hstop) (by simp) (by simp)

theorem rollGroup_ledger (hnodup : cfg.members.Nodup) (hs : Between pool cfg (group :: groups) s)
    (hcheck : cfg.minHealthy ≤ s.healthyNow.card - (group.filter (· ∈ s.healthyNow)).length) :
    Ends (Between pool cfg groups) (fun e => Halted pool cfg e.1 e.2) (rollGroup pool group s) := by
  have hmid : ∀ {ps : List Phase} (p : Phase) (s : State), p ≠ .drain ∧ p ≠ .undrain →
      InGroup pool cfg group groups ps s →
      Ends (InGroup pool cfg group groups (p :: ps)) (fun e => Halted pool cfg e.1 e.2)
        (runPhase pool p s.drained s) := fun p s hp h => by
    rw [h.drained]
    exact (runPhase_ends pool p group s).mono (fun t ⟨_, hrun⟩ => h.next hp hrun)
      fun e ⟨_, _, _, _, hstop⟩ => h.stopped hp hstop
  have hlast : ∀ {ps : List Phase} (s : State),
      (∀ p, p ≠ .undrain → (p = .settle → pool.hasSettle = true) → p ∈ ps) →
      InGroup pool cfg group groups ps s →
      Ends (Between pool cfg groups) (fun e => Halted pool cfg e.1 e.2)
        (runPhase pool .undrain s.drained s) := fun s hall h => by
    rw [h.drained]
    exact (runPhase_ends pool .undrain group s).mono
      (fun t ⟨_, hrun⟩ => h.returned hnodup hall hrun)
      fun e ⟨_, _, _, _, hstop⟩ => h.stopped_undrain hnodup hall hstop
  unfold rollGroup
  refine Ends.bind (Q := InGroup pool cfg group groups [.drain])
    ((runPhase_ends pool .drain group { s with drained := [] }).mono
      (fun t ⟨_, hrun⟩ => hs.drained hnodup hcheck hrun)
      fun e ⟨_, _, _, _, hstop⟩ => hs.stopped hnodup hcheck hstop) fun s1 h1 => ?_
  refine (hmid .act s1 (by simp) h1).bind fun s2 h2 => ?_
  unfold settlePhase
  by_cases hsettle : pool.hasSettle = true
  · rw [if_pos hsettle]
    refine (hmid .settle s2 (by simp) h2).bind fun s3 h3 => ?_
    refine (hmid .health s3 (by simp) h3).bind fun s4 h4 => ?_
    exact hlast s4 (fun p => by cases p <;> simp) h4
  · rw [if_neg hsettle]
    refine (hmid .health s2 (by simp) h2).bind fun s4 h4 => ?_
    exact hlast s4 (fun p => by cases p <;> simp [hsettle]) h4

end Rolling
