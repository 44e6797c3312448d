import SysibleController.RollingResult

/-! Runs in which every callable succeeds: where the floor leaves room for a whole group, every
member goes through, and no more than a group is ever out of rotation. -/
namespace Rolling

open EarlyExit PastTrace

/-- Members are named once, and the pool can do without a whole group. -/
structure Feasible (cfg : Settings) : Prop where
  nodup : cfg.members.Nodup
  positive : 1 ≤ cfg.maxUnavailable
  keeps : 1 ≤ cfg.minHealthy
  floor : cfg.maxUnavailable ≤ cfg.members.length - cfg.minHealthy

/-- Every call is answered with success; no poll asks for a stop. -/
def AlwaysSucceeds (pool : Callables) : Prop :=
  (∀ past p h, (pool.reply past (.on p h)).ok = true) ∧
    ∀ past, (pool.reply past .cancelled).ok = false

/-- At no time more than `n` members are out of rotation. -/
def OutAtMost (n : ℤ) (calls : History) : Prop :=
  ∀ past, past <+: calls → ∀ out : Finset String, (∀ h ∈ out, OutOf past h) → (out.card : ℤ) ≤ n

/-- Between two groups of such a run. -/
structure Rolled (cfg : Settings) (groups : List (List String)) (s : State) : Prop where
  healthyNow : s.healthyNow = cfg.members.toFinset
  left : s.leftDrained = ∅
  roster : s.done ++ groups.flatten = cfg.members
  inRotation : ∀ h, ¬ OutOf s.history h
  bounded : OutAtMost cfg.maxUnavailable s.history

variable {pool : Callables} {cfg : Settings} {group : List String} {groups : List (List String)}
  {s t : State} {calls past : History} {p : Phase} {hosts : List String} {h : String}

/-! ### One group -/

theorem runPhase_succeeds (hpool : AlwaysSucceeds pool) (p : Phase) (hosts : List String)
    (s : State) : ∃ t calls, runPhase pool p hosts s = .ok t ∧ PhaseRun p hosts s t calls := by
  have hstop : ∀ t, ∃ t', stopRequested pool t = (false, t') := by
    intro t
    unfold stopRequested ask
    split_ifs
    · exact ⟨t.record .cancelled (pool.reply t.history .cancelled), by simp [hpool.2]⟩
    · exact ⟨t, rfl⟩
  have hcall : ∀ t host, ∃ t', (if (attempt pool p host t).1.ok then
      Except.ok (afterOk p host (attempt pool p host t).2) else
        .error (failure p host (attempt pool p host t).1.detail, (attempt pool p host t).2)) =
        .ok t' := by
    intro t host
    simp only [attempt, ask, hpool.1, if_true]
    exact ⟨_, rfl⟩
  have hvisit : ∀ t host, ∃ t', visit pool p t host = .ok t' := by
    intro t host
    obtain ⟨t', ht'⟩ := hstop t
    unfold visit
    by_cases hact : p = .act
    · rw [if_pos hact, ht']
      exact hcall t' host
    · rw [if_neg hact]
      exact hcall t host
  have hrun : ∀ (hosts : List String) (s : State), ∃ t, runPhase pool p hosts s = .ok t := by
    intro hosts
    induction hosts with
    | nil => exact fun s => ⟨s, rfl⟩
    | cons host hosts ih =>
      intro s
      obtain ⟨t, ht⟩ := hvisit s host
      obtain ⟨t', ht'⟩ := ih t
      refine ⟨t', ?_⟩
      unfold runPhase at ht' ⊢
      rw [List.foldlM_cons, ht]
      exact ht'
  obtain ⟨t, ht⟩ := hrun hosts s
  have hends := runPhase_ends pool p hosts s
  rw [ht] at hends
  obtain ⟨calls, hcalls⟩ := hends
  exact ⟨t, calls, ht, hcalls⟩

/-- The calls of a group drain nobody else. -/
def DrainsOnly (group : List String) (calls : History) : Prop :=
  ∀ x ∈ calls, ∀ h, x.Passed .drain h → h ∈ group

theorem PhaseRun.drainsOnly (h : PhaseRun p hosts s t calls) (hp : p = .drain → hosts = group) :
    DrainsOnly group calls := by
  intro x hx g hg
  obtain ⟨hq, hmem, -⟩ := h.only.call_eq hx hg.1
  exact hp hq.symm ▸ hmem

theorem DrainsOnly.append {more : History} (h : DrainsOnly group calls)
    (hmore : DrainsOnly group more) : DrainsOnly group (calls ++ more) := by
  intro x hx
  rcases List.mem_append.mp hx with hx | hx
  · exact h x hx
  · exact hmore x hx

theorem DrainsOnly.mem (hcalls : DrainsOnly group calls) (hpast : ¬ OutOf past h)
    (hout : OutOf (past ++ calls) h) : h ∈ group := by
  rcases since_append.mp hout with ⟨a, x, b, rfl, hx, -⟩ | ⟨hout, -⟩
  · exact hcalls x (by simp) h hx
  · exact absurd hout hpast

theorem OutAtMost.append {n : ℤ} (hpast : OutAtMost n past) (hin : ∀ h, ¬ OutOf past h)
    (hcalls : DrainsOnly group calls) (hlen : (group.length : ℤ) ≤ n) :
    OutAtMost n (past ++ calls) := by
  intro a ha out hout
  rcases List.prefix_or_prefix_of_prefix ha (List.prefix_append past calls) with ha' | ⟨b, rfl⟩
  · exact hpast a ha' out hout
  · have hb : b <+: calls := (List.prefix_append_right_inj past).mp ha
    have hsub : out ⊆ group.toFinset := by
      intro h hh
      have hb' : DrainsOnly group b := fun x hx => hcalls x (hb.subset hx)
      exact List.mem_toFinset.mpr (hb'.mem (hin h) (hout h hh))
    have hcard := (Finset.card_le_card hsub).trans (List.toFinset_card_le group)
    omega

theorem rollGroup_succeeds (hpool : AlwaysSucceeds pool)
    (hs : Rolled cfg (group :: groups) s) (hlen : (group.length : ℤ) ≤ cfg.maxUnavailable) :
    ∃ t, rollGroup pool group s = .ok t ∧ Rolled cfg groups t := by
  obtain ⟨s1, c1, h1, hrun1⟩ := runPhase_succeeds hpool .drain group { s with drained := [] }
  have hdrained : s1.drained = group := by simp [hrun1.drained]
  obtain ⟨s2, c2, h2, hrun2⟩ := runPhase_succeeds hpool .act group s1
  have hsettle : ∃ s3 c3, settlePhase pool s2 = .ok s3 ∧
      PhaseRun .settle (if pool.hasSettle then group else []) s2 s3 c3 := by
    unfold settlePhase
    have hdrained2 : s2.drained = group := by simp [hrun2.drained, hdrained]
    rw [hdrained2]
    split_ifs
    · exact runPhase_succeeds hpool .settle group s2
    · exact ⟨s2, [], rfl, .refl .settle s2⟩
  obtain ⟨s3, c3, h3, hrun3⟩ := hsettle
  obtain ⟨s4, c4, h4, hrun4⟩ := runPhase_succeeds hpool .health group s3
  obtain ⟨s5, c5, h5, hrun5⟩ := runPhase_succeeds hpool .undrain group s4
  refine ⟨s5, ?_, ?_⟩
  · unfold rollGroup
    have hdrained2 : s2.drained = group := by simp [hrun2.drained, hdrained]
    have hdrained3 : s3.drained = group := by simp [hrun3.drained, hdrained2]
    have hdrained4 : s4.drained = group := by simp [hrun4.drained, hdrained3]
    simp only [h1, hdrained, h2, h3, hdrained3, h4, hdrained4, h5, bind, Except.bind]
  · have hhistory : s5.history = s.history ++ (c1 ++ c2 ++ c3 ++ c4 ++ c5) := by
      rw [hrun5.history, hrun4.history, hrun3.history, hrun2.history, hrun1.history]
      simp
    have honly : DrainsOnly group (c1 ++ c2 ++ c3 ++ c4 ++ c5) :=
      ((((hrun1.drainsOnly fun _ => rfl).append (hrun2.drainsOnly fun h => nomatch h)).append
        (hrun3.drainsOnly fun h => nomatch h)).append (hrun4.drainsOnly fun h => nomatch h)).append
        (hrun5.drainsOnly fun h => nomatch h)
    have hmembers : ∀ g ∈ group, g ∈ cfg.members := by
      intro g hg
      rw [← hs.roster]
      simp [hg]
    refine ⟨?_, ?_, ?_, ?_, ?_⟩
    · rw [hrun5.healthyNow, hrun4.healthyNow, hrun3.healthyNow, hrun2.healthyNow, hrun1.healthyNow]
      simp only [healthyAfter, hs.healthyNow]
      refine Finset.sdiff_union_of_subset ?_
      intro g hg
      exact List.mem_toFinset.mpr (hmembers g (List.mem_toFinset.mp hg))
    · rw [hrun5.leftDrained, hrun4.leftDrained, hrun3.leftDrained, hrun2.leftDrained,
        hrun1.leftDrained]
      simp [leftAfter, hs.left]
    · rw [hrun5.done, hrun4.done, hrun3.done, hrun2.done, hrun1.done, ← hs.roster]
      simp
    · intro g hout
      rw [hhistory] at hout
      have hg := honly.mem (hs.inRotation g) hout
      rw [← hhistory, hrun5.history] at hout
      exact not_outOf_of_undrained hrun5.only (hrun5.passed g hg) hout
    · rw [hhistory]
      exact hs.bounded.append hs.inRotation honly hlen

/-! ### The run -/

theorem chunks_length {n : ℕ} : ∀ (fuel : ℕ) (members : List String),
    ∀ group ∈ chunks n fuel members, group.length ≤ n
  | 0, _, _, h => by simp [chunks] at h
  | _ + 1, [], _, h => by simp [chunks] at h
  | fuel + 1, m :: members, group, h => by
    rw [chunks] at h
    rcases List.mem_cons.mp h with rfl | h
    · exact List.length_take_le _ _
    · exact chunks_length fuel _ group h

theorem rollGroups_succeeds (hpool : AlwaysSucceeds pool) (hcfg : Feasible cfg)
    (groups : List (List String)) (s : State) (hs : Rolled cfg groups s)
    (hlen : ∀ group ∈ groups, (group.length : ℤ) ≤ cfg.maxUnavailable) :
    (rollGroups pool cfg.members cfg.minHealthy groups s).state = .ok ∧
      Rolled cfg [] (rollGroups pool cfg.members cfg.minHealthy groups s).final := by
  induction groups generalizing s with
  | nil => exact ⟨rfl, hs⟩
  | cons group groups ih =>
    have hnext : ∀ t, Rolled cfg (group :: groups) t →
        (rollNext pool cfg.minHealthy group (rollGroups pool cfg.members cfg.minHealthy groups)
          t).state = .ok ∧
        Rolled cfg [] (rollNext pool cfg.minHealthy group
          (rollGroups pool cfg.members cfg.minHealthy groups) t).final := by
      intro t ht
      have hgroup := hlen group (by simp)
      obtain ⟨t', hrun, ht'⟩ := rollGroup_succeeds hpool ht hgroup
      have hcard : t.healthyNow.card = cfg.members.length := by
        rw [ht.healthyNow, List.toFinset_card_of_nodup hcfg.nodup]
      have htaking := List.length_filter_le (· ∈ t.healthyNow) group
      have hfloor := hcfg.floor
      unfold rollNext
      simp only [hcard, hrun]
      rw [if_neg (by omega)]
      exact ih t' ht' fun g hg => hlen g (by simp [hg])
    unfold rollGroups stopRequested ask
    split_ifs
    · simp only [hpool.2, Bool.false_eq_true, if_false]
      refine hnext _ ⟨hs.healthyNow, hs.left, hs.roster, ?_, ?_⟩
      · intro h hout
        exact hs.inRotation h ((outOf_append_of_aside (by simp)).mp hout)
      · have hpoll : DrainsOnly [] [⟨.cancelled, pool.reply s.history .cancelled⟩] := by
          intro x hx g hg
          rw [List.mem_singleton.mp hx] at hg
          exact absurd hg.1 (by simp)
        refine hs.bounded.append hs.inRotation hpoll ?_
        have := hcfg.positive
        simp
        omega
    · exact hnext s hs

theorem askHealth_succeeds (hpool : AlwaysSucceeds pool) :
    ∀ (rest : List String) (states : List (String × Bool)) (s : State),
      (states.map Prod.fst ++ rest).Nodup →
      (askHealth pool rest states s).1 = states ++ rest.map fun h => (h, true)
  | [], states, s, _ => by simp [askHealth]
  | h :: rest, states, s, hnodup => by
    have hnew : setState states h true = states ++ [(h, true)] := by
      unfold setState
      rw [if_neg]
      intro hany
      obtain ⟨e, he, heq⟩ := List.any_eq_true.mp hany
      refine (List.nodup_append.mp hnodup).2.2 h ?_ h (by simp) rfl
      exact List.mem_map.mpr ⟨e, he, by simpa using heq⟩
    unfold askHealth ask
    simp only [hpool.1, hnew]
    rw [askHealth_succeeds hpool rest _ _ (by simpa using hnodup)]
    simp

/-- A feasible run whose callables always succeed takes everybody through. -/
theorem roll_succeeds (hpool : AlwaysSucceeds pool) (hcfg : Feasible cfg) :
    (roll pool cfg).state = .ok ∧ Rolled cfg [] (roll pool cfg).final := by
  have hmembers : cfg.members ≠ [] := by
    intro hnil
    have hpositive := hcfg.positive
    have hkeeps := hcfg.keeps
    have hfloor := hcfg.floor
    rw [hnil] at hfloor
    simp at hfloor
    omega
  have hasked := askHealth_asked pool cfg.members cfg.members []
    ⟨[], [], ∅, ∅, [], []⟩ (fun _ h => h) ⟨by simp, by simp, by simp⟩
  have hstates := askHealth_succeeds hpool cfg.members [] ⟨[], [], ∅, ∅, [], []⟩
    (by simpa using hcfg.nodup)
  have hhealthy : healthyOf (cfg.members.map fun h => (h, true)) = cfg.members := by
    unfold healthyOf
    simp [List.filter_map, Function.comp_def]
  unfold roll
  rw [List.nil_append] at hstates
  rw [hstates] at hasked
  simp only [hstates]
  have hpre : preflight cfg.members cfg.allowDegraded (cfg.members.map fun h => (h, true)) =
      none := by
    unfold preflight
    simp [hhealthy, hmembers]
  simp only [hpre, hhealthy]
  have hlen : ∀ group ∈ batches cfg.members cfg.maxUnavailable,
      (group.length : ℤ) ≤ cfg.maxUnavailable := by
    intro group hgroup
    have := chunks_length _ _ group hgroup
    have hpositive := hcfg.positive
    omega
  refine rollGroups_succeeds hpool hcfg _ _ ⟨rfl, hasked.untouched.1, ?_, hasked.not_outOf, ?_⟩ hlen
  · rw [batches_flatten, hasked.untouched.2.1, List.nil_append]
  · have honly : DrainsOnly [] (askHealth pool cfg.members []
        ⟨[], [], ∅, ∅, [], []⟩).2.history := by
      intro x hx g hg
      obtain ⟨m, hm⟩ := hasked.only x hx
      exact absurd (hm.symm.trans hg.1) (by simp)
    have hempty : OutAtMost cfg.maxUnavailable [] := by
      intro a ha out hout
      obtain rfl := List.prefix_nil.mp ha
      have hnone : out = ∅ := by
        rw [Finset.eq_empty_iff_forall_notMem]
        intro h hh
        obtain ⟨b, x, c, hb, -⟩ := hout h hh
        simp at hb
      rw [hnone, Finset.card_empty]
      have := hcfg.positive
      omega
    have hcalls : OutAtMost cfg.maxUnavailable ([] ++ (askHealth pool cfg.members []
        ⟨[], [], ∅, ∅, [], []⟩).2.history) := by
      refine hempty.append ?_ honly ?_
      · rintro h ⟨b, x, c, hb, -⟩
        simp at hb
      · have := hcfg.positive
        simp
        omega
    simpa using hcalls

end Rolling
