import SysibleController.RollingPhases

/-! Whole runs of the roller: the preflight, the split into groups, the rule that carries an
invariant from group to group, and what a halt in the middle of a group leaves open. -/
namespace Rolling

open EarlyExit PastTrace

/-! ### The preflight -/

/-- After the checks of the preflight nothing but health has been asked. -/
structure Asked (members : List String) (states : List (String × Bool)) (s : State) : Prop where
  only : ∀ x ∈ s.history, ∃ h, x.call = .on .health h
  counted : ∀ h, (h, true) ∈ states → h ∈ members ∧ AnsweredHealthy s.history h
  untouched : s.leftDrained = ∅ ∧ s.done = [] ∧ s.drained = []

theorem mem_setState {states : List (String × Bool)} {h g : String} {ok v : Bool}
    (hmem : (g, v) ∈ setState states h ok) : (g = h ∧ v = ok) ∨ (g ≠ h ∧ (g, v) ∈ states) := by
  unfold setState at hmem
  split_ifs at hmem with hany
  · obtain ⟨e, he, heq⟩ := List.mem_map.mp hmem
    split_ifs at heq with hk
    · exact .inl ⟨(congrArg Prod.fst heq).symm, (congrArg Prod.snd heq).symm⟩
    · exact .inr ⟨by rwa [heq] at hk, heq ▸ he⟩
  · rcases List.mem_append.mp hmem with hmem | hmem
    · refine .inr ⟨fun hgh => hany ?_, hmem⟩
      exact List.any_eq_true.mpr ⟨_, hmem, by simp [hgh]⟩
    · simp only [List.mem_singleton, Prod.mk.injEq] at hmem
      exact .inl hmem

theorem askHealth_asked (pool : Callables) (members : List String) :
    ∀ (rest : List String) (states : List (String × Bool)) (s : State),
      (∀ h ∈ rest, h ∈ members) → Asked members states s →
      Asked members (askHealth pool rest states s).1 (askHealth pool rest states s).2
  | [], _, _, _, hs => hs
  | h :: rest, states, s, hmem, hs => by
    have hh := hmem h (List.mem_cons_self ..)
    refine askHealth_asked pool members rest _ _ (fun g hg => hmem g (List.mem_cons_of_mem _ hg))
      ⟨fun x hx => ?_, fun g hg => ?_, hs.untouched⟩
    · rcases List.mem_append.mp hx with hx | hx
      · exact hs.only x hx
      · exact ⟨h, by rw [List.mem_singleton.mp hx]⟩
    · rcases mem_setState hg with ⟨rfl, hok⟩ | ⟨hne, hg⟩
      · exact ⟨hh, since_snoc.mpr (.inl ⟨rfl, hok.symm⟩)⟩
      · obtain ⟨hgm, hga⟩ := hs.counted g hg
        refine ⟨hgm, since_snoc.mpr (.inr ⟨hga, fun hc => ?_⟩)⟩
        exact absurd (Call.on.inj hc).2.symm hne

theorem Asked.not_acted {members : List String} {states : List (String × Bool)} {s : State}
    (hs : Asked members states s) (h : String) : ¬Acted s.history h := by
  rintro ⟨x, hx, hc⟩
  obtain ⟨g, hg⟩ := hs.only x hx
  simp [hc] at hg

theorem Asked.not_outOf {members : List String} {states : List (String × Bool)} {s : State}
    (hs : Asked members states s) (h : String) : ¬OutOf s.history h := by
  rintro ⟨a, x, b, hab, hx, -⟩
  obtain ⟨g, hg⟩ := hs.only x (by simp [hab])
  simp [hx.1] at hg

theorem Asked.clean {members : List String} {states : List (String × Bool)} {s : State}
    (hs : Asked members states s) : Clean s.history := by
  rintro a x b hab - h ⟨y, hy, hc⟩
  exact hs.not_acted h ⟨y, by simp [hab, hy], hc⟩

/-! ### The groups -/

theorem chunks_flatten {n : ℕ} (hn : 0 < n) : ∀ (fuel : ℕ) (members : List String),
    members.length ≤ fuel → (chunks n fuel members).flatten = members
  | 0, [], _ => rfl
  | _ + 1, [], _ => rfl
  | fuel + 1, h :: t, hlen => by
    have hdrop : ((h :: t).drop n).length ≤ fuel := by
      rw [List.length_drop, List.length_cons] at *
      omega
    rw [chunks, List.flatten_cons, chunks_flatten hn fuel _ hdrop, List.take_append_drop]

theorem batches_flatten (members : List String) (maxUnavailable : ℤ) :
    (batches members maxUnavailable).flatten = members :=
  chunks_flatten (by omega) _ _ le_rfl

/-- The rule for a whole run: an invariant between groups, over the groups still to come. -/
theorem rollGroups_rule {pool : Callables} {members : List String} {minHealthy : ℤ}
    {B : List (List String) → State → Prop} {Q : State → Prop}
    (hpoll : ∀ groups s a, B groups s → a.ok = false → B groups (s.record .cancelled a))
    (hcancel : ∀ groups s a, B groups s → a.ok = true → Q (s.record .cancelled a))
    (hend : ∀ groups s, B groups s → Q s)
    (hfloor : ∀ s host why, Q s → Q (s.emit host .drain false why))
    (hgroup : ∀ group groups s, B (group :: groups) s →
      minHealthy ≤ s.healthyNow.card - (group.filter (· ∈ s.healthyNow)).length →
      Ends (B groups) (fun e => Q (bail pool e.1 e.2)) (rollGroup pool group s)) :
    ∀ groups s, B groups s → Q (rollGroups pool members minHealthy groups s).final
  | [], s, hs => hend [] s hs
  | group :: groups, s, hs => by
    have hnext : ∀ t, B (group :: groups) t → Q
        (rollNext pool minHealthy group (rollGroups pool members minHealthy groups) t).final := by
      intro t ht
      unfold rollNext
      dsimp only
      split_ifs with hleft
      · exact hfloor t _ _ (hend _ t ht)
      · have := hgroup group groups t ht (not_lt.mp hleft)
        cases hr : rollGroup pool group t with
        | ok t' =>
          rw [hr] at this
          exact rollGroups_rule hpoll hcancel hend hfloor hgroup groups t' this
        | error e =>
          rw [hr] at this
          exact this
    unfold rollGroups stopRequested ask
    split_ifs with hpolled
    · dsimp only
      by_cases ha : (pool.reply s.history .cancelled).ok = true
      · rw [if_pos ha]
        exact hcancel _ s _ hs ha
      · rw [if_neg ha]
        exact hnext _ (hpoll _ s _ hs (Bool.eq_false_iff.mpr ha))
    · exact hnext s hs

theorem roll_rule {pool : Callables} {cfg : Settings} {B : List (List String) → State → Prop}
    {Q : State → Prop}
    (hrefused : ∀ states s host why, Asked cfg.members states s → Q (s.emit host .drain false why))
    (hstart : ∀ states s, Asked cfg.members states s →
      B (batches cfg.members cfg.maxUnavailable) { s with healthyNow := (healthyOf states).toFinset })
    (hpoll : ∀ groups s a, B groups s → a.ok = false → B groups (s.record .cancelled a))
    (hcancel : ∀ groups s a, B groups s → a.ok = true → Q (s.record .cancelled a))
    (hend : ∀ groups s, B groups s → Q s)
    (hfloor : ∀ s host why, Q s → Q (s.emit host .drain false why))
    (hgroup : ∀ group groups s, B (group :: groups) s →
      cfg.minHealthy ≤ s.healthyNow.card - (group.filter (· ∈ s.healthyNow)).length →
      Ends (B groups) (fun e => Q (bail pool e.1 e.2)) (rollGroup pool group s)) :
    Q (roll pool cfg).final := by
  have hasked := askHealth_asked pool cfg.members cfg.members []
    ⟨[], [], ∅, ∅, [], []⟩ (fun _ h => h) ⟨by simp, by simp, by simp⟩
  unfold roll
  dsimp only
  cases preflight cfg.members cfg.allowDegraded
      (askHealth pool cfg.members [] ⟨[], [], ∅, ∅, [], []⟩).1 with
  | some why => exact hrefused _ _ "" why hasked
  | none => exact rollGroups_rule hpoll hcancel hend hfloor hgroup _ _ (hstart _ _ hasked)

/-- Everything succeeds but phase `p` on `host`. -/
def allBut (p : Phase) (host : String) : Callables where
  reply _ c := .returned (c ≠ .on p host) ""
  hasSettle := true
  hasCancelled := false

/-! ### Halts -/

/-- After a halt that is not about `h`, with condition `C` on `h`, no call of phase `p` on `h`
succeeds. -/
def NoneAfterHalt (C : History → String → Prop) (p : Phase) (calls : History) : Prop :=
  ∀ past x rest h, calls = past ++ x :: rest → x.Halts → (∀ q, x.call ≠ .on q h) → C past h →
    ∀ y ∈ rest, ¬y.Passed p h

variable {C : History → String → Prop} {p : Phase} {past calls : History} {x : Exchange}

theorem noneAfterHalt_of_clean (hC : ∀ past h, C past h → Acted past h) (hclean : Clean past) :
    NoneAfterHalt C p past :=
  fun a y b h hab hy _ hc => absurd (hC a h hc) (hclean a y b hab hy h)

/-- A halt that ends the run has nothing after it. -/
theorem noneAfterHalt_snoc (hC : ∀ past h, C past h → Acted past h) (hclean : Clean past) :
    NoneAfterHalt C p (past ++ [x]) := by
  intro a y b h hab hy hq hc z hz
  rcases List.eq_nil_or_concat b with rfl | ⟨b, w, rfl⟩
  · simp at hz
  · rw [List.concat_eq_append, ← List.cons_append, ← List.append_assoc] at hab
    obtain ⟨hpast, -⟩ := List.append_inj' hab rfl
    exact absurd (hC a h hc) (hclean a y b hpast hy h)

/-- For a halt followed by the calls of `bail`, only the state at the halt counts. -/
theorem noneAfterHalt_bail (hC : ∀ past h, C past h → Acted past h)
    (hback : ∀ past more h, (∀ y ∈ more, y.call ≠ .on .act h ∧ y.call ≠ .on .drain h) →
      C (past ++ more) h → C past h)
    (hclean : Clean past) (hx : x.Halts)
    (hcalls : ∀ y ∈ calls, ∃ h, y.call = .on .health h ∨ y.call = .on .undrain h)
    (haside : ∀ h, (∃ y ∈ calls, y.Passed p h) → C past h ∨ C (past ++ [x]) h →
      ∀ q, x.call ≠ .on q h) :
    NoneAfterHalt C p (past ++ x :: calls) ↔ ∀ h, C past h → ∀ y ∈ calls, ¬y.Passed p h := by
  constructor
  · intro hnone h hc y hy hp
    exact hnone past x calls h rfl hx (haside h ⟨y, hy, hp⟩ (.inl hc)) hc y hy hp
  · intro hnone a z b h hab hz hq hc y hy hp
    rcases List.append_eq_append_iff.mp hab with ⟨c, rfl, hc'⟩ | ⟨c, rfl, hc'⟩
    · cases c with
      | nil =>
        obtain ⟨rfl, rfl⟩ := List.cons.inj hc'
        rw [List.append_nil] at hc
        exact hnone h hc y hy hp
      | cons w c =>
        obtain ⟨rfl, rfl⟩ := List.cons.inj hc'
        -- a later failure, inside the bail: the condition held at the halt already
        have hmem : y ∈ c ++ z :: b := by simp [hy]
        have hbefore : C (past ++ [x]) h := by
          refine hback _ c h (fun u hu => ?_) (by simpa using hc)
          obtain ⟨g, hg | hg⟩ := hcalls u (List.mem_append_left _ hu) <;> simp [hg]
        have hnot := haside h ⟨y, hmem, hp⟩ (.inr hbefore)
        refine hnone h (hback past [x] h (fun u hu => ?_) hbefore) y hmem hp
        rw [List.mem_singleton.mp hu]
        exact ⟨hnot _, hnot _⟩
    · cases c with
      | nil =>
        obtain ⟨rfl, rfl⟩ := List.cons.inj hc'
        exact hnone h (by simpa using hc) y hy hp
      | cons w c =>
        obtain ⟨rfl, rfl⟩ := List.cons.inj hc'
        exact absurd (hC a h hc) (hclean a z c rfl hz h)

end Rolling
