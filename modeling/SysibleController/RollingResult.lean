import SysibleController.RollingLedger

/-! What a finished run is worth: the result it reports, and the members that were serving at
each of its drains. -/
namespace Rolling

open EarlyExit PastTrace

variable {pool : Callables} {cfg : Settings} {b : Stop} {s t : State} {calls past : History}

theorem Halted.putBack (h : Halted pool cfg b s) (hback : PutBack b s t calls) :
    Ledger pool cfg t := by
  have hdone : t.done = s.done := hback.done
  refine ⟨fun g => ?_, fun g hg => ?_, hdone ▸ h.ledger.doneNodup, fun g hg => ?_, ?_⟩
  · rw [hback.leftDrained, hback.history, h.ledger.rotation]
    refine ⟨fun ho => since_append.mpr (.inr ho), fun ho => (since_append.mp ho).resolve_left ?_⟩
    rintro ⟨a, y, c, rfl, hy, -⟩
    simpa using (hback.call_eq (x := y) (by simp) hy.1).1
  · obtain ⟨hleft, hfinished⟩ := h.ledger.finished g (hdone ▸ hg)
    rw [hback.history]
    exact ⟨fun hc => hleft ((hback.leftDrained g).mp hc).1, hfinished.append _⟩
  · refine h.ledger.known g (hg.imp (fun hg => hdone ▸ hg) fun hg => ?_)
    exact ((hback.leftDrained g).mp hg).1
  · rw [hback.history]
    exact floor_append h.ledger.floor fun y hy g hc => by simpa using (hback.call_eq hy hc).1

def ActedAndOut (past : History) (h : String) : Prop := Acted past h ∧ OutOf past h

/-- Once an exchange has halted the run, no host it is not about that was acted on is put back
into rotation. -/
def NoActedHostPutBack (calls : History) : Prop := NoneAfterHalt ActedAndOut .undrain calls

/-- Every member that was acted on is in one of the two lists that say so. -/
def Accounted (cfg : Settings) (s : State) : Prop :=
  ∀ h ∈ cfg.members, Acted s.history h → h ∈ s.done ∨ h ∈ s.leftDrained

theorem bail_accounted (h : Halted pool cfg b s) (hback : PutBack b s t calls) :
    Accounted cfg t ↔ NoActedHostPutBack t.history := by
  obtain ⟨past, x, hpast, hclean, hhalts, haside⟩ := h.halt
  have hnotabout : ∀ g, (∃ y ∈ calls, y.Passed .undrain g) → ∀ q, x.call ≠ .on q g :=
    fun g ⟨y, hy, hp⟩ => by
      obtain ⟨-, hd, hb⟩ := hback.call_eq hy hp.1
      exact haside g hd hb
  have hactedBack : ∀ g, Acted t.history g → Acted s.history g := fun g hg => by
    rw [hback.history] at hg
    refine (acted_append.mp hg).resolve_right fun ⟨y, hy, hc⟩ => ?_
    simpa using (hback.call_eq hy hc).1
  rw [NoActedHostPutBack, hback.history, hpast, List.append_assoc, List.singleton_append,
    noneAfterHalt_bail (fun _ _ h => h.1) (fun past more g hmore hg => ?_) hclean hhalts
      (fun y hy => (hback.only y hy).imp fun _ h => h.2.2) (fun g hg _ => hnotabout g hg)]
  · constructor
    · intro hacc g hg y hy hp
      have hleft : g ∈ s.leftDrained := by
        rw [h.ledger.rotation, hpast]
        exact (outOf_halt hhalts).mpr hg.2
      have hnow : g ∉ t.leftDrained := fun hc => ((hback.leftDrained g).mp hc).2 y hy hp
      have hact : Acted t.history g := by
        rw [hback.history, hpast]
        exact acted_append.mpr (.inl (acted_append.mpr (.inl hg.1)))
      have hdone := (hacc g (h.ledger.known g (.inr hleft)) hact).resolve_right hnow
      exact (h.ledger.finished g (hback.done ▸ hdone)).1 hleft
    · intro hnone g _ hg
      rcases h.acted g (hactedBack g hg) with hd | hleft
      · exact .inl (hback.done ▸ hd)
      · refine .inr ((hback.leftDrained g).mpr ⟨hleft, fun y hy hp => ?_⟩)
        have hx := hnotabout g ⟨y, hy, hp⟩
        have hout : OutOf past g := by
          rw [h.ledger.rotation, hpast] at hleft
          exact (outOf_halt hhalts).mp hleft
        have hact : Acted past g := by
          have := hactedBack g hg
          rw [hpast] at this
          refine (acted_append.mp this).resolve_right fun ⟨z, hz, hc⟩ => ?_
          exact hx _ (List.mem_singleton.mp hz ▸ hc)
        exact hnone g ⟨hact, hout⟩ y hy hp
  · refine ⟨(acted_append.mp hg.1).resolve_right fun ⟨y, hy, hc⟩ => (hmore y hy).1 hc, ?_⟩
    rcases since_append.mp hg.2 with ⟨a, y, c, rfl, hy, -⟩ | ⟨hout, -⟩
    · exact absurd hy.1 (hmore y (by simp)).2
    · exact hout

theorem Ledger.poll (h : Ledger pool cfg s) (a : Answer) : Ledger pool cfg (s.record .cancelled a) where
  rotation g := (h.rotation g).trans (outOf_append_of_aside (by simp)).symm
  finished g hg := ⟨(h.finished g hg).1, (h.finished g hg).2.append _⟩
  doneNodup := h.doneNodup
  known := h.known
  floor := floor_append h.floor (by simp)

theorem Ledger.emit (h : Ledger pool cfg s) (host why : String) :
    Ledger pool cfg (s.emit host .drain false why) :=
  ⟨h.rotation, h.finished, h.doneNodup, h.known, h.floor⟩

theorem Asked.ledger {states : List (String × Bool)} (hs : Asked cfg.members states s) :
    Ledger pool cfg s := by
  obtain ⟨hleft, hdone, -⟩ := hs.untouched
  refine ⟨fun g => ?_, by simp [hdone], by simp [hdone], by simp [hdone, hleft],
    fun a y c hab g hy => ?_⟩
  · simp [hleft, hs.not_outOf g]
  · obtain ⟨g', hg'⟩ := hs.only y (by simp [hab])
    simp [hg'] at hy

theorem Between.poll {groups : List (List String)} (h : Between pool cfg groups s) {a : Answer}
    (ha : a.ok = false) : Between pool cfg groups (s.record .cancelled a) where
  ledger := h.ledger.poll a
  clean := h.clean.append (by simp [Exchange.Halts, ha])
  left := h.left
  acted g hg := h.acted g ((acted_append.mp hg).resolve_right (by simp [Acted]))
  counted g hg := (h.counted g hg).imp_right fun hans => since_snoc.mpr (.inr ⟨hans, by simp⟩)
  roster := h.roster
  rest := h.rest

/-- What holds at the end of every run without repeated members. -/
theorem roll_ledger (pool : Callables) {cfg : Settings} (hnodup : cfg.members.Nodup) :
    Ledger pool cfg (roll pool cfg).final ∧
      (Accounted cfg (roll pool cfg).final ↔ NoActedHostPutBack (roll pool cfg).final.history) := by
  have hacted : ∀ past h, ActedAndOut past h → Acted past h := fun _ _ h => h.1
  refine roll_rule (B := Between pool cfg)
    (Q := fun s => Ledger pool cfg s ∧ (Accounted cfg s ↔ NoActedHostPutBack s.history))
    (fun states s host why hs => ?_) (fun states s hs => ?_) (fun groups s a hs ha => hs.poll ha)
    (fun groups s a hs ha => ?_) (fun groups s hs => ?_)
    (fun s host why hs => ⟨hs.1.emit host why, hs.2⟩) (fun group groups s hs hcheck => ?_)
  · exact ⟨hs.ledger.emit host why, iff_of_true (fun g _ hg => absurd hg (hs.not_acted g))
      (noneAfterHalt_of_clean hacted hs.clean)⟩
  · have hledger : Ledger pool cfg s := hs.ledger
    exact ⟨⟨hledger.rotation, hledger.finished, hledger.doneNodup, hledger.known, hledger.floor⟩,
      hs.clean, hs.untouched.1, fun g hg => absurd hg (hs.not_acted g),
      fun g hg => hs.counted g (by simpa [healthyOf] using hg),
      by rw [batches_flatten, hs.untouched.2.1, List.nil_append], [], rfl⟩
  · refine ⟨hs.ledger.poll a, iff_of_true (fun g _ hg => .inl (hs.acted g ?_))
      (noneAfterHalt_snoc hacted hs.clean)⟩
    exact (acted_append.mp hg).resolve_right (by simp [Acted])
  · exact ⟨hs.ledger, iff_of_true (fun g _ hg => .inl (hs.acted g hg))
      (noneAfterHalt_of_clean hacted hs.clean)⟩
  · refine (rollGroup_ledger hnodup hs hcheck).mono (fun _ h => h) fun e h => ?_
    obtain ⟨calls, hback⟩ := bail_putBack pool e.1 e.2
    exact ⟨h.putBack hback, bail_accounted h hback⟩

/-! ### The reported result -/

structure Truthful (pool : Callables) (history : History) (r : Result) : Prop where
  partition : (r.done ++ r.drained ++ r.skipped).Perm r.members
  skipped : ∀ h ∈ r.skipped, ¬Acted history h
  drained : ∀ h, h ∈ r.drained ↔ OutOf history h
  done : ∀ h ∈ r.done, Finished pool history h

theorem result_truthful_iff {e : Ending} (hnodup : cfg.members.Nodup)
    (h : Ledger pool cfg e.final) :
    Truthful pool e.final.history (result cfg.members e) ↔ Accounted cfg e.final := by
  have hskipped : ∀ g, g ∈ (result cfg.members e).skipped ↔
      g ∈ cfg.members ∧ g ∉ e.final.done ∧ g ∉ e.final.leftDrained := by
    simp [result]
  have hdrained : ∀ g, g ∈ (result cfg.members e).drained ↔ g ∈ e.final.leftDrained := by
    simp [result]
  constructor
  · intro ht g hg hact
    by_contra hno
    exact ht.skipped g ((hskipped g).mpr ⟨hg, not_or.mp hno⟩) hact
  · intro hacc
    refine ⟨?_, fun g hg hact => ?_, fun g => (hdrained g).trans (h.rotation g),
      fun g hg => (h.finished g hg).2⟩
    · have hdisjoint : ∀ g ∈ (result cfg.members e).done, g ∉ (result cfg.members e).drained :=
        fun g hg hd => (h.finished g hg).1 ((hdrained g).mp hd)
      refine (List.perm_ext_iff_of_nodup ?_ hnodup).mpr fun g => ?_
      · rw [List.nodup_append, List.nodup_append]
        refine ⟨⟨h.doneNodup, Finset.sort_nodup _ _, ?_⟩, hnodup.filter _, ?_⟩
        · rintro g hg _ hd rfl
          exact hdisjoint g hg hd
        · rintro g hg _ hs rfl
          obtain ⟨-, hd, hl⟩ := (hskipped g).mp hs
          exact (List.mem_append.mp hg).elim hd fun hg => hl ((hdrained g).mp hg)
      · rw [List.mem_append, List.mem_append, hskipped, hdrained]
        have hdone : g ∈ (result cfg.members e).done ↔ g ∈ e.final.done := Iff.rfl
        have hknown := h.known g
        rw [hdone]
        change _ ↔ g ∈ cfg.members
        tauto
    · obtain ⟨hm, hd, hl⟩ := (hskipped g).mp hg
      exact (hacc g hm hact).elim hd hl

theorem result_truthful {cfg : Settings} (pool : Callables) (hnodup : cfg.members.Nodup) :
    Truthful pool (roll pool cfg).final.history (run pool cfg) ↔
      NoActedHostPutBack (roll pool cfg).final.history := by
  obtain ⟨hledger, hiff⟩ := roll_ledger pool hnodup
  rw [run, result_truthful_iff hnodup hledger, hiff]

theorem result_truthful_sample : ["a", "b", "c"].Nodup ∧
    (Truthful (allBut .act "b") (roll (allBut .act "b") ⟨["a", "b", "c"], 1, false, 1⟩).final.history
        (run (allBut .act "b") ⟨["a", "b", "c"], 1, false, 1⟩) ↔
      NoActedHostPutBack (roll (allBut .act "b") ⟨["a", "b", "c"], 1, false, 1⟩).final.history) :=
  ⟨by decide, result_truthful _ (by decide)⟩

/-- Of two members out together the first is patched and the second fails: the first is put
back and reported as skipped. -/
theorem patched_member_skipped : ¬Truthful (allBut .act "b")
    (roll (allBut .act "b") ⟨["a", "b", "c"], 2, false, 1⟩).final.history
    (run (allBut .act "b") ⟨["a", "b", "c"], 2, false, 1⟩) := by
  intro ht
  exact ht.skipped "a" (by decide)
    ⟨⟨.on .act "a", .returned true ""⟩, by decide, rfl⟩

/-! ### The members left serving -/

def WouldAnswerHealthy (pool : Callables) (past : History) (h : String) : Prop :=
  (pool.reply past (.on .health h)).ok = true

/-- At a drain, no member outside the group that is in rotation and passed its last check has
gone bad since. -/
def StillHealthy (pool : Callables) (cfg : Settings) (past : History) (x : Exchange) : Prop :=
  ∀ h, x.call = .on .drain h → ∀ group ∈ batches cfg.members cfg.maxUnavailable, h ∈ group →
    ∀ m ∈ cfg.members, m ∉ group → ¬OutOf past m → AnsweredHealthy past m →
      WouldAnswerHealthy pool past m

theorem floor_holds_at_drains {cfg : Settings} (hnodup : cfg.members.Nodup)
    (hstill : AtEach (StillHealthy pool cfg) (roll pool cfg).final.history) :
    AtEach (FloorHolds cfg (WouldAnswerHealthy pool)) (roll pool cfg).final.history := by
  intro a x c hrun h hx group hgroup hh
  obtain ⟨others, hcard, hothers⟩ := (roll_ledger pool hnodup).1.floor a x c hrun h hx group hgroup hh
  refine ⟨others, hcard, fun m hm => ?_⟩
  obtain ⟨hmember, hout, hrot, hans⟩ := hothers m hm
  exact ⟨hmember, hout, hrot, hstill a x c hrun h hx group hgroup hh m hmember hout hrot hans⟩

theorem still_healthy_allBut_act (host : String) (cfg : Settings) (calls : History) :
    AtEach (StillHealthy (allBut .act host) cfg) calls := by
  intro a x c _ h _ group _ _ m _ _ _ _
  simp [WouldAnswerHealthy, allBut, Answer.ok]

theorem floor_holds_at_drains_sample : ["a", "b", "c"].Nodup ∧
    AtEach (FloorHolds ⟨["a", "b", "c"], 2, false, 1⟩ (WouldAnswerHealthy (allBut .act "b")))
      (roll (allBut .act "b") ⟨["a", "b", "c"], 2, false, 1⟩).final.history :=
  ⟨by decide, floor_holds_at_drains (by decide) (still_healthy_allBut_act "b" _ _)⟩

/-- Both members pass the preflight and fail every check after it; only the drain of the first
succeeds. -/
def fading : Callables where
  reply past c := .returned (past.length < 2 ∨ c = .on .drain "a") ""
  hasSettle := false
  hasCancelled := false

/-- The last healthy member is taken out, on the word of a check made before the run. -/
theorem last_member_drained : ¬AtEach
    (FloorHolds ⟨["a", "b"], 1, false, 1⟩ (WouldAnswerHealthy fading))
    (roll fading ⟨["a", "b"], 1, false, 1⟩).final.history := by
  have hrun : (roll fading ⟨["a", "b"], 1, false, 1⟩).final.history =
      [⟨.on .health "a", .returned true ""⟩, ⟨.on .health "b", .returned true ""⟩] ++
        ⟨.on .drain "a", .returned true ""⟩ :: [⟨.on .act "a", .returned false ""⟩] := by
    decide
  intro hfloor
  obtain ⟨others, hcard, hothers⟩ :=
    hfloor _ _ _ hrun "a" rfl ["a"] (by decide) (by simp)
  have hpos : 0 < others.card := by
    dsimp only at hcard
    omega
  obtain ⟨m, hm⟩ := Finset.card_pos.mp hpos
  obtain ⟨-, -, -, hserves⟩ := hothers m hm
  simp [WouldAnswerHealthy, fading, Answer.ok] at hserves

end Rolling
