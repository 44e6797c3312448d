import SysibleController.AdminAccounts

/-! There is always a superuser: which writes can take the last one away, and the runs in
which the guards of the handlers prevent it. -/
namespace AdminAccounts

open KeyedTable PythonText TransitionSystem Interleaving

def Super (s : Accounts) (username : String) : Prop :=
  ∃ a, s.administrators.find username = some a ∧ a.role = some "superuser"

def OneSuperuser (s : Accounts) : Prop := ∃ u, Super s u

def TwoSuperusers (s : Accounts) : Prop := ∃ u v, u ≠ v ∧ Super s u ∧ Super s v

theorem twoSuperusers_of_count {s : Accounts}
    (h : 1 < countAdministratorsByRole s "superuser") : TwoSuperusers s := by
  obtain ⟨u, a, ha, hrole⟩ := Table.count_pos.mp (Nat.zero_lt_of_lt h)
  obtain ⟨v, b, hne, hb, hrole'⟩ := Table.exists_other h u
  exact ⟨v, u, hne, ⟨b, hb, by simpa using hrole'⟩, ⟨a, ha, by simpa using hrole⟩⟩

/-! ## What the writes do to superusers -/

/-- The account a write may take the superuser role from. -/
def Write.demotes : Write → Option String
  | .role u r | .adopt u r => if r = "superuser" then none else some u
  | .remove u => some u
  | _ => none

/-- The name an account has after a write; a taken name refuses the rename. -/
def Write.carry (s : Accounts) : Write → String → String
  | .rename u n, k => if k = u ∧ s.administrators.find n = none then n else k
  | _, k => k

variable {cfg : Settings} {env : Fresh} {s : Accounts}

/-- An UPDATE that writes the superuser role, or none, keeps every superuser. -/
theorem Super.update {s' : Accounts} {k u : String} (h : Super s k)
    (f : Administrator → Administrator)
    (hs' : s'.administrators.find k = if k = u then (s.administrators.find k).map f
      else s.administrators.find k)
    (hrole : ∀ a, k = u → a.role = some "superuser" → (f a).role = some "superuser") :
    Super s' k := by
  obtain ⟨a, ha, har⟩ := h
  rw [Super, hs', ha]
  by_cases hk : k = u
  · exact ⟨f a, by simp [hk], hrole a hk har⟩
  · exact ⟨a, by simp [hk], har⟩

theorem Super.of_find {s' : Accounts} {k : String} (h : Super s k)
    (hs' : s'.administrators.find k = s.administrators.find k) : Super s' k := by
  obtain ⟨a, ha, har⟩ := h
  exact ⟨a, hs'.trans ha, har⟩

/-- Whoever is not the account a write demotes stays a superuser, under the new name. -/
theorem Super.write {k : String} (h : Super s k) (w : Write) (hk : w.demotes ≠ some k) :
    Super (w.apply cfg env s) (w.carry s k) := by
  cases w with
  | rehash u p must =>
    exact h.update _ (storePassword_find s u k _ _ must) fun _ _ h => h
  | mint u r epoch => exact h.of_find rfl
  | role u r =>
    refine h.update _ (setAdministratorRole_find s u k r) fun _ hu _ => ?_
    by_cases hr : r = "superuser"
    · rw [hr]
      rfl
    · simp [Write.demotes, hr, hu] at hk
  | adopt u r =>
    refine h.update _ (adoptAdministratorForSso_find s u k r _ _) fun _ hu _ => ?_
    by_cases hr : r = "superuser"
    · rw [hr]
      rfl
    · simp [Write.demotes, hr, hu] at hk
  | add row =>
    simp only [Write.apply, Write.carry, addAdministrator]
    split
    · exact h
    · rename_i hfree
      obtain ⟨a, ha, har⟩ := h
      have hne : k ≠ row.username := by
        rintro rfl
        simp [ha] at hfree
      exact ⟨a, by simp [hne, ha], har⟩
  | remove u =>
    have hne : k ≠ u := fun he => hk (by rw [he]; rfl)
    obtain ⟨a, ha, har⟩ := h
    exact ⟨a, by simp [Write.apply, removeAdministrator, ha, Table.key_of_find ha, hne,
      Write.carry], har⟩
  | rename u n =>
    obtain ⟨a, ha, har⟩ := h
    simp only [Write.apply, Write.carry, updateAdministratorUsername]
    by_cases hfree : s.administrators.find n = none
    · by_cases hku : k = u
      · subst hku
        exact ⟨{ a with username := n }, by simp [ha, hfree], har⟩
      · have hkn : k ≠ n := by
          rintro rfl
          simp [ha] at hfree
        refine ⟨a, ?_, har⟩
        cases hrow : s.administrators.find u with
        | none => simp [hku, ha]
        | some row => simp [hku, hkn, hfree, ha, Table.key_of_find ha]
    · refine ⟨a, ?_, har⟩
      cases hrow : s.administrators.find u with
      | none => simp [hfree, ha]
      | some row => simp [hfree, ha, Option.isSome_iff_ne_none]
  | store u p must =>
    exact h.update _ (updateAdministratorPassword_find s u k _ _ must) fun _ _ h => h
  | purge u => exact h.of_find (by simp [Write.apply])
  | resolve token => exact h.of_find (by simp [Write.apply])

theorem carry_injective {i j : String} (w : Write) (hi : Super s i) (hj : Super s j)
    (hne : i ≠ j) : w.carry s i ≠ w.carry s j := by
  cases w with
  | rename u n =>
    obtain ⟨a, ha, -⟩ := hi
    obtain ⟨b, hb, -⟩ := hj
    simp only [Write.carry]
    split <;> split
    · rename_i h₁ h₂
      exact absurd (h₁.1.trans h₂.1.symm) hne
    · rename_i h₁ _
      rintro rfl
      simp [hb] at h₁
    · rename_i _ h₂
      rintro rfl
      simp [ha] at h₂
    · exact hne
  | _ => exact hne

/-- A write that demotes nobody, or nobody who is a superuser, keeps one and keeps two. -/
theorem superusers_kept {w : Write} (hw : ∀ u, w.demotes = some u → ¬ Super s u) :
    (OneSuperuser s → OneSuperuser (w.apply cfg env s)) ∧
      (TwoSuperusers s → TwoSuperusers (w.apply cfg env s)) := by
  have hkeep : ∀ k, Super s k → Super (w.apply cfg env s) (w.carry s k) :=
    fun k h => h.write w fun he => hw k he h
  constructor
  · rintro ⟨u, hu⟩
    exact ⟨_, hkeep u hu⟩
  · rintro ⟨u, v, hne, hu, hv⟩
    exact ⟨_, _, carry_injective w hu hv hne, hkeep u hu, hkeep v hv⟩

/-- Of two superusers one is left by any write. -/
theorem one_left (h : TwoSuperusers s) (w : Write) : OneSuperuser (w.apply cfg env s) := by
  obtain ⟨u, v, hne, hu, hv⟩ := h
  by_cases hw : w.demotes = some u
  · refine ⟨_, hv.write w ?_⟩
    rw [hw]
    exact fun he => hne (Option.some.inj he)
  · exact ⟨_, hu.write w hw⟩

/-! ## The guards -/

/-- Past its look at the number of superusers, and with its write still to come. -/
def AdminThread.guarded : AdminThread → Bool
  | .remove _ (.deleting target) => orSuperuser target.role = "superuser"
  | .setRole _ _ (.countingSeats current) | .setRole _ _ (.updating current) =>
    current = "superuser"
  | _ => false

/-- What the handlers rely on without checking it. A write behind the guard is the only one
pending; a write that skipped the guard, because the row it read was no superuser, still finds
no superuser; and SSO takes the role away only while another superuser is left and no guarded
write is pending. -/
def SuperuserCondition (p : AccountPool) : AccountEvent → Prop
  | .act (.remove u (.deleting target)) _ =>
    if orSuperuser target.role = "superuser" then p.threads.countP AdminThread.guarded ≤ 1
    else ¬ Super p.shared u
  | .act (.setRole u r (.updating current)) _ =>
    r = "superuser" ∨ if current = "superuser" then p.threads.countP AdminThread.guarded ≤ 1
      else ¬ Super p.shared u
  | .act (.sso u r .adopting) _ | .act (.sso u r .syncing) _ =>
    r = "superuser" ∨ ¬ Super p.shared u ∨
      (1 < countAdministratorsByRole p.shared "superuser" ∧
        p.threads.countP AdminThread.guarded = 0)
  | _ => True

def SuperuserLaw (cfg : Settings) (C : AccountPool → AccountEvent → Prop) : Prop :=
  ∀ s, OneSuperuser s → ∀ log p,
    (((accounts cfg).machine s).restrict C).Run ((accounts cfg).machine s).start log p →
    OneSuperuser p.shared

/-- A thread gets behind the guard by counting two superusers, or was there already; neither
step writes. -/
theorem guarded_next {th th' : AdminThread} {s' : Accounts} {e : AdminEvent}
    (h : adminStep cfg env s th = (s', e, some th')) (hg : th'.guarded = true) :
    th.write cfg env = none ∧ (th.guarded = true ∨ TwoSuperusers s) := by
  cases th with
  | remove u phase =>
    cases phase with
    | reading | counting =>
      simp only [adminStep, removeStep, Next.thread] at h
      grind [AdminThread.guarded, AdminThread.write]
    | countingSuperusers target =>
      refine ⟨rfl, Or.inr ?_⟩
      apply twoSuperusers_of_count
      simp only [adminStep, removeStep, Next.thread] at h
      grind
    | deleting target => simp [adminStep, removeStep, Next.thread] at h
  | setRole u r phase =>
    cases phase with
    | reading | countingSeats =>
      simp only [adminStep, setRoleStep, Next.thread] at h
      grind [AdminThread.guarded, AdminThread.write]
    | countingSuperusers current =>
      refine ⟨rfl, Or.inr ?_⟩
      apply twoSuperusers_of_count
      simp only [adminStep, setRoleStep, Next.thread] at h
      grind
    | updating | purging =>
      simp only [adminStep, setRoleStep, Next.thread, Option.map_some, Option.map_none,
        Prod.mk.injEq, Option.some.injEq] at h
      grind [AdminThread.guarded]
  | login u p phase | sso u r phase | add u p r a phase | change u c n p phase
  | force u c p phase | reset u p phase =>
    exfalso
    simp only [adminStep, Next.thread, Prod.mk.injEq, Option.map_eq_some_iff] at h
    obtain ⟨-, -, phase', -, rfl⟩ := h
    simp [AdminThread.guarded] at hg
  | resolve token => simp [adminStep] at h

/-- A write demotes no superuser, or two are there and no guarded write is pending, or it is
the one guarded write pending. -/
theorem write_cases {p : AccountPool} {th : AdminThread} {e : AdminEvent}
    (hc : SuperuserCondition p (.act th e)) {w : Write} (hw : th.write cfg env = some w) :
    (∀ u, w.demotes = some u → ¬ Super p.shared u) ∨
      (TwoSuperusers p.shared ∧ p.threads.countP AdminThread.guarded = 0) ∨
      (th.guarded = true ∧ p.threads.countP AdminThread.guarded ≤ 1) := by
  have hsso : ∀ u r, (r = "superuser" ∨ ¬ Super p.shared u ∨
      (1 < countAdministratorsByRole p.shared "superuser" ∧
        p.threads.countP AdminThread.guarded = 0)) →
      (∀ x, (if r = "superuser" then none else some u) = some x → ¬ Super p.shared x) ∨
      (TwoSuperusers p.shared ∧ p.threads.countP AdminThread.guarded = 0) := by
    rintro u r (rfl | hns | ⟨htwo, hnone⟩)
    · exact Or.inl (by simp)
    · refine Or.inl fun x hx => ?_
      by_cases hr : r = "superuser"
      · simp [hr] at hx
      · simp only [hr, if_false, Option.some.injEq] at hx
        rwa [← hx]
    · exact Or.inr ⟨twoSuperusers_of_count htwo, hnone⟩
  cases th with
  | remove u phase =>
    cases phase with
    | deleting target =>
      obtain rfl := Option.some.inj hw
      simp only [SuperuserCondition] at hc
      by_cases hrole : orSuperuser target.role = "superuser"
      · rw [if_pos hrole] at hc
        exact Or.inr (Or.inr ⟨by simp [AdminThread.guarded, hrole], hc⟩)
      · rw [if_neg hrole] at hc
        refine Or.inl fun x hx => ?_
        obtain rfl := Option.some.inj hx
        exact hc
    | _ => cases hw
  | setRole u r phase =>
    cases phase with
    | updating current =>
      obtain rfl := Option.some.inj hw
      by_cases hcur : current = "superuser"
      · simp only [SuperuserCondition, hcur, if_true] at hc
        rcases hc with rfl | hc
        · exact Or.inl (by simp [Write.demotes])
        · exact Or.inr (Or.inr ⟨by simp [AdminThread.guarded, hcur], hc⟩)
      · simp only [SuperuserCondition, hcur, if_false] at hc
        rcases hsso u r (hc.imp_right Or.inl) with h | h
        · exact Or.inl h
        · exact Or.inr (Or.inl h)
    | purging =>
      obtain rfl := Option.some.inj hw
      exact Or.inl (by simp [Write.demotes])
    | _ => cases hw
  | sso u r phase =>
    cases phase with
    | adopting | syncing =>
      obtain rfl := Option.some.inj hw
      rcases hsso u r hc with h | h
      · exact Or.inl h
      · exact Or.inr (Or.inl h)
    | adding | minting =>
      obtain rfl := Option.some.inj hw
      exact Or.inl (by simp [Write.demotes])
    | reading => cases hw
  | login u p phase | add u p r a phase | change u c n p phase | force u c p phase
  | reset u p phase =>
    refine Or.inl ?_
    cases phase <;> simp_all [AdminThread.write, Write.demotes] <;> simp [← hw]
  | resolve token =>
    obtain rfl := Option.some.inj hw
    exact Or.inl (by simp [Write.demotes])

theorem superuser_assertions (cfg : Settings) :
    Assertions (accounts cfg) SuperuserCondition OneSuperuser
      (fun s th => th.guarded = true → TwoSuperusers s) where
  entry := by
    intro s th _ hentry hg
    cases th with
    | remove u phase | setRole u r phase =>
      obtain rfl := hentry
      simp [AdminThread.guarded] at hg
    | _ => simp [AdminThread.guarded] at hg
  act := by
    rintro s pre post th e s' th' hc hone hall ⟨env, hstep⟩
    have hstate : s' = ((th.write cfg env).map (Write.apply cfg env s)).getD s := by
      rw [← adminStep_state, hstep]
    have hown : th.guarded = true → TwoSuperusers s := hall th (by simp)
    -- what a state with two superusers before the step gives the threads after it
    have hkeep : OneSuperuser s' → (TwoSuperusers s → TwoSuperusers s') →
        OneSuperuser s' ∧ (∀ x ∈ th', x.guarded = true → TwoSuperusers s') ∧
          ∀ x, x ∈ pre ∨ x ∈ post → x.guarded = true → TwoSuperusers s' := by
      intro hone' htwo
      refine ⟨hone', ?_, ?_⟩
      · rintro x hx hg
        obtain rfl := Option.mem_def.mp hx
        exact htwo ((guarded_next hstep hg).2.elim hown id)
      · intro x hx hg
        exact htwo (hall x (by rcases hx with hx | hx <;> simp [hx]) hg)
    cases hw : th.write cfg env with
    | none =>
      rw [hw] at hstate
      obtain rfl : s' = s := hstate
      exact hkeep hone id
    | some w =>
      rw [hw] at hstate
      obtain rfl : s' = w.apply cfg env s := hstate
      have hended : ∀ x ∈ th', x.guarded = true → TwoSuperusers (w.apply cfg env s) := by
        rintro x hx hg
        obtain rfl := Option.mem_def.mp hx
        rw [(guarded_next hstep hg).1] at hw
        cases hw
      rcases write_cases hc hw with hnobody | ⟨htwo, hnone⟩ | ⟨hg, honly⟩
      · obtain ⟨hone', htwo'⟩ := @superusers_kept cfg env _ _ hnobody
        exact hkeep (hone' hone) htwo'
      · refine ⟨one_left htwo w, hended, ?_⟩
        intro x hx hg
        have := List.countP_eq_zero.mp hnone x (by rcases hx with hx | hx <;> simp [hx])
        exact absurd hg this
      · refine ⟨one_left (hown hg) w, hended, ?_⟩
        intro x hx hgx
        simp only [List.countP_append, List.countP_cons, hg, if_true] at honly
        have hpre := List.countP_eq_zero.mp (show pre.countP AdminThread.guarded = 0 by omega)
        have hpost := List.countP_eq_zero.mp (show post.countP AdminThread.guarded = 0 by omega)
        exact absurd hgx (hx.elim (hpre x) (hpost x))

/-- There is always a superuser, in runs whose steps meet the condition. -/
theorem always_a_superuser (cfg : Settings) : SuperuserLaw cfg SuperuserCondition := by
  intro s hs log p run
  exact ((superuser_assertions cfg).run run (holds_start hs)).1

/-! Two superusers who demote each other at the same time: both guards count two. -/

def sampleSettings : Settings := ⟨fun password salt _ => password ++ salt, id, fun _ => none⟩

def sampleFresh : Fresh := ⟨0, "salt", by decide, "token", fun _ => true, true, false⟩

def sampleAdministrator (username : String) : Administrator :=
  ⟨username, hashPassword sampleSettings "old" "salt", "salt", false, none, some "superuser", false⟩

def sampleAccounts : Accounts :=
  ⟨(Table.empty.put (sampleAdministrator "a")).put (sampleAdministrator "b"), Table.empty,
    fun _ => 0⟩

def demote (username : String) : AdminThread := .setRole username "auditor" .reading

/-- The two requests take turns, step by step. -/
def demotions : List (Choice AdminThread Fresh) :=
  [.call (demote "a"), .call (demote "b"), .act 0 sampleFresh, .act 1 sampleFresh,
    .act 0 sampleFresh, .act 1 sampleFresh, .act 0 sampleFresh, .act 1 sampleFresh,
    .act 0 sampleFresh, .act 1 sampleFresh]

theorem two_demotions_leave_no_superuser :
    ¬ SuperuserLaw sampleSettings fun _ _ => True := by
  intro hlaw
  have run := @plays_run _ _ _ (accounts sampleSettings) _ (adminStep sampleSettings)
    (fun env _ _ => ⟨env, rfl⟩) sampleAccounts demotions (by simp [demotions, demote, accounts,
      Entry]) ⟨sampleAccounts, []⟩
  obtain ⟨u, a, ha, hrole⟩ := hlaw sampleAccounts ⟨"a", _, rfl, rfl⟩ _ _
    (run.restrict fun _ _ => trivial)
  have hcount : 0 < countAdministratorsByRole (plays (adminStep sampleSettings) demotions
      ⟨sampleAccounts, []⟩).2.shared "superuser" :=
    Table.count_pos.mpr ⟨u, a, ha, decide_eq_true hrole⟩
  exact absurd hcount (by decide)

end AdminAccounts
