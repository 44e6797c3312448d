import SysibleController.Superusers

/-! A password change is final: logins with their transparent rehash beside the three handlers
that change a password. -/
namespace AdminAccounts

open KeyedTable PythonText TransitionSystem Interleaving

def PasswordThread : AdminThread → Prop
  | .login .. | .change .. | .force .. | .reset .. => True
  | _ => False

/-- The handlers that read or change passwords, without the others. -/
def passwords (cfg : Settings) : Program Accounts AdminThread AdminEvent :=
  ⟨fun th => Entry th ∧ PasswordThread th, (accounts cfg).act⟩

/-- The accounts a change is on: with a rename, the old name and the new one. -/
def AdminThread.changes : AdminThread → List String
  | .change u _ n _ _ => [u, changeTarget u n]
  | .force u _ _ _ | .reset u _ _ => [u]
  | _ => []

/-- Changes of one account do not overlap, and the rehash of a login finds a row that still
accepts the password it has verified, with the must_change_password it has read. -/
def PasswordCondition (cfg : Settings) (p : AccountPool) : AccountEvent → Prop
  | .call th => ∀ x ∈ p.threads, ∀ u ∈ th.changes, u ∉ x.changes
  | .act (.login u pw (.rehashing admin _)) _ =>
    ∀ row, p.shared.administrators.find u = some row →
      row.accepts cfg pw = true ∧ row.mustChangePassword = admin.mustChangePassword
  | _ => True

/-- PBKDF2 does not tell the two passwords apart: they are equal, or collide under every
salt. -/
def Same (cfg : Settings) (x y : String) : Prop :=
  ∀ salt n, cfg.pbkdf2 x salt n = cfg.pbkdf2 y salt n

/-- Passwords that collide under one salt and count collide under all of them. -/
def Settings.Uniform (cfg : Settings) : Prop :=
  ∀ x y salt n, cfg.pbkdf2 x salt n = cfg.pbkdf2 y salt n → Same cfg x y

/-- The row of `u` accepts `password` and nothing else, and has this must_change_password. -/
def Stored (cfg : Settings) (s : Accounts) (u password : String) (must : Bool) : Prop :=
  ∃ row, s.administrators.find u = some row ∧
    (∀ x, row.accepts cfg x = true ↔ Same cfg x password) ∧ row.mustChangePassword = must

/-- After a change has returned and until another one of the account is called, its password
and its must_change_password are the stored ones. -/
def PasswordLaw (cfg : Settings) (C : AccountPool → AccountEvent → Prop) : Prop :=
  ∀ s log p th u password must q log' r,
    (((passwords cfg).machine s).restrict C).Run ((passwords cfg).machine s).start log p →
    (((passwords cfg).machine s).restrict C).step p (.act th (.changed u password must)) q →
    (((passwords cfg).machine s).restrict C).Run q log' r →
    (∀ x, .call x ∈ log' → u ∉ x.changes) → Stored cfg r.shared u password must

/-! ## One row -/

variable {cfg : Settings} {env : Fresh} {s s' : Accounts} {u password : String} {must : Bool}

theorem verify_hashPassword (x salt : String) (hsalt : salt ≠ "") :
    verifyPassword cfg x salt (hashPassword cfg password salt) = true ↔
      cfg.pbkdf2 x salt pbkdf2Iterations = cfg.pbkdf2 password salt pbkdf2Iterations := by
  have hdollar : (hashPassword cfg password salt).toList.contains '$' = true := by
    simp [hashPassword]
  have hne : hashPassword cfg password salt ≠ "" := by
    intro h
    rw [h] at hdollar
    simp at hdollar
  have hparts : partition '$' (hashPassword cfg password salt) =
      ("600000", cfg.pbkdf2 password salt pbkdf2Iterations) := partition_append (by decide)
  have hint : PythonInt.pyInt "600000".toList = some 600000 := by decide
  unfold verifyPassword
  rw [if_neg (by simp [hsalt, hne]), if_pos hdollar, hparts]
  dsimp only
  rw [hint]
  have hpos : decide ((0 : ℤ) < 600000) = true := by decide
  dsimp only
  rw [hpos, Bool.true_and]
  exact decide_eq_true_iff

theorem accepts_withPassword (hcfg : cfg.Uniform) (a : Administrator) (x : String) :
    (a.withPassword (hashPassword cfg password env.salt) env.salt must).accepts cfg x = true ↔
      Same cfg x password := by
  unfold Administrator.accepts Administrator.withPassword
  rw [verify_hashPassword x env.salt env.salted]
  exact ⟨hcfg _ _ _ _, fun h => h _ _⟩

def HasRow (s : Accounts) (u : String) : Prop := ∃ row, s.administrators.find u = some row

theorem stored_of_store (hcfg : cfg.Uniform) (h : HasRow s u) :
    Stored cfg (updateAdministratorPassword s u (hashPassword cfg password env.salt) env.salt
      must) u password must := by
  obtain ⟨row, hrow⟩ := h
  exact ⟨row.withPassword (hashPassword cfg password env.salt) env.salt must, by simp [hrow],
    accepts_withPassword hcfg row, rfl⟩

theorem Stored.of_find (h : Stored cfg s u password must)
    (hfind : s'.administrators.find u = s.administrators.find u) :
    Stored cfg s' u password must := by
  obtain ⟨row, hrow, hrest⟩ := h
  exact ⟨row, hfind.trans hrow, hrest⟩

theorem HasRow.of_find (h : HasRow s u)
    (hfind : s'.administrators.find u = s.administrators.find u) : HasRow s' u := by
  obtain ⟨row, hrow⟩ := h
  exact ⟨row, hfind.trans hrow⟩

/-- A rename touches the rows of its two names only. -/
theorem rename_find {v n : String} (h : updateAdministratorUsername s v n = some s')
    (hv : u ≠ v) (hn : u ≠ n) : s'.administrators.find u = s.administrators.find u := by
  unfold updateAdministratorUsername at h
  split at h
  · rw [← Option.some.inj h]
  · split at h
    · cases h
    · rw [← Option.some.inj h]
      simp only [Table.find_put, if_neg hn, Table.find_deleteWhere]
      cases hrow : s.administrators.find u with
      | none => rfl
      | some a => simp [Table.key_of_find hrow, hv]

theorem rename_hasRow {v n : String} (h : updateAdministratorUsername s v n = some s')
    (hrow : HasRow s v) : HasRow s' n := by
  obtain ⟨row, hrow⟩ := hrow
  unfold updateAdministratorUsername at h
  rw [hrow] at h
  dsimp only at h
  split at h
  · cases h
  · rw [← Option.some.inj h]
    exact ⟨{ row with username := n }, by simp⟩

/-! ## What a call relies on -/

/-- What is known of the rows at each point of a change. -/
def Known (cfg : Settings) (s : Accounts) : AdminThread → Prop
  | .change u _ n _ (.renamingUser name) => name = changeTarget u n ∧ HasRow s u
  | .change u _ n _ (.checking name) | .change u _ n _ (.storing name) =>
    (name = u ∨ name = changeTarget u n) ∧ HasRow s name
  | .change u _ n pw (.purgingOld name) | .change u _ n pw (.purgingNew name) =>
    (name = u ∨ name = changeTarget u n) ∧ (pw ≠ "" → Stored cfg s name pw false)
  | .force u _ _ .checking | .force u _ _ .storing | .reset u _ .checking
  | .reset u _ .storing => HasRow s u
  | .force u _ pw .purging => Stored cfg s u pw false
  | .reset u pw .purging => Stored cfg s u pw true
  | _ => True

/-- What another call knows is about its own accounts only. -/
theorem Known.keep {th : AdminThread} (h : Known cfg s th)
    (hrow : ∀ u ∈ th.changes, HasRow s u → HasRow s' u)
    (hstored : ∀ u ∈ th.changes, ∀ pw must, Stored cfg s u pw must → Stored cfg s' u pw must) :
    Known cfg s' th := by
  cases th with
  | change u c n pw phase =>
    cases phase with
    | reading => trivial
    | renamingUser name => exact ⟨h.1, hrow u (by simp [AdminThread.changes]) h.2⟩
    | checking name | storing name =>
      exact ⟨h.1, hrow name (by simpa [AdminThread.changes] using h.1) h.2⟩
    | purgingOld name | purgingNew name =>
      exact ⟨h.1, fun hpw => hstored name (by simpa [AdminThread.changes] using h.1) _ _ (h.2 hpw)⟩
  | force u c pw phase | reset u pw phase =>
    cases phase with
    | reading => trivial
    | checking | storing => exact hrow u (by simp [AdminThread.changes]) h
    | purging => exact hstored u (by simp [AdminThread.changes]) _ _ h
  | _ => trivial

/-- A step of a password thread leaves the rows it does not change as they are, but for a
rehash that the condition allows. -/
theorem step_row (hcfg : cfg.Uniform) {p : AccountPool} {th : AdminThread}
    {th' : Option AdminThread} {e : AdminEvent} (hth : PasswordThread th)
    (hknown : Known cfg p.shared th) (hc : PasswordCondition cfg p (.act th e))
    (h : adminStep cfg env p.shared th = (s', e, th')) (hu : u ∉ th.changes) :
    (HasRow p.shared u → HasRow s' u) ∧
      ∀ pw must, Stored cfg p.shared u pw must → Stored cfg s' u pw must := by
  have hstate : s' = ((th.write cfg env).map (Write.apply cfg env p.shared)).getD p.shared := by
    rw [← adminStep_state, h]
  have hsame : s'.administrators.find u = p.shared.administrators.find u →
      (HasRow p.shared u → HasRow s' u) ∧
        ∀ pw must, Stored cfg p.shared u pw must → Stored cfg s' u pw must :=
    fun hfind => ⟨fun h => h.of_find hfind, fun _ _ h => h.of_find hfind⟩
  cases th with
  | login v pw phase =>
    cases phase with
    | reading =>
      apply hsame
      rw [hstate]
      rfl
    | minting admin epoch =>
      apply hsame
      rw [hstate]
      rfl
    | rehashing admin epoch =>
      have hs' : s' = storePassword p.shared v (hashPassword cfg pw env.salt) env.salt
        admin.mustChangePassword := hstate
      by_cases huv : u = v
      · subst huv
        refine ⟨?_, ?_⟩
        · rintro ⟨row, hrow⟩
          exact ⟨_, by rw [hs', storePassword_find, if_pos rfl, hrow]; rfl⟩
        · rintro x must ⟨row, hrow, haccepts, hmust⟩
          obtain ⟨hpw, hflag⟩ := hc row hrow
          have hsamepw : Same cfg pw x := (haccepts pw).mp hpw
          refine ⟨row.withPassword (hashPassword cfg pw env.salt) env.salt
            admin.mustChangePassword, by simp [hs', hrow], ?_, hflag ▸ hmust⟩
          intro y
          rw [accepts_withPassword hcfg]
          exact ⟨fun hy salt n => (hy salt n).trans (hsamepw salt n),
            fun hy salt n => (hy salt n).trans (hsamepw salt n).symm⟩
      · apply hsame
        rw [hs', storePassword_find, if_neg huv]
  | change v c n pw phase =>
    obtain ⟨huv, hun⟩ : u ≠ v ∧ u ≠ changeTarget v n := by
      simpa [AdminThread.changes] using hu
    apply hsame
    cases phase with
    | reading | checking =>
      rw [hstate]
      rfl
    | renamingUser name =>
      rw [hstate]
      simp only [AdminThread.write, Option.map_some, Option.getD_some, Write.apply]
      cases hr : updateAdministratorUsername p.shared v name with
      | none => rfl
      | some s'' => exact rename_find hr huv (by rw [hknown.1]; exact hun)
    | storing name =>
      have hname : u ≠ name := by
        rcases hknown.1 with h | h
        · rwa [h]
        · rwa [h]
      rw [hstate]
      simp [AdminThread.write, Write.apply, hname]
    | purgingOld name | purgingNew name =>
      rw [hstate]
      simp [AdminThread.write, Write.apply]
  | force v c pw phase | reset v pw phase =>
    have huv : u ≠ v := by simpa [AdminThread.changes] using hu
    apply hsame
    rw [hstate]
    cases phase <;> simp [AdminThread.write, Write.apply, huv]
  | _ => exact absurd hth id

/-- A step keeps the accounts a call is on and what it knows of them. -/
theorem step_known (hcfg : cfg.Uniform) {th th' : AdminThread} {e : AdminEvent}
    (hth : PasswordThread th) (hknown : Known cfg s th)
    (h : adminStep cfg env s th = (s', e, some th')) :
    PasswordThread th' ∧ th'.changes = th.changes ∧ Known cfg s' th' := by
  cases th with
  | login v pw phase =>
    simp only [adminStep, Next.thread, Prod.mk.injEq, Option.map_eq_some_iff] at h
    obtain ⟨-, -, phase', -, rfl⟩ := h
    exact ⟨trivial, rfl, trivial⟩
  | change v c n pw phase =>
    have hnext : ∃ phase', (changeStep cfg env s v c n pw phase).2.2 = some phase' ∧
        th' = .change v c n pw phase' := by
      simp only [adminStep, Next.thread, Prod.mk.injEq, Option.map_eq_some_iff] at h
      obtain ⟨-, -, phase', hphase, rfl⟩ := h
      exact ⟨phase', hphase, rfl⟩
    obtain ⟨phase', hphase, rfl⟩ := hnext
    refine ⟨trivial, rfl, ?_⟩
    have hstate : s' = (((AdminThread.change v c n pw phase).write cfg env).map
        (Write.apply cfg env s)).getD s := by
      rw [← adminStep_state, h]
    cases phase with
    | reading =>
      obtain rfl : s' = s := hstate
      simp only [changeStep, getAdministrator] at hphase
      cases hrow : s'.administrators.find v with
      | none => simp [hrow] at hphase
      | some admin =>
        rw [hrow] at hphase
        dsimp only at hphase
        split at hphase
        · cases hphase
        · split at hphase
          · obtain rfl := Option.some.inj hphase
            exact ⟨rfl, admin, hrow⟩
          · split at hphase
            · obtain rfl := Option.some.inj hphase
              exact ⟨Or.inl rfl, admin, hrow⟩
            · cases hphase
    | renamingUser name =>
      obtain ⟨hname, hrow⟩ := hknown
      simp only [changeStep] at hphase
      split at hphase
      · cases hphase
      · rename_i renamed hrenamed
        have hs' : s' = renamed := by
          rw [hstate]
          simp [AdminThread.write, Write.apply, hrenamed]
        obtain rfl := Option.some.inj hphase
        rw [hs']
        unfold afterRename
        split
        · exact ⟨Or.inr hname, rename_hasRow hrenamed hrow⟩
        · rename_i hpw
          exact ⟨Or.inr hname, fun hne => absurd hne hpw⟩
    | checking name =>
      obtain rfl : s' = s := hstate
      simp only [changeStep] at hphase
      split at hphase
      · obtain rfl := Option.some.inj hphase
        exact hknown
      · cases hphase
    | storing name =>
      obtain rfl := Option.some.inj hphase
      rw [hstate]
      exact ⟨hknown.1, fun _ => stored_of_store hcfg hknown.2⟩
    | purgingOld name =>
      simp only [changeStep] at hphase
      split at hphase
      · obtain rfl := Option.some.inj hphase
        rw [hstate]
        refine ⟨hknown.1, fun hpw => (hknown.2 hpw).of_find ?_⟩
        simp [AdminThread.write, Write.apply]
      · cases hphase
    | purgingNew name => cases hphase
  | force v c pw phase | reset v pw phase =>
    simp only [adminStep, Next.thread, Prod.mk.injEq, Option.map_eq_some_iff] at h
    obtain ⟨rfl, -, phase', hphase, rfl⟩ := h
    refine ⟨trivial, rfl, ?_⟩
    cases phase with
    | reading =>
      simp only [forceStep, resetStep, storeStep, getAdministrator] at hphase ⊢
      cases hrow : s.administrators.find v with
      | none => simp [hrow] at hphase
      | some admin =>
        rw [hrow] at hphase
        dsimp only at hphase ⊢
        split at hphase
        · cases hphase
        · rename_i hcurrent
          rw [if_neg hcurrent]
          split at hphase
          · cases hphase
          · rename_i hpw
            rw [if_neg hpw]
            obtain rfl := Option.some.inj hphase
            exact ⟨admin, hrow⟩
    | checking =>
      simp only [forceStep, resetStep, storeStep] at hphase ⊢
      split at hphase
      · rename_i hok
        rw [if_pos hok]
        obtain rfl := Option.some.inj hphase
        exact hknown
      · cases hphase
    | storing =>
      obtain rfl := Option.some.inj hphase
      exact stored_of_store hcfg hknown
    | purging => cases hphase
  | _ => exact absurd hth id

/-- A change that returns leaves its password stored. -/
theorem changed_stored {th : AdminThread} {th' : Option AdminThread} (hth : PasswordThread th)
    (hknown : Known cfg s th)
    (h : adminStep cfg env s th = (s', .changed u password must, th')) :
    Stored cfg s' u password must ∧ u ∈ th.changes ∧ th' = none := by
  have hstate : s' = ((th.write cfg env).map (Write.apply cfg env s)).getD s := by
    rw [← adminStep_state, h]
  cases th with
  | login v pw phase =>
    cases phase <;> simp only [adminStep, loginStep, Next.thread] at h <;> grind
  | change v c n pw phase =>
    have hpurged : ∀ name, (name = v ∨ name = changeTarget v n) ∧
        (pw ≠ "" → Stored cfg s name pw false) → s'.administrators = s.administrators →
        (if pw ≠ "" then AdminEvent.changed name pw false else .done) = .changed u password must →
        Stored cfg s' u password must ∧ u ∈ (AdminThread.change v c n pw phase).changes := by
      rintro name ⟨hname, hstored⟩ hadmin he
      by_cases hpw : pw = ""
      · simp [hpw] at he
      · simp only [ne_eq, hpw, not_false_eq_true, if_true, AdminEvent.changed.injEq] at he
        obtain ⟨rfl, rfl, rfl⟩ := he
        refine ⟨(hstored hpw).of_find (by rw [hadmin]), ?_⟩
        simpa [AdminThread.changes] using hname
    cases phase with
    | purgingOld name =>
      have hadmin : s'.administrators = s.administrators := by
        rw [hstate]
        simp [AdminThread.write, Write.apply]
      simp only [adminStep, changeStep, Next.thread] at h
      by_cases hname : name = v
      · simp only [hname, ne_eq, not_true_eq_false, if_false, Prod.mk.injEq] at h
        obtain ⟨hs, hm⟩ := hpurged name hknown hadmin (by rw [hname]; exact h.2.1)
        exact ⟨hs, hm, h.2.2.symm⟩
      · simp [hname] at h
    | purgingNew name =>
      have hadmin : s'.administrators = s.administrators := by
        rw [hstate]
        simp [AdminThread.write, Write.apply]
      simp only [adminStep, changeStep, Next.thread, Prod.mk.injEq] at h
      obtain ⟨hs, hm⟩ := hpurged name hknown hadmin h.2.1
      exact ⟨hs, hm, h.2.2.symm⟩
    | _ =>
      simp only [adminStep, changeStep, Next.thread] at h
      grind
  | force v c pw phase =>
    cases phase with
    | purging =>
      simp only [adminStep, forceStep, storeStep, Next.thread, Prod.mk.injEq,
        AdminEvent.changed.injEq] at h
      obtain ⟨rfl, ⟨rfl, rfl, rfl⟩, rfl⟩ := h
      exact ⟨Stored.of_find hknown (by simp), by simp [AdminThread.changes], rfl⟩
    | _ =>
      simp only [adminStep, forceStep, storeStep, Next.thread] at h
      grind
  | reset v pw phase =>
    cases phase with
    | purging =>
      simp only [adminStep, resetStep, storeStep, Next.thread, Prod.mk.injEq,
        AdminEvent.changed.injEq] at h
      obtain ⟨rfl, ⟨rfl, rfl, rfl⟩, rfl⟩ := h
      exact ⟨Stored.of_find hknown (by simp), by simp [AdminThread.changes], rfl⟩
    | _ =>
      simp only [adminStep, resetStep, storeStep, Next.thread] at h
      grind
  | _ => exact absurd hth id

/-! ## Runs -/

/-- Every call knows what it relies on, and no two changes are of one account. -/
structure Apart (cfg : Settings) (p : AccountPool) : Prop where
  known : ∀ th ∈ p.threads, PasswordThread th ∧ Known cfg p.shared th
  disjoint : p.threads.Pairwise fun x y => ∀ u ∈ x.changes, u ∉ y.changes

theorem step_apart (hcfg : cfg.Uniform) {p q : AccountPool} {e : AccountEvent}
    (st : Steps (passwords cfg) p e q) (hc : PasswordCondition cfg p e) (hp : Apart cfg p) :
    Apart cfg q := by
  cases st with
  | @call s ts th hentry =>
    refine ⟨?_, List.pairwise_cons.mpr ⟨fun x hx u hu => hc x hx u hu, hp.disjoint⟩⟩
    intro x hx
    rcases List.mem_cons.mp hx with rfl | hx
    · refine ⟨hentry.2, ?_⟩
      have hphase := hentry.1
      cases x <;> simp_all [Entry, Known]
    · exact hp.known x hx
  | @act s s' pre post th th' e hact =>
    obtain ⟨env, hstep⟩ := hact
    obtain ⟨hth, hknown⟩ := hp.known th (by simp)
    have hdisjoint := hp.disjoint
    simp only [List.pairwise_append, List.pairwise_cons] at hdisjoint
    obtain ⟨hpre, ⟨hthpost, hpost⟩, hcross⟩ := hdisjoint
    -- the other calls are on other accounts
    have hother : ∀ x, x ∈ pre ∨ x ∈ post → ∀ u ∈ x.changes, u ∉ th.changes := by
      rintro x (hx | hx) u hu hut
      · exact hcross x hx th (by simp) u hu hut
      · exact hthpost x hx u hut hu
    have hkeep : ∀ x, x ∈ pre ∨ x ∈ post → PasswordThread x ∧ Known cfg s' x := by
      intro x hx
      obtain ⟨hxth, hxknown⟩ := hp.known x (by simp only [List.mem_append, List.mem_cons]; tauto)
      refine ⟨hxth, hxknown.keep ?_ ?_⟩
      · exact fun u hu => (step_row hcfg hth hknown hc hstep (hother x hx u hu)).1
      · exact fun u hu => (step_row hcfg hth hknown hc hstep (hother x hx u hu)).2
    cases th' with
    | none =>
      refine ⟨?_, ?_⟩
      · intro x hx
        exact hkeep x (by simpa using hx)
      · simp only [Option.toList_none, List.append_nil, List.pairwise_append]
        exact ⟨hpre, hpost, fun x hx y hy => hcross x hx y (by simp [hy])⟩
    | some next =>
      obtain ⟨hnext, hchanges, hnextknown⟩ := step_known hcfg hth hknown hstep
      refine ⟨?_, ?_⟩
      · intro x hx
        simp only [Option.toList_some, List.mem_append, List.mem_singleton] at hx
        rcases hx with (hx | rfl) | hx
        · exact hkeep x (Or.inl hx)
        · exact ⟨hnext, hnextknown⟩
        · exact hkeep x (Or.inr hx)
      · simp only [Option.toList_some, List.append_assoc, List.singleton_append,
          List.pairwise_append, List.pairwise_cons, hchanges]
        refine ⟨hpre, ⟨hthpost, hpost⟩, ?_⟩
        intro x hx y hy
        rcases List.mem_cons.mp hy with rfl | hy
        · rw [hchanges]
          exact hcross x hx th (by simp)
        · exact hcross x hx y (by simp [hy])

theorem run_apart (hcfg : cfg.Uniform) {p q : AccountPool} {log : List AccountEvent}
    (run : (((passwords cfg).machine s).restrict (PasswordCondition cfg)).Run p log q)
    (hp : Apart cfg p) : Apart cfg q := by
  refine run.invariant ?_ hp
  rintro p e q ⟨hc, st⟩
  exact step_apart hcfg st hc

/-- No call in progress changes the account, and its password is the stored one. -/
def Settled (cfg : Settings) (p : AccountPool) (u password : String) (must : Bool) : Prop :=
  (∀ x ∈ p.threads, u ∉ x.changes) ∧ Stored cfg p.shared u password must

theorem step_settled (hcfg : cfg.Uniform) {p q : AccountPool} {e : AccountEvent}
    (st : Steps (passwords cfg) p e q) (hc : PasswordCondition cfg p e) (hp : Apart cfg p)
    (hcall : ∀ x, e = .call x → u ∉ x.changes) (h : Settled cfg p u password must) :
    Settled cfg q u password must := by
  obtain ⟨hquiet, hstored⟩ := h
  cases st with
  | call hentry =>
    refine ⟨?_, hstored⟩
    intro x hx
    rcases List.mem_cons.mp hx with rfl | hx
    · exact hcall x rfl
    · exact hquiet x hx
  | @act s s' pre post th th' e hact =>
    obtain ⟨env, hstep⟩ := hact
    obtain ⟨hth, hknown⟩ := hp.known th (by simp)
    have hu : u ∉ th.changes := hquiet th (by simp)
    refine ⟨?_, (step_row hcfg hth hknown hc hstep hu).2 _ _ hstored⟩
    intro x hx
    rcases mem_moved th hx with hx | hx
    · obtain rfl := Option.mem_def.mp hx
      rw [(step_known hcfg hth hknown hstep).2.1]
      exact hu
    · exact hquiet x hx

theorem run_settled (hcfg : cfg.Uniform) {p q : AccountPool} {log : List AccountEvent}
    (run : (((passwords cfg).machine s).restrict (PasswordCondition cfg)).Run p log q)
    (hp : Apart cfg p) (hcall : ∀ x, .call x ∈ log → u ∉ x.changes)
    (h : Settled cfg p u password must) : Settled cfg q u password must := by
  induction run with
  | nil => exact h
  | snoc run st ih =>
    have hlast := ih (fun x hx => hcall x (by simp [hx]))
    exact step_settled hcfg st.2 st.1 (run_apart hcfg run hp)
      (fun x hx => hcall x (by simp [hx])) hlast

/-- A password change is final, in runs whose steps meet the condition. -/
theorem password_change_is_final (cfg : Settings) (hcfg : cfg.Uniform) :
    PasswordLaw cfg (PasswordCondition cfg) := by
  rintro s log p th u password must q log' r run ⟨hc, st⟩ run' hcall
  have hp : Apart cfg p := by
    refine run_apart hcfg run ⟨?_, ?_⟩
    · intro th hth
      cases hth
    · exact .nil
  have hq : Apart cfg q := step_apart hcfg st hc hp
  refine (run_settled hcfg run' hq hcall ?_).2
  cases st with
  | @act s s' pre post th th' e hact =>
    obtain ⟨env, hstep⟩ := hact
    obtain ⟨hth, hknown⟩ := hp.known th (by simp)
    obtain ⟨hstored, hu, rfl⟩ := changed_stored hth hknown hstep
    refine ⟨?_, hstored⟩
    have hdisjoint := hp.disjoint
    simp only [List.pairwise_append, List.pairwise_cons] at hdisjoint
    obtain ⟨-, ⟨hthpost, -⟩, hcross⟩ := hdisjoint
    intro x hx hux
    simp only [Option.toList_none, List.append_nil, List.mem_append] at hx
    rcases hx with hx | hx
    · exact hcross x hx th (by simp) u hux hu
    · exact hthpost x hx u hu hux

theorem sampleSettings_uniform : sampleSettings.Uniform := by
  intro x y salt n h salt' n'
  obtain rfl : x = y := by
    have h : x ++ salt = y ++ salt := h
    rwa [String.append_left_inj] at h
  rfl

theorem sample_change_is_final : PasswordLaw sampleSettings (PasswordCondition sampleSettings) :=
  password_change_is_final sampleSettings sampleSettings_uniform

/-! A login that has verified the old password against a hash from before the iteration count
was raised rehashes it after a completed reset. -/

def sampleLegacy : Accounts :=
  ⟨Table.empty.put ⟨"a", "oldsalt", "salt", false, none, some "superuser", false⟩, .empty,
    fun _ => 0⟩

def resetBesideLogin : List (Choice AdminThread Fresh) :=
  [.call (.login "a" "old" .reading), .act 0 sampleFresh, .call (.reset "a" "new" .reading),
    .act 0 sampleFresh, .act 0 sampleFresh, .act 0 sampleFresh]

def sampleReset : AccountPool :=
  (plays (adminStep sampleSettings) resetBesideLogin ⟨sampleLegacy, []⟩).2

def staleLogin : AdminThread :=
  .login "a" "old"
    (.rehashing ⟨"a", "oldsalt", "salt", false, none, some "superuser", false⟩ 0)

theorem rehash_undoes_reset : ¬ PasswordLaw sampleSettings fun _ _ => True := by
  intro hlaw
  have run := @plays_run _ _ _ (passwords sampleSettings) _ (adminStep sampleSettings)
    (fun env _ _ => ⟨env, rfl⟩) sampleLegacy resetBesideLogin
    (by simp [resetBesideLogin, passwords, PasswordThread, Entry]; decide) ⟨sampleLegacy, []⟩
  have hthreads : sampleReset.threads = [.reset "a" "new" .purging, staleLogin] := by
    decide
  have hpool : sampleReset = ⟨sampleReset.shared, [.reset "a" "new" .purging, staleLogin]⟩ := by
    rw [← hthreads]
  change Machine.Run _ _ _ sampleReset at run
  rw [hpool] at run
  have returns := @Steps.first_ends _ _ _ (passwords sampleSettings) sampleReset.shared _
    (.reset "a" "new" .purging) [staleLogin] _ ⟨sampleFresh, rfl⟩
  have rehashes := @Steps.first _ _ _ (passwords sampleSettings)
    (deleteAdminTokensForUser sampleReset.shared "a") _ staleLogin _ [] _ ⟨sampleFresh, rfl⟩
  obtain ⟨row, hrow, haccepts, -⟩ := hlaw _ _ _ _ "a" "new" true _ _ _
    (run.restrict fun _ _ => trivial) ⟨trivial, returns⟩ (.single ⟨trivial, rehashes⟩) (by simp)
  have hold : row.accepts sampleSettings "old" = true := by
    have hsome : (getAdministrator (storePassword (deleteAdminTokensForUser sampleReset.shared "a")
        "a" (hashPassword sampleSettings "old" "salt") "salt" false) "a").map
        (fun row => row.accepts sampleSettings "old") = some true := by decide
    obtain ⟨row', hrow', hok⟩ := Option.map_eq_some_iff.mp hsome
    rwa [Option.some.inj (hrow.symm.trans hrow')]
  exact absurd ((haccepts "old").mp hold "" 0) (by decide)

end AdminAccounts
