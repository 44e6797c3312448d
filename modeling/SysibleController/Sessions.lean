import SysibleController.Superusers

/-! Login tokens and the events that should end them. A token is good while the epoch it
carries is the one its account is in. -/
namespace AdminAccounts

open KeyedTable PythonText TransitionSystem Interleaving

/-- The names whose tokens a call has yet to delete, once it has written to their accounts. -/
def AdminThread.willPurge : AdminThread → List String
  | .setRole u _ .purging => [u]
  | .change u _ _ _ (.checking name) | .change u _ _ _ (.storing name) =>
    if name ≠ u then [u, name] else []
  | .change u _ _ _ (.purgingOld name) => [u, name]
  | .change _ _ _ _ (.purgingNew name) => [name]
  | .force u _ _ .purging | .reset u _ .purging => [u]
  | _ => []

/-- Tokens are inserted in the epoch their credentials were verified in, for a name that is
not empty; SSO never writes a role that a token of the account carries; a rename is not
followed by a refused password; and no token is resolved between a write to its account and
the deletion of the account's tokens by the same call. -/
def SessionCondition (cfg : Settings) (p : AccountPool) : AccountEvent → Prop
  | .act (.login u _ (.minting _ epoch)) _ => epoch = p.shared.epoch u ∧ u ≠ ""
  | .act (.sso u _ (.minting epoch)) _ => epoch = p.shared.epoch u ∧ u ≠ ""
  | .act (.sso u r .adopting) _ | .act (.sso u r .syncing) _ =>
    ∀ k tok, p.shared.adminTokens.find k = some tok → tok.username = u →
      orSuperuser (some tok.role) ≠ orSuperuser (some r)
  | .act (.change u _ _ _ (.checking name)) (.refused _) => name = u
  | .act (.resolve token) _ =>
    ∀ tok, p.shared.adminTokens.find (cfg.tokenAtRest token) = some tok →
      ∀ th ∈ p.threads, tok.username ∉ th.willPurge
  | _ => True

/-- Without tokens, and with the history still to come. -/
def Accounts.begin (administrators : Table Administrator.username) : Accounts :=
  ⟨administrators, .empty, fun _ => 0⟩

/-- A token that is resolved to an identity carries the epoch its account is in. -/
def SessionLaw (cfg : Settings) (C : AccountPool → AccountEvent → Prop) : Prop :=
  ∀ administrators log p th token user role q,
    (((accounts cfg).machine (.begin administrators)).restrict C).Run
      ((accounts cfg).machine (.begin administrators)).start log p →
    (((accounts cfg).machine (.begin administrators)).restrict C).step p
      (.act th (.resolved token (some (user, role)))) q →
    ∃ tok, p.shared.adminTokens.find (cfg.tokenAtRest token) = some tok ∧
      tok.username = user ∧ tok.epoch = p.shared.epoch user

/-! ## Tokens that resolve to nothing -/

/-- The account has another role than the token. -/
def Dormant (s : Accounts) (tok : AdminToken) : Prop :=
  ∃ a, s.administrators.find tok.username = some a ∧
    orSuperuser a.role ≠ orSuperuser (some tok.role)

def Sound (s : Accounts) (tok : AdminToken) : Prop :=
  tok.epoch = s.epoch tok.username ∨ Dormant s tok

/-- Every token is sound, or a live call is about to delete it. -/
def TokensSound (p : AccountPool) : Prop :=
  ∀ k tok, p.shared.adminTokens.find k = some tok → tok.username ≠ "" ∧
    (Sound p.shared tok ∨ ∃ th ∈ p.threads, tok.username ∈ th.willPurge)

variable {cfg : Settings} {env : Fresh} {s s' : Accounts} {tok : AdminToken}

/-- A step that leaves the epoch of the account and its role alone. -/
theorem Sound.keep (h : Sound s tok) (hepoch : s'.epoch tok.username = s.epoch tok.username)
    (hrole : ∀ a, s.administrators.find tok.username = some a →
      ∃ a', s'.administrators.find tok.username = some a' ∧ a'.role = a.role) :
    Sound s' tok := by
  rcases h with h | ⟨a, ha, hne⟩
  · exact Or.inl (h.trans hepoch.symm)
  · obtain ⟨a', ha', hrole'⟩ := hrole a ha
    exact Or.inr ⟨a', ha', by rwa [hrole']⟩

theorem Sound.same (h : Sound s tok) (hepoch : s'.epoch = s.epoch)
    (hadmin : s'.administrators = s.administrators) : Sound s' tok :=
  h.keep (by rw [hepoch]) fun a ha => ⟨a, by rw [hadmin, ha], rfl⟩

theorem retire_epoch {u k : String} (h : k ≠ u) : (retire s u).epoch k = s.epoch k := by
  unfold retire
  split
  · simp [h]
  · rfl

theorem find_purged {u k : String}
    (h : (deleteAdminTokensForUser s u).adminTokens.find k = some tok) :
    s.adminTokens.find k = some tok ∧ (u ≠ "" → tok.username ≠ u) := by
  unfold deleteAdminTokensForUser at h
  split at h
  · rename_i hu
    exact ⟨h, fun hne => absurd hu hne⟩
  · simp only [Table.find_deleteWhere, Option.filter_eq_some_iff] at h
    exact ⟨h.1, fun _ => by simpa using h.2⟩

theorem find_removed {u k : String}
    (h : (removeAdministrator s u).adminTokens.find k = some tok) :
    s.adminTokens.find k = some tok ∧ tok.username ≠ u := by
  simp only [removeAdministrator, Table.find_deleteWhere, Option.filter_eq_some_iff] at h
  exact ⟨h.1, by simpa using h.2⟩

theorem find_resolved {token k : String} {now : ℚ}
    (h : (resolveAdminToken cfg s token now).2.adminTokens.find k = some tok) :
    s.adminTokens.find k = some tok := by
  unfold resolveAdminToken at h
  split at h
  · exact h
  · split at h
    · exact h
    · split at h
      · exact h
      · simp only [Table.find_deleteWhere, Option.filter_eq_some_iff] at h
        exact h.1

/-! ## What a write does to a token it leaves -/

/-- The names whose epoch a write may move. -/
def Write.retires : Write → List String
  | .role u _ | .adopt u _ | .remove u | .store u _ _ => [u]
  | .rename u n => [u, n]
  | _ => []

/-- A token of an account whose epoch the write cannot move stays sound. -/
theorem Sound.write (w : Write) (h : Sound s tok) (hw : tok.username ∉ w.retires) :
    Sound (w.apply cfg env s) tok := by
  cases w with
  | rehash u p must =>
    refine h.keep rfl fun a ha => ?_
    by_cases hu : tok.username = u
    · exact ⟨a.withPassword (hashPassword cfg p env.salt) env.salt must,
        by simp [Write.apply, hu ▸ ha, hu], rfl⟩
    · exact ⟨a, by simp [Write.apply, hu, ha], rfl⟩
  | mint u r epoch => exact h.same rfl rfl
  | role u r =>
    have hne : tok.username ≠ u := by simpa [Write.retires] using hw
    exact h.keep (retire_epoch hne) fun a ha => ⟨a, by simp [Write.apply, hne, ha], rfl⟩
  | adopt u r =>
    have hne : tok.username ≠ u := by simpa [Write.retires] using hw
    exact h.keep (retire_epoch hne) fun a ha => ⟨a, by simp [Write.apply, hne, ha], rfl⟩
  | add row =>
    simp only [Write.apply, addAdministrator]
    split
    · exact h
    · rename_i hfree
      refine h.keep rfl fun a ha => ⟨a, ?_, rfl⟩
      have hne : tok.username ≠ row.username := by
        intro he
        rw [he] at ha
        simp [ha] at hfree
      simp [hne, ha]
  | remove u =>
    have hne : tok.username ≠ u := by simpa [Write.retires] using hw
    refine h.keep (retire_epoch hne) fun a ha => ⟨a, ?_, rfl⟩
    simp [Write.apply, removeAdministrator, ha, Table.key_of_find ha, hne]
  | rename u n =>
    obtain ⟨hu, hn⟩ : tok.username ≠ u ∧ tok.username ≠ n := by simpa [Write.retires] using hw
    simp only [Write.apply, updateAdministratorUsername]
    split
    · exact h
    · split
      · exact h
      · refine h.keep (by simp [hu, hn]) fun a ha => ⟨a, ?_, rfl⟩
        simp [hn, ha, Table.key_of_find ha, hu]
  | store u p must =>
    have hne : tok.username ≠ u := by simpa [Write.retires] using hw
    exact h.keep (retire_epoch hne) fun a ha => ⟨a, by simp [Write.apply, hne, ha], rfl⟩
  | purge u =>
    refine h.same ?_ (by simp [Write.apply])
    simp only [Write.apply, deleteAdminTokensForUser]
    split <;> rfl
  | resolve token =>
    refine h.same ?_ (by simp [Write.apply])
    simp only [Write.apply, resolveAdminToken]
    split
    · rfl
    · split
      · rfl
      · split <;> rfl

/-- A role that SSO writes leaves the tokens of other roles without effect. -/
theorem sound_of_role {u r : String} (hu : tok.username = u)
    (hne : orSuperuser (some tok.role) ≠ orSuperuser (some r)) {f : Administrator → Administrator}
    (hf : ∀ a, (f a).role = some r)
    (hfind : s'.administrators.find u = (s.administrators.find u).map f)
    (hepoch : s.administrators.find u = none → s'.epoch = s.epoch) (h : Sound s tok) :
    Sound s' tok := by
  cases hrow : s.administrators.find u with
  | none =>
    rcases h with h | ⟨a, ha, -⟩
    · exact Or.inl (h.trans (by rw [hepoch hrow]))
    · rw [hu, hrow] at ha
      cases ha
  | some a =>
    refine Or.inr ⟨f a, by rw [hu, hfind, hrow]; rfl, ?_⟩
    rw [hf]
    exact hne.symm

/-- The token a write inserts, or one that was there; a deletion for its name has not met it. -/
theorem find_write {w : Write} {k : String}
    (h : (w.apply cfg env s).adminTokens.find k = some tok) :
    (∃ u r epoch, w = .mint u r epoch ∧ tok.username = u ∧ tok.epoch = epoch) ∨
      (s.adminTokens.find k = some tok ∧ (∀ u, w = .remove u → tok.username ≠ u) ∧
        ∀ u, w = .purge u → u ≠ "" → tok.username ≠ u) := by
  cases w with
  | mint u r epoch =>
    simp only [Write.apply, createAdminToken, Table.find_put] at h
    split at h
    · obtain rfl := Option.some.inj h
      exact Or.inl ⟨u, r, epoch, rfl, rfl, rfl⟩
    · exact Or.inr ⟨h, by simp, by simp⟩
  | remove u =>
    obtain ⟨h, hne⟩ := find_removed h
    exact Or.inr ⟨h, by simpa using hne, by simp⟩
  | purge u =>
    obtain ⟨h, hne⟩ := find_purged h
    exact Or.inr ⟨h, by simp, by simpa using hne⟩
  | resolve token => exact Or.inr ⟨find_resolved h, by simp, by simp⟩
  | role u r | adopt u r | store u p must =>
    refine Or.inr ⟨?_, by simp, by simp⟩
    simpa [Write.apply, setAdministratorRole, adoptAdministratorForSso,
      updateAdministratorPassword, storePassword] using h
  | rehash u p must => exact Or.inr ⟨h, by simp, by simp⟩
  | add row =>
    refine Or.inr ⟨?_, by simp, by simp⟩
    simp only [Write.apply, addAdministrator] at h
    split at h <;> exact h
  | rename u n =>
    refine Or.inr ⟨?_, by simp, by simp⟩
    simp only [Write.apply, updateAdministratorUsername] at h
    split at h
    · exact h
    · split at h <;> exact h

/-! ## A step of a thread -/

/-- A deletion that a call owes is carried out or still owed after any step of the call. -/
theorem owed_next {p : AccountPool} {th : AdminThread} {th' : Option AdminThread} {e : AdminEvent}
    (hc : SessionCondition cfg p (.act th e)) (h : adminStep cfg env s th = (s', e, th'))
    {u : String} (howed : u ∈ th.willPurge) :
    th.write cfg env = some (.purge u) ∨ ∃ x ∈ th', u ∈ x.willPurge := by
  cases th with
  | setRole v r phase =>
    cases phase with
    | purging =>
      obtain rfl : u = v := by simpa [AdminThread.willPurge] using howed
      exact Or.inl rfl
    | _ => simp [AdminThread.willPurge] at howed
  | change v c n pw phase =>
    cases phase with
    | checking name =>
      simp only [adminStep, changeStep, Next.thread] at h
      by_cases hok : env.passwordOk pw = true
      · simp only [hok, if_true, Prod.mk.injEq] at h
        exact Or.inr ⟨_, h.2.2.symm, by simpa [AdminThread.willPurge] using howed⟩
      · simp only [hok, Prod.mk.injEq] at h
        obtain ⟨-, rfl, -⟩ := h
        obtain rfl : name = v := hc
        simp [AdminThread.willPurge] at howed
    | storing name =>
      simp only [adminStep, changeStep, Next.thread, Prod.mk.injEq] at h
      refine Or.inr ⟨_, h.2.2.symm, ?_⟩
      simp only [AdminThread.willPurge] at howed ⊢
      split at howed
      · exact howed
      · simp at howed
    | purgingOld name =>
      by_cases hu : u = v
      · exact Or.inl (by rw [hu]; rfl)
      · have hun : u = name := by simpa [AdminThread.willPurge, hu] using howed
        have hne : name ≠ v := fun he => hu (hun.trans he)
        simp only [adminStep, changeStep, Next.thread, if_pos hne, Prod.mk.injEq] at h
        exact Or.inr ⟨_, h.2.2.symm, by simp [AdminThread.willPurge, hun]⟩
    | purgingNew name =>
      obtain rfl : u = name := by simpa [AdminThread.willPurge] using howed
      exact Or.inl rfl
    | _ => simp [AdminThread.willPurge] at howed
  | force v c pw phase | reset v pw phase =>
    cases phase with
    | purging =>
      obtain rfl : u = v := by simpa [AdminThread.willPurge] using howed
      exact Or.inl rfl
    | _ => simp [AdminThread.willPurge] at howed
  | _ => simp [AdminThread.willPurge] at howed

/-- A write that moves an epoch comes from SSO, removes the account, is refused, or leaves its
call owing the deletion. -/
theorem retires_next {th : AdminThread} {th' : Option AdminThread} {e : AdminEvent}
    (h : adminStep cfg env s th = (s', e, th')) {w : Write} (hw : th.write cfg env = some w)
    {u : String} (hu : u ∈ w.retires) :
    (∃ r phase, th = .sso u r phase ∧ (phase = .adopting ∨ phase = .syncing)) ∨
      w = .remove u ∨ s' = s ∨ ∃ x ∈ th', u ∈ x.willPurge := by
  cases th with
  | sso v r phase =>
    cases phase with
    | adopting | syncing =>
      obtain rfl := Option.some.inj hw
      obtain rfl : u = v := by simpa [Write.retires] using hu
      exact Or.inl ⟨r, _, rfl, by simp⟩
    | adding | minting =>
      obtain rfl := Option.some.inj hw
      simp [Write.retires] at hu
    | reading => cases hw
  | remove v phase =>
    cases phase with
    | deleting target =>
      obtain rfl := Option.some.inj hw
      obtain rfl : u = v := by simpa [Write.retires] using hu
      exact Or.inr (Or.inl rfl)
    | _ => cases hw
  | setRole v r phase =>
    cases phase with
    | updating current =>
      obtain rfl := Option.some.inj hw
      obtain rfl : u = v := by simpa [Write.retires] using hu
      simp only [adminStep, setRoleStep, Next.thread, Prod.mk.injEq] at h
      exact Or.inr (Or.inr (Or.inr ⟨_, h.2.2.symm, by simp [AdminThread.willPurge]⟩))
    | purging =>
      obtain rfl := Option.some.inj hw
      simp [Write.retires] at hu
    | _ => cases hw
  | change v c n pw phase =>
    cases phase with
    | renamingUser name =>
      obtain rfl := Option.some.inj hw
      have hun : u = v ∨ u = name := by simpa [Write.retires] using hu
      simp only [adminStep, changeStep, Next.thread] at h
      split at h
      · simp only [Prod.mk.injEq] at h
        exact Or.inr (Or.inr (Or.inl h.1.symm))
      · rename_i renamed hrenamed
        simp only [Prod.mk.injEq] at h
        by_cases hname : name = v
        · -- a rename to the same name finds it taken, unless there is no row at all
          rw [← h.1]
          refine Or.inr (Or.inr (Or.inl ?_))
          simp only [updateAdministratorUsername, hname] at hrenamed
          split at hrenamed
          · exact (Option.some.inj hrenamed).symm
          · rename_i row hrow
            simp [hrow] at hrenamed
        · refine Or.inr (Or.inr (Or.inr ⟨_, h.2.2.symm, ?_⟩))
          unfold afterRename
          split <;> simpa [AdminThread.willPurge, hname] using hun
    | storing name =>
      obtain rfl := Option.some.inj hw
      obtain rfl : u = name := by simpa [Write.retires] using hu
      simp only [adminStep, changeStep, Next.thread, Prod.mk.injEq] at h
      exact Or.inr (Or.inr (Or.inr ⟨_, h.2.2.symm, by simp [AdminThread.willPurge]⟩))
    | purgingOld name | purgingNew name =>
      obtain rfl := Option.some.inj hw
      simp [Write.retires] at hu
    | _ => cases hw
  | force v c pw phase | reset v pw phase =>
    cases phase with
    | storing =>
      obtain rfl := Option.some.inj hw
      obtain rfl : u = v := by simpa [Write.retires] using hu
      simp only [adminStep, forceStep, resetStep, storeStep, Next.thread, Prod.mk.injEq] at h
      exact Or.inr (Or.inr (Or.inr ⟨_, h.2.2.symm, by simp [AdminThread.willPurge]⟩))
    | purging =>
      obtain rfl := Option.some.inj hw
      simp [Write.retires] at hu
    | _ => cases hw
  | login v pw phase | add v pw r a phase =>
    cases phase <;> simp [AdminThread.write] at hw <;> simp [← hw, Write.retires] at hu
  | resolve token =>
    obtain rfl := Option.some.inj hw
    simp [Write.retires] at hu

/-- One step: each token is sound afterwards or owed a deletion by the thread that moved, or
it was there before, unsound and owed a deletion by another thread. -/
theorem step_token {p : AccountPool} {th : AdminThread} {th' : Option AdminThread}
    {e : AdminEvent} (hc : SessionCondition cfg p (.act th e))
    (h : adminStep cfg env p.shared th = (s', e, th')) {k : String}
    (htok : s'.adminTokens.find k = some tok) :
    (tok.username ≠ "" ∧ Sound s' tok) ∨
    (p.shared.adminTokens.find k = some tok ∧ (tok.username ≠ "" →
      Sound s' tok ∨ (∃ x ∈ th', tok.username ∈ x.willPurge) ∨
        (¬ Sound p.shared tok ∧ tok.username ∉ th.willPurge))) := by
  have hstate : s' = ((th.write cfg env).map (Write.apply cfg env p.shared)).getD p.shared := by
    rw [← adminStep_state, h]
  cases hw : th.write cfg env with
  | none =>
    rw [hw] at hstate
    obtain rfl : s' = p.shared := hstate
    refine Or.inr ⟨htok, fun _ => ?_⟩
    by_cases hs : Sound p.shared tok
    · exact Or.inl hs
    · by_cases howed : tok.username ∈ th.willPurge
      · rcases owed_next hc h howed with hpurge | hnext
        · rw [hw] at hpurge
          cases hpurge
        · exact Or.inr (Or.inl hnext)
      · exact Or.inr (Or.inr ⟨hs, howed⟩)
  | some w =>
    rw [hw] at hstate
    have hs' : s' = w.apply cfg env p.shared := hstate
    rw [hs'] at htok
    rcases find_write htok with ⟨u, r, epoch, rfl, hu, hepoch⟩ | ⟨hold, hremove, hpurge⟩
    · -- the condition on insertions
      have hmint : epoch = p.shared.epoch u ∧ u ≠ "" := by
        cases th with
        | login v pw phase | sso v r phase =>
          cases phase <;> simp [AdminThread.write] at hw
          all_goals
            obtain ⟨rfl, _, rfl⟩ := hw
            exact hc
        | resolve token => cases hw
        | _ =>
          rename_i phase
          cases phase <;> simp [AdminThread.write] at hw
      refine Or.inl ⟨by rw [hu]; exact hmint.2, Or.inl ?_⟩
      rw [hepoch, hmint.1, hs', hu]
      rfl
    · refine Or.inr ⟨hold, fun hne => ?_⟩
      by_cases hs : Sound p.shared tok
      · by_cases hret : tok.username ∈ w.retires
        · rcases retires_next h hw hret with ⟨r, phase, rfl, hphase⟩ | hrem | hsame | hnext
          · have hrole : orSuperuser (some tok.role) ≠ orSuperuser (some r) := by
              rcases hphase with rfl | rfl <;> exact hc k tok hold rfl
            refine Or.inl ?_
            rw [hs']
            rcases hphase with rfl | rfl
            · obtain rfl := Option.some.inj hw
              refine sound_of_role rfl hrole (f := Administrator.adopted r
                (hashPassword cfg env.token env.salt) env.salt) (fun _ => rfl)
                (by simp [Write.apply]) (fun hnone => ?_) hs
              simp [Write.apply, adoptAdministratorForSso, retire, hnone]
            · obtain rfl := Option.some.inj hw
              refine sound_of_role rfl hrole (f := Administrator.withRole r) (fun _ => rfl)
                (by simp [Write.apply]) (fun hnone => ?_) hs
              simp [Write.apply, setAdministratorRole, retire, hnone]
          · exact absurd rfl (hremove _ hrem)
          · rw [hsame]
            exact Or.inl hs
          · exact Or.inr (Or.inl hnext)
        · rw [hs']
          exact Or.inl (hs.write w hret)
      · by_cases howed : tok.username ∈ th.willPurge
        · rcases owed_next hc h howed with hp | hnext
          · rw [hw] at hp
            exact absurd rfl (hpurge _ (Option.some.inj hp) hne)
          · exact Or.inr (Or.inl hnext)
        · exact Or.inr (Or.inr ⟨hs, howed⟩)

theorem step_tokensSound {p q : AccountPool} {e : AccountEvent}
    (st : Steps (accounts cfg) p e q) (hc : SessionCondition cfg p e) (hp : TokensSound p) :
    TokensSound q := by
  cases st with
  | call _ =>
    intro k tok htok
    obtain ⟨hne, hs | ⟨th, hth, howed⟩⟩ := hp k tok htok
    · exact ⟨hne, Or.inl hs⟩
    · exact ⟨hne, Or.inr ⟨th, by simp [hth], howed⟩⟩
  | @act s s' pre post th th' e hact =>
    obtain ⟨env, hstep⟩ := hact
    intro k tok htok
    rcases step_token hc hstep htok with ⟨hne, hs⟩ | ⟨hold, hcases⟩
    · exact ⟨hne, Or.inl hs⟩
    · obtain ⟨hne, hbefore⟩ := hp k tok hold
      refine ⟨hne, ?_⟩
      rcases hcases hne with hs | ⟨x, hx, howed⟩ | ⟨hns, hnot⟩
      · exact Or.inl hs
      · exact Or.inr ⟨x, by simp [Option.mem_def.mp hx], howed⟩
      · obtain ⟨x, hx, howed⟩ := hbefore.resolve_left hns
        refine Or.inr ⟨x, ?_, howed⟩
        have hxth : x ≠ th := by
          rintro rfl
          exact hnot howed
        have : x ∈ pre ∨ x ∈ post := by simpa [hxth] using hx
        rcases this with h | h <;> simp [h]

theorem resolved_live {token user role : String} {now : ℚ}
    (h : (resolveAdminToken cfg s token now).1 = some (user, role)) :
    ∃ tok, s.adminTokens.find (cfg.tokenAtRest token) = some tok ∧ tok.username = user ∧
      tok.live s now = true := by
  unfold resolveAdminToken at h
  split at h
  · cases h
  · split at h
    · cases h
    · rename_i row hrow
      split at h
      · rename_i hlive
        simp only [Option.some.injEq, Prod.mk.injEq] at h
        exact ⟨row, hrow, h.1, hlive⟩
      · cases h

theorem not_dormant {now : ℚ} (h : tok.live s now = true) : ¬ Dormant s tok := by
  rintro ⟨a, ha, hne⟩
  simp only [AdminToken.live, ha, Bool.and_eq_true, decide_eq_true_eq] at h
  exact hne h.2

/-- Only `resolve_admin_token` shows identities. -/
theorem resolved_thread {th : AdminThread} {token : String} {identity : Option (String × String)}
    {th' : Option AdminThread} (h : adminStep cfg env s th = (s', .resolved token identity, th')) :
    th = .resolve token ∧ identity = (resolveAdminToken cfg s token env.now).1 := by
  cases th with
  | resolve t =>
    simp only [adminStep, Prod.mk.injEq, AdminEvent.resolved.injEq] at h
    obtain ⟨-, ⟨rfl, rfl⟩, -⟩ := h
    exact ⟨rfl, rfl⟩
  | login u p phase =>
    cases phase <;> simp only [adminStep, loginStep, Next.thread] at h <;> grind
  | sso u r phase =>
    cases phase <;> simp only [adminStep, ssoStep, Next.thread] at h <;> grind
  | add u p r a phase =>
    cases phase <;> simp only [adminStep, addStep, Next.thread] at h <;> grind
  | remove u phase =>
    cases phase <;> simp only [adminStep, removeStep, Next.thread] at h <;> grind
  | setRole u r phase =>
    cases phase <;> simp only [adminStep, setRoleStep, Next.thread] at h <;> grind
  | change u c n p phase =>
    cases phase <;> simp only [adminStep, changeStep, Next.thread] at h <;> grind
  | force u c p phase =>
    cases phase <;> simp only [adminStep, forceStep, storeStep, Next.thread] at h <;> grind
  | reset u p phase =>
    cases phase <;> simp only [adminStep, resetStep, storeStep, Next.thread] at h <;> grind

/-- A login token does not outlive what it was issued for, in runs whose steps meet the
condition. -/
theorem tokens_do_not_outlive (cfg : Settings) : SessionLaw cfg (SessionCondition cfg) := by
  rintro administrators log p th token user role q run ⟨hc, st⟩
  have hinv : TokensSound p := by
    refine run.invariant (P := TokensSound) ?_ ?_
    · rintro p e q ⟨hc, st⟩ hp
      exact step_tokensSound st hc hp
    · intro k tok htok
      cases htok
  cases st with
  | @act s s' pre post _ th' _ hact =>
    obtain ⟨env, hstep⟩ := hact
    obtain ⟨rfl, hident⟩ := resolved_thread hstep
    obtain ⟨tok, htok, huser, hlive⟩ := resolved_live hident.symm
    refine ⟨tok, htok, huser, ?_⟩
    have hnone := hc tok htok
    rcases (hinv _ tok htok).2 with (hs | hd) | ⟨x, hx, howed⟩
    · rw [hs, huser]
    · exact absurd hd (not_dormant hlive)
    · exact absurd howed (hnone x hx)

/-! A login that has verified the old password inserts its token after a completed reset. -/

def loginBesideReset : List (Choice AdminThread Fresh) :=
  [.call (.login "a" "old" .reading), .act 0 sampleFresh,
    .call (.reset "a" "new" .reading), .act 0 sampleFresh, .act 0 sampleFresh, .act 0 sampleFresh,
    .act 0 sampleFresh, .act 0 sampleFresh, .call (.resolve "token")]

theorem token_survives_reset : ¬ SessionLaw sampleSettings fun _ _ => True := by
  intro hlaw
  have run := @plays_run _ _ _ (accounts sampleSettings) _ (adminStep sampleSettings)
    (fun env _ _ => ⟨env, rfl⟩) (.begin sampleAccounts.administrators) loginBesideReset
    (by simp [loginBesideReset, accounts, Entry]; decide) ⟨.begin sampleAccounts.administrators, []⟩
  have hthreads : (plays (adminStep sampleSettings) loginBesideReset
      ⟨.begin sampleAccounts.administrators, []⟩).2.threads = [.resolve "token"] := by
    decide
  have hident : (resolveAdminToken sampleSettings (plays (adminStep sampleSettings)
      loginBesideReset ⟨.begin sampleAccounts.administrators, []⟩).2.shared "token" 0).1 =
      some ("a", "superuser") := by decide +kernel
  have resolves := @Steps.first_ends _ _ _ (accounts sampleSettings) (plays (adminStep
    sampleSettings) loginBesideReset ⟨.begin sampleAccounts.administrators, []⟩).2.shared _
    (.resolve "token") [] _ ⟨sampleFresh, rfl⟩
  rw [← hthreads] at resolves
  change Steps (accounts _) _ (.act _ (.resolved "token" (resolveAdminToken _ _ _ 0).1)) _ at resolves
  rw [hident] at resolves
  obtain ⟨tok, htok, huser, hepoch⟩ := hlaw _ _ _ _ _ _ _ _
    (run.restrict fun _ _ => trivial) ⟨trivial, resolves⟩
  have hrow : tok = ⟨"token", "a", "superuser", 43200, 0⟩ :=
    Option.some.inj (htok.symm.trans (by decide +kernel))
  rw [hrow] at hepoch
  exact absurd hepoch (by decide)

end AdminAccounts
