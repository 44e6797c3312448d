import SysibleController.AgentCommand

/-! How often a script is executed that was promised to run as root. -/
namespace AgentCommand

open PathText PythonText AgentTransfer

def Run.executions (r : Run) : ℕ := (r.calls.filter fun c => c.attempt.ran).length

def Call.Unprivileged (c : Call) : Prop := ∃ user root, c.mode = .user user root .no

structure RunsOnce (user : Text) (r : Run) : Prop where
  once : r.executions ≤ 1
  noted : ∀ c ∈ r.calls, c.Unprivileged → c.attempt.ran = true →
    notRunAsRoot user <:+ r.result.stderr

/-- The call that sudo decides on. -/
def Host.asRoot (h : Host) (user cmd : Text) (password : Option Text) : Call :=
  h.call 0 (.user user h.root (become password)) cmd (stdin password)

def Host.asUser (h : Host) (user cmd : Text) : Call := h.call 1 (.user user h.root .no) cmd none

/-- A script that sudo let through and that failed is not taken for a refusal by sudo, unless it
cannot be executed without sudo either. -/
def NotMisread (env : Surroundings) (h : Host) (user cmd : Text) (password : Option Text) : Prop :=
  h.userExists user = true → (h.asRoot user cmd password).attempt.ran = true →
    ((h.asRoot user cmd password).result env).returncode ≠ 0 →
    policyRefusal env ((h.asRoot user cmd password).result env).stderr = true →
    (h.asUser user cmd).attempt.ran = false

variable {env : Surroundings} {h : Host} {user cmd : Text} {password : Option Text}

theorem executions_singleton (c : Call) (note : Option Text) (res : Result) :
    (Run.mk [c] note res).executions ≤ 1 := by
  rw [Run.executions]
  exact List.length_filter_le _ _

theorem executions_pair (c d : Call) (note : Option Text) (res : Result) :
    (Run.mk [c, d] note res).executions ≤ 1 ↔
      (c.attempt.ran = true → d.attempt.ran = false) := by
  cases hc : c.attempt.ran <;> cases hd : d.attempt.ran <;> simp [Run.executions, hc, hd]

theorem asRoot_privileged : ¬(h.asRoot user cmd password).Unprivileged := by
  rintro ⟨name, root, hmode⟩
  have hbecome : become password = .no := by
    injection hmode
  rw [become] at hbecome
  split at hbecome <;> cases hbecome

theorem runAsUser_root (hexists : h.userExists user = true) :
    runAsUser env h user cmd password true =
      if ((h.asRoot user cmd password).result env).returncode = 0 then
        ⟨[h.asRoot user cmd password], none, (h.asRoot user cmd password).result env⟩
      else if !policyRefusal env ((h.asRoot user cmd password).result env).stderr then
        ⟨[h.asRoot user cmd password], none, (h.asRoot user cmd password).result env⟩
      else ⟨[h.asRoot user cmd password, h.asUser user cmd], some (notRunAsRoot user),
        withNote ((h.asUser user cmd).result env) (some (notRunAsRoot user))⟩ := by
  simp only [runAsUser, hexists, Bool.not_true, Bool.false_eq_true, if_false, if_true]
  rfl

theorem runsOnce_alone (res : Result) :
    RunsOnce user ⟨[h.asRoot user cmd password], none, res⟩ := by
  refine ⟨executions_singleton _ _ _, ?_⟩
  intro c hc hplain
  rw [List.mem_singleton] at hc
  rw [hc] at hplain
  exact absurd hplain asRoot_privileged

/-- The script is executed at most once, and without root only with the note, exactly where its
own failure is not taken for a refusal. -/
theorem runs_once_iff (env : Surroundings) (h : Host) (user cmd : Text) (password : Option Text) :
    RunsOnce user (runAsUser env h user cmd password true) ↔
      NotMisread env h user cmd password := by
  by_cases hexists : h.userExists user = true
  · rw [runAsUser_root hexists]
    split
    next hzero => exact ⟨fun _ _ _ hne => absurd hzero hne, fun _ => runsOnce_alone _⟩
    next hzero =>
      split
      next hpolicy =>
        rw [Bool.not_eq_true', Bool.eq_false_iff] at hpolicy
        exact ⟨fun _ _ _ _ h => absurd h hpolicy, fun _ => runsOnce_alone _⟩
      next hpolicy =>
        have hrefusal : policyRefusal env ((h.asRoot user cmd password).result env).stderr =
            true := by
          simpa using hpolicy
        constructor
        · intro honce _ hran _ _
          exact (executions_pair _ _ _ _).mp honce.once hran
        · intro hnot
          refine ⟨(executions_pair _ _ _ _).mpr fun hran => hnot hexists hran hzero hrefusal, ?_⟩
          intro _ _ _ _
          exact List.suffix_append _ _
  · have hrun : runAsUser env h user cmd password true = ⟨[], none, noSuchUser user⟩ := by
      simp [runAsUser, hexists]
    rw [hrun]
    exact ⟨fun _ h => absurd h hexists, fun _ => ⟨Nat.zero_le _, nofun⟩⟩

/-- The script prints what another program told it, and fails. -/
def scriptFails : Ending := .exited 1 (utf8 []) (utf8 "ldap: authentication failure\n".toList)

def admits : Host := ⟨fun _ => true, true, fun _ _ _ => ⟨true, scriptFails⟩⟩

theorem result_scriptFails : execResult sampleSurroundings scriptFails =
    ⟨[], "ldap: authentication failure\n".toList, 1⟩ := by
  have hout : translateNewlines [] = [] := rfl
  have herr : translateNewlines "ldap: authentication failure\n".toList =
      "ldap: authentication failure\n".toList := by decide
  simp only [scriptFails, execResult, sampleSurroundings, fromUtf8_utf8, hout, herr]
  rw [truncate, if_pos (by decide), truncate, if_pos (by decide)]

theorem script_runs_again :
    ¬∀ env h user cmd password, RunsOnce user (runAsUser env h user cmd password true) := by
  intro h
  have honce := (h sampleSurroundings admits "ops".toList "./migrate".toList none).once
  have hres : (admits.asRoot "ops".toList "./migrate".toList none).result sampleSurroundings =
      ⟨[], "ldap: authentication failure\n".toList, 1⟩ := result_scriptFails
  have hrefusal : policyRefusal sampleSurroundings "ldap: authentication failure\n".toList =
      true := by
    rw [policyRefusal, contains, List.any_eq_true]
    refine ⟨"authentication failure", by decide, ?_⟩
    rw [decide_eq_true_eq]
    exact ⟨"ldap: ".toList, ['\n'], by decide⟩
  rw [runAsUser_root rfl, hres, if_neg (by decide), hrefusal, if_neg (by decide),
    executions_pair] at honce
  exact absurd (honce rfl) (by decide)

end AgentCommand
