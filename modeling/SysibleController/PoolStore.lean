import SysibleController.CallMachine
import SysibleController.Pools

/-! The store of pools (`create_pool`, `update_pool`, `delete_pool`, `needs_superuser` in
`webgui/pools.py`): whatever the order of calls, a stored pool is one that can be rolled. -/
namespace Pools

open TransitionSystem PastTrace Rolling

structure StoredPool where
  id : String
  pool : Pool
  createdBy : String
  createdTs : ℚ

/-- The fields of an edit; a missing one leaves the stored value. A health check is replaced
whole. -/
structure Edit where
  name : Option String
  members : Option (Option (List Value))
  provider : Option String
  drainCmd : Option String
  undrainCmd : Option String
  health : Option (String × String)
  maxUnavailable : Option Value
  minHealthy : Option Value
  settleSecs : Option Value

/-- The three numbers as they are stored. -/
def withNumbers (p : Pool) : Pool :=
  { p with
    maxUnavailable := .int (asInt p.maxUnavailable 1)
    minHealthy := .int (asInt p.minHealthy 1)
    settleSecs := .int (asInt p.settleSecs 0) }

/-- The defaults of `create_pool`. -/
def withDefaults (p : Pool) : Pool :=
  withNumbers
    { p with
      provider := orElse p.provider "none"
      healthKind := if p.healthKind = "" ∧ p.healthTarget = "" then "agent" else p.healthKind }

def merge (p : Pool) (e : Edit) : Pool :=
  withNumbers
    { name := e.name.getD p.name
      members := e.members.getD p.members
      provider := e.provider.getD p.provider
      drainCmd := e.drainCmd.getD p.drainCmd
      undrainCmd := e.undrainCmd.getD p.undrainCmd
      healthKind := (e.health.map Prod.fst).getD p.healthKind
      healthTarget := (e.health.map Prod.snd).getD p.healthTarget
      maxUnavailable := e.maxUnavailable.getD p.maxUnavailable
      minHealthy := e.minHealthy.getD p.minHealthy
      settleSecs := e.settleSecs.getD p.settleSecs }

abbrev Store := List StoredPool

variable (isWord : Char → Bool)

def getPool (s : Store) (id : String) : Option StoredPool := s.find? fun p => p.id = id

/-- The first row with the id is replaced, the others stay where they are. -/
def replaceFirst (id : String) (new : StoredPool) : Store → Store
  | [] => []
  | p :: rows => if p.id = id then new :: rows else p :: replaceFirst id new rows

/-- `saves` says whether the file could be written; a failed write leaves the old one. -/
inductive Call where
  | create (data : Pool) (id createdBy : String) (now : ℚ) (saves : Bool)
  | update (id : String) (edit : Edit) (saves : Bool)
  | delete (id : String) (saves : Bool)

inductive Event where
  | stored (p : StoredPool)
  | refused (why : String)
  | missing
  | failed
  | deleted (found : Bool)

def act (s : Store) : Call → Event × Store
  | .create data id createdBy now saves =>
    match validate isWord (withDefaults data) with
    | .error why => (.refused why, s)
    | .ok _ =>
      let p : StoredPool := ⟨id, withDefaults data, createdBy, now⟩
      if saves then (.stored p, s ++ [p]) else (.failed, s)
  | .update id edit saves =>
    match getPool s id with
    | none => (.missing, s)
    | some p =>
      match validate isWord (merge p.pool edit) with
      | .error why => (.refused why, s)
      | .ok _ =>
        let new := { p with pool := merge p.pool edit }
        if saves then (.stored new, replaceFirst id new s) else (.failed, s)
  | .delete id saves =>
    let left := s.filter fun p => p.id ≠ id
    if saves then (.deleted (left.length ≠ s.length), left) else (.failed, s)

abbrev machine : Machine Store Event := ofCalls [] (act isWord)

/-- `needs_superuser`: the configuration holds root commands an operator typed. -/
def needsSuperuser (p : Pool) : Bool :=
  orElse p.provider "none" = "command" || orElse p.healthKind "agent" = "command"

/-- What is kept of every stored pool. -/
def Accepted (p : Pool) : Prop :=
  (∃ members, validate isWord p = .ok members) ∧
    ∃ mu mh settle,
      p.maxUnavailable = .int mu ∧ p.minHealthy = .int mh ∧ p.settleSecs = .int settle

variable {isWord} {s : Store} {es : List Event} {q : StoredPool}

theorem accepted_withNumbers {p : Pool} {members : List String}
    (h : validate isWord (withNumbers p) = .ok members) : Accepted isWord (withNumbers p) :=
  ⟨⟨members, h⟩, _, _, _, rfl, rfl, rfl⟩

theorem mem_replaceFirst {id : String} {new : StoredPool} (h : q ∈ replaceFirst id new s) :
    q = new ∨ q ∈ s := by
  induction s with
  | nil => simp [replaceFirst] at h
  | cons p rows ih =>
    unfold replaceFirst at h
    split_ifs at h with hp
    · rcases List.mem_cons.mp h with rfl | h
      · exact Or.inl rfl
      · exact Or.inr (List.mem_cons_of_mem _ h)
    · rcases List.mem_cons.mp h with rfl | h
      · exact Or.inr (by simp)
      · exact (ih h).imp_right (List.mem_cons_of_mem _)

/-- A call adds no row but one that has been validated in the form in which it is stored. -/
theorem mem_act (c : Call) (hq : q ∈ (act isWord s c).2) : q ∈ s ∨ Accepted isWord q.pool := by
  cases c with
  | create data id createdBy now saves =>
    simp only [act] at hq
    cases hv : validate isWord (withDefaults data) with
    | error why =>
      rw [hv] at hq
      exact Or.inl hq
    | ok members =>
      rw [hv] at hq
      dsimp only at hq
      split_ifs at hq
      · rcases List.mem_append.mp hq with hq | hq
        · exact Or.inl hq
        · exact Or.inr (List.mem_singleton.mp hq ▸ accepted_withNumbers hv)
      · exact Or.inl hq
  | update id edit saves =>
    simp only [act] at hq
    cases hp : getPool s id with
    | none =>
      rw [hp] at hq
      exact Or.inl hq
    | some p =>
      rw [hp] at hq
      dsimp only at hq
      cases hv : validate isWord (merge p.pool edit) with
      | error why =>
        rw [hv] at hq
        exact Or.inl hq
      | ok members =>
        rw [hv] at hq
        dsimp only at hq
        split_ifs at hq
        · rcases mem_replaceFirst hq with rfl | hq
          · exact Or.inr (accepted_withNumbers hv)
          · exact Or.inl hq
        · exact Or.inl hq
  | delete id saves =>
    simp only [act] at hq
    split_ifs at hq
    · exact Or.inl (List.mem_of_mem_filter hq)
    · exact Or.inl hq

theorem stored_accepted (h : (machine isWord).Run [] es s) : ∀ q ∈ s, Accepted isWord q.pool := by
  refine ofCalls_history
    (fun (_ : List Event) (s : Store) => ∀ q ∈ s, Accepted isWord q.pool) h ?_ ?_
  · intro q hq
    cases hq
  · intro es s c _ ih q hq
    cases mem_act c hq with
    | inl hold => exact ih q hold
    | inr hnew => exact hnew

/-- Whatever has been created, edited, refused and deleted before: a pool that can be fetched has
a roll order without repetition from which a group can be spared, and a run over it whose
callables succeed takes every member through, no more than a group out of rotation at a time. -/
theorem stored_pool_rolls (h : (machine isWord).Run [] es s) (id : String)
    (hq : getPool s id = some q) :
    ∃ members, validate isWord q.pool = .ok members ∧ members.Nodup ∧
      1 ≤ asInt q.pool.minHealthy 1 ∧
      asInt q.pool.maxUnavailable 1 + asInt q.pool.minHealthy 1 ≤ members.length ∧
      ∀ pool, AlwaysSucceeds pool → ∀ allowDegraded,
        (roll pool (plan q.pool members allowDegraded)).state = .ok ∧
        (roll pool (plan q.pool members allowDegraded)).final.done = members ∧
        OutAtMost (asInt q.pool.maxUnavailable 1)
          (roll pool (plan q.pool members allowDegraded)).final.history := by
  obtain ⟨⟨members, hv⟩, -⟩ := stored_accepted h q (List.mem_of_find?_eq_some hq)
  have hfeas := validate_feasible hv
  have hkeeps : 1 ≤ asInt q.pool.minHealthy 1 := (hfeas true).keeps
  have hfloor : asInt q.pool.maxUnavailable 1 ≤ members.length - asInt q.pool.minHealthy 1 :=
    (hfeas true).floor
  refine ⟨members, hv, (hfeas true).nodup, hkeeps, by omega, fun pool hpool allow => ?_⟩
  obtain ⟨hstate, hend⟩ := roll_succeeds hpool (hfeas allow)
  have hroster := hend.roster
  rw [List.flatten_nil, List.append_nil] at hroster
  exact ⟨hstate, hroster, hend.bounded⟩

/-- A pool is created, an edit that would take every member out is refused, another accepted. -/
def edits : List Call :=
  [.create samplePool "p1" "ada" 0 true,
   .update "p1" ⟨none, none, none, none, none, none, some (.int 3), none, none⟩ true,
   .update "p1" ⟨some "db", none, none, none, none, some ("agent", ""), none, some (.int 2),
     none⟩ false,
   .update "p1" ⟨some "db", none, none, none, none, none, some (.int 1), none, none⟩ true]

theorem stored_pool_rolls_edits :
    ((getPool (perform (act Char.isAlphanum) [] edits).2 "p1").map fun p =>
      (p.pool.name, p.pool.maxUnavailable)) = some ("db", .int 1) ∧
    ∃ (q : StoredPool) (members : List String),
      validate Char.isAlphanum q.pool = .ok members ∧ members.Nodup ∧
      1 ≤ asInt q.pool.minHealthy 1 := by
  have hfound : ∃ q, getPool (perform (act Char.isAlphanum) [] edits).2 "p1" = some q :=
    Option.isSome_iff_exists.mp (by decide +kernel)
  obtain ⟨q, hq⟩ := hfound
  obtain ⟨members, hv, hnodup, hkeeps, -⟩ :=
    stored_pool_rolls (perform_run _ (act Char.isAlphanum) [] edits) "p1" hq
  exact ⟨by decide +kernel, q, members, hv, hnodup, hkeeps⟩

end Pools
