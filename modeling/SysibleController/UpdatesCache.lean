import SysibleController.Interleaving

/-! The cache of `/api/fleet-updates` (`_UPDATES_CACHE`): the requests that read and refill it, the
scheduled `patch_scan` jobs and the install jobs, each of which takes its steps in between those of
the others. Of a row its host is kept, and what had been installed when the host was probed. -/
namespace UpdatesCache

open Interleaving TransitionSystem

abbrev HostId := String

/-- An install; the number stands for its `uuid4`. -/
structure Job where
  number : ℕ
  hosts : List HostId
  deriving DecidableEq

/-- The install of a host by a job is over. -/
abbrev Finish := Job × HostId

structure Row where
  id : HostId
  seen : List Finish
  deriving DecidableEq

/-- What a request that was answered from the cache got; `started` are the jobs that were marked
done when it came in. -/
structure Response where
  started : List Job
  rows : List Row

/-- The cache and its lock, and the jobs: how many there were, which hosts they are through with,
which of them are marked done and which have invalidated the cache since. -/
structure Shared where
  hosts : Option (List Row)
  ts : ℕ
  locked : Bool
  jobs : ℕ
  finished : List Finish
  done : List Job
  cleared : List Job
  served : List Response

def initial : Shared := ⟨none, 0, false, 0, [], [], [], []⟩

def updatesTtl : ℕ := 900

/-- `_cache_covers` -/
def cacheCovers (rows : List Row) : Option (List HostId) → Prop
  | none => True
  | some ids => ∀ h, h ∈ rows.map Row.id ↔ h ∈ ids

/-- `_fresh`. The clock counts the seconds since 1970, so that `ts = 0` is never fresh. -/
structure Fresh (s : Shared) (refresh : Bool) (ids : Option (List HostId)) (now : ℕ) : Prop where
  asked : refresh = false
  swept : s.hosts ≠ none
  young : now - s.ts < updatesTtl
  covers : ∀ rows ∈ s.hosts, cacheCovers rows ids

/-- `merged[h["id"]] = h` -/
def putRow (rows : List Row) (r : Row) : List Row :=
  if rows.any (·.id = r.id) then rows.map fun x => if x.id = r.id then r else x else rows ++ [r]

/-- The rows of a scan over those of the cache. -/
def mergeRows (cached probed : List Row) : List Row := probed.foldl putRow (cached.foldl putRow [])

inductive Point where
  | arriving (refresh : Bool)
  | asking (refresh : Bool) (ids : Option (List HostId)) (started : List Job)
  | locking (refresh : Bool) (ids : Option (List HostId)) (started : List Job)
  | holding (refresh : Bool) (ids : Option (List HostId)) (started : List Job)
  | serving (locked : Bool) (started : List Job)
  | sweeping (now : ℕ) (left : List HostId) (rows : List Row)
  | stamping (now : ℕ)
  | leaving
  | scheduled (full : Bool)
  | scanning (full : Bool) (now : ℕ) (left : List HostId) (rows : List Row)
  | merging (full : Bool) (now : ℕ) (rows : List Row)
  | posting (hosts : List HostId)
  | installing (j : Job) (left : List HostId)
  | clearing (j : Job)

inductive Action where
  | begin
  | hit
  | miss
  | lock
  | probe
  | write
  | stamp
  | serve
  | free
  | finish
  | mark
  | clear
  deriving DecidableEq

/-- `fleet_updates`, a `patch_scan` or `fleet_updates_install` -/
inductive Enters : Point → Prop where
  | request (refresh : Bool) : Enters (.arriving refresh)
  | scan (full : Bool) : Enters (.scheduled full)
  | install (hosts : List HostId) : Enters (.posting hosts)

/-- The steps. Which hosts there are, what the clock says and in which order the hosts of a sweep
answer is up to the surroundings. A request that asks for a refresh or cannot read the inventory
has no `ids`; one whose sweep cannot read it is refused. A job that was pruned from the table is
not marked. -/
inductive Acts (s : Shared) : Point → Action → Shared → Option Point → Prop where
  | asks {refresh} (ids) (hids : refresh = true → ids = none) :
    Acts s (.arriving refresh) .begin s (some (.asking refresh ids s.done))
  | hits {refresh ids started} (now) (hnow : updatesTtl ≤ now) (h : Fresh s refresh ids now) :
    Acts s (.asking refresh ids started) .hit s (some (.serving false started))
  | misses {refresh ids started} (now) (h : ¬Fresh s refresh ids now) :
    Acts s (.asking refresh ids started) .miss s (some (.locking refresh ids started))
  | locks {refresh ids started} (h : s.locked = false) :
    Acts s (.locking refresh ids started) .lock { s with locked := true }
      (some (.holding refresh ids started))
  | hitsInside {refresh ids started} (now) (hnow : updatesTtl ≤ now) (h : Fresh s refresh ids now) :
    Acts s (.holding refresh ids started) .hit s (some (.serving true started))
  | sweeps {refresh ids started} (now) (h : ¬Fresh s refresh ids now) (entries) :
    Acts s (.holding refresh ids started) .miss s (some (.sweeping now entries []))
  | refused {refresh ids started} (now) (h : ¬Fresh s refresh ids now) :
    Acts s (.holding refresh ids started) .miss s (some .leaving)
  | probes {now a h b rows} :
    Acts s (.sweeping now (a ++ h :: b) rows) .probe s
      (some (.sweeping now (a ++ b) (rows ++ [⟨h, s.finished⟩])))
  | writes {now rows} :
    Acts s (.sweeping now [] rows) .write { s with hosts := some rows } (some (.stamping now))
  | stamps {now} : Acts s (.stamping now) .stamp { s with ts := now } (some .leaving)
  | frees : Acts s .leaving .free { s with locked := false } none
  | serves {locked started} :
    Acts s (.serving locked started) .serve
      { s with served := ⟨started, s.hosts.getD []⟩ :: s.served }
      (if locked then some .leaving else none)
  | scans {full} (now) (entries) :
    Acts s (.scheduled full) .begin s (some (.scanning full now entries []))
  | scanProbes {full now a h b rows} :
    Acts s (.scanning full now (a ++ h :: b) rows) .probe s
      (some (.scanning full now (a ++ b) (rows ++ [⟨h, s.finished⟩])))
  | scanLocks {full now rows} (h : s.locked = false) :
    Acts s (.scanning full now [] rows) .lock { s with locked := true }
      (some (.merging full now rows))
  | merges {full now rows} :
    Acts s (.merging full now rows) .write
      { s with hosts := some (mergeRows (s.hosts.getD []) rows) }
      (some (if full then .stamping now else .leaving))
  | posts {hosts} :
    Acts s (.posting hosts) .begin { s with jobs := s.jobs + 1 }
      (some (.installing ⟨s.jobs, hosts⟩ hosts))
  | finishes {j a h b} :
    Acts s (.installing j (a ++ h :: b)) .finish { s with finished := (j, h) :: s.finished }
      (some (.installing j (a ++ b)))
  | marks {j} :
    Acts s (.installing j []) .mark { s with done := j :: s.done } (some (.clearing j))
  | unmarked {j} : Acts s (.installing j []) .begin s (some (.clearing j))
  | clears {j} :
    Acts s (.clearing j) .clear { s with ts := 0, cleared := j :: s.cleared } none

def updates : Program Shared Point Action := ⟨Enters, Acts⟩

/-- The rows of the hosts of a job are from after their installs. -/
def Shows (j : Job) (rows : List Row) : Prop :=
  ∀ r ∈ rows, r.id ∈ j.hosts → (j, r.id) ∈ r.seen

/-- No row is of a host that an install has finished on since it was probed. -/
def UpToDate (s : Shared) (rows : List Row) : Prop :=
  ∀ r ∈ rows, ∀ f ∈ s.finished, f.2 = r.id → f ∈ r.seen

/-- No request is answered from the cache between the mark of a job and its invalidation, and no
sweep or scan writes rows, or stamps those that are there, when an install has finished since they
were probed. -/
def Timely (p : Pool Shared Point) : Event Point Action → Prop
  | .act _ .hit => ∀ j ∈ p.shared.done, j ∈ p.shared.cleared
  | .act (.sweeping _ _ rows) .write => UpToDate p.shared rows
  | .act (.merging _ _ rows) .write => UpToDate p.shared rows
  | .act _ .stamp => ∀ rows ∈ p.shared.hosts, UpToDate p.shared rows
  | _ => True

/-! ### What the steps keep -/

/-- What is known of the shared state: every job that is marked or has invalidated the cache is
through with its hosts, and a cache with a stamp shows it. -/
structure Kept (s : Shared) : Prop where
  done : ∀ j ∈ s.done, ∀ h ∈ j.hosts, (j, h) ∈ s.finished
  cleared : ∀ j ∈ s.cleared, ∀ h ∈ j.hosts, (j, h) ∈ s.finished
  shown : s.ts ≠ 0 → ∀ j ∈ s.cleared, ∀ rows ∈ s.hosts, Shows j rows
  served : ∀ resp ∈ s.served, ∀ j ∈ resp.started, Shows j resp.rows

/-- What is known at each point. -/
def Knows (s : Shared) : Point → Prop
  | .asking _ _ started => ∀ j ∈ started, j ∈ s.done
  | .locking _ _ started => ∀ j ∈ started, j ∈ s.done
  | .holding _ _ started => ∀ j ∈ started, j ∈ s.done
  | .serving _ started => ∀ j ∈ started, j ∈ s.done ∧ ∀ rows ∈ s.hosts, Shows j rows
  | .installing j left => ∀ h ∈ j.hosts, h ∈ left ∨ (j, h) ∈ s.finished
  | .clearing j => ∀ h ∈ j.hosts, (j, h) ∈ s.finished
  | _ => True

/-- Nothing that a thread relies on is undone. -/
structure Grows (s t : Shared) : Prop where
  done : ∀ j ∈ s.done, j ∈ t.done
  finished : ∀ f ∈ s.finished, f ∈ t.finished
  shows : ∀ j ∈ s.done, (∀ rows ∈ s.hosts, Shows j rows) → ∀ rows ∈ t.hosts, Shows j rows

theorem Grows.knows {s t : Shared} (h : Grows s t) {th : Point} (hth : Knows s th) :
    Knows t th := by
  cases th with
  | asking refresh ids started => exact fun j hj => h.done j (hth j hj)
  | locking refresh ids started => exact fun j hj => h.done j (hth j hj)
  | holding refresh ids started => exact fun j hj => h.done j (hth j hj)
  | serving locked started =>
    intro j hj
    obtain ⟨hdone, hshows⟩ := hth j hj
    exact ⟨h.done j hdone, h.shows j hdone hshows⟩
  | installing j left => exact fun x hx => (hth x hx).imp_right (h.finished _)
  | clearing j => exact fun x hx => h.finished _ (hth x hx)
  | _ => trivial

/-- A step that leaves the rows as they are. -/
theorem Grows.of_hosts {s t : Shared} (hhosts : t.hosts = s.hosts)
    (hdone : ∀ j ∈ s.done, j ∈ t.done) (hfinished : ∀ f ∈ s.finished, f ∈ t.finished) :
    Grows s t := by
  refine ⟨hdone, hfinished, ?_⟩
  intro j _ hshows
  rw [hhosts]
  exact hshows

theorem Grows.refl (s : Shared) : Grows s s := .of_hosts rfl (fun _ h => h) fun _ h => h

theorem UpToDate.shows {s : Shared} {rows : List Row} {j : Job} (h : UpToDate s rows)
    (hj : ∀ x ∈ j.hosts, (j, x) ∈ s.finished) : Shows j rows := fun r hr hid =>
  h r hr _ (hj _ hid) rfl

/-! ### The rows of a scan -/

variable {rows cached probed : List Row} {r x : Row} {j : Job} {s : Shared}

theorem mem_putRow (h : x ∈ putRow rows r) : x = r ∨ x ∈ rows := by
  rw [putRow] at h
  split_ifs at h with hany
  · obtain ⟨y, hy, hxy⟩ := List.mem_map.mp h
    split_ifs at hxy
    · exact .inl hxy.symm
    · exact .inr (hxy ▸ hy)
  · rcases List.mem_append.mp h with h | h
    · exact .inr h
    · exact .inl (List.mem_singleton.mp h)

theorem mem_foldl_putRow (h : x ∈ probed.foldl putRow rows) : x ∈ probed ∨ x ∈ rows := by
  induction probed generalizing rows with
  | nil => exact .inr h
  | cons r probed ih =>
    rcases ih h with h | h
    · exact .inl (List.mem_cons_of_mem _ h)
    · rcases mem_putRow h with rfl | h
      · exact .inl List.mem_cons_self
      · exact .inr h

/-- A row is one of the scan or one that was there. -/
theorem mem_mergeRows (h : x ∈ mergeRows cached probed) : x ∈ probed ∨ x ∈ cached := by
  rcases mem_foldl_putRow h with h | h
  · exact .inl h
  · exact .inr ((mem_foldl_putRow h).resolve_right List.not_mem_nil)

theorem shows_mergeRows (hprobed : Shows j probed) (hcached : Shows j cached) :
    Shows j (mergeRows cached probed) := by
  intro x hx
  rcases mem_mergeRows hx with hx | hx
  · exact hprobed x hx
  · exact hcached x hx

theorem shows_getD (h : ∀ rows ∈ s.hosts, Shows j rows) : Shows j (s.hosts.getD []) := by
  cases hhosts : s.hosts with
  | none => exact fun r hr => absurd hr List.not_mem_nil
  | some rows => exact h rows hhosts

/-! ### The steps -/

/-- Rows that are up to date go into the cache. -/
theorem Grows.write (h : Kept s) (hrows : ∀ j, (∀ x ∈ j.hosts, (j, x) ∈ s.finished) →
    (∀ old ∈ s.hosts, Shows j old) → Shows j rows) :
    Grows s { s with hosts := some rows } := by
  refine ⟨fun _ h => h, fun _ h => h, ?_⟩
  intro j hj hshows new hnew
  obtain rfl := Option.some.inj hnew
  exact hrows j (h.done j hj) hshows

theorem Kept.write (h : Kept s) (hrows : ∀ j, (∀ x ∈ j.hosts, (j, x) ∈ s.finished) →
    (∀ old ∈ s.hosts, Shows j old) → Shows j rows) :
    Kept { s with hosts := some rows } := by
  refine ⟨h.done, h.cleared, ?_, h.served⟩
  intro hts j hj new hnew
  obtain rfl := Option.some.inj hnew
  exact hrows j (h.cleared j hj) (h.shown hts j hj)

/-- A hit shows every job that was done when the request came in. -/
theorem Kept.hit {refresh : Bool} {ids : Option (List HostId)} {now : ℕ} {started : List Job}
    (h : Kept s) (hnow : updatesTtl ≤ now) (hfresh : Fresh s refresh ids now)
    (hcleared : ∀ j ∈ s.done, j ∈ s.cleared) (hstarted : ∀ j ∈ started, j ∈ s.done) :
    ∀ j ∈ started, j ∈ s.done ∧ ∀ rows ∈ s.hosts, Shows j rows := by
  have hts : s.ts ≠ 0 := by
    intro hzero
    have hyoung := hfresh.young
    rw [hzero] at hyoung
    omega
  intro j hj
  exact ⟨hstarted j hj, h.shown hts j (hcleared j (hstarted j hj))⟩

/-- What one step does to what is known. -/
structure Advances (s t : Shared) (next : Option Point) : Prop where
  kept : Kept t
  grows : Grows s t
  knows : ∀ th ∈ next, Knows t th

theorem knows_some {t : Shared} {th : Point} (h : Knows t th) : ∀ x ∈ some th, Knows t x := by
  intro x hx
  cases hx
  exact h

theorem knows_none {t : Shared} : ∀ x ∈ (none : Option Point), Knows t x := by
  intro x hx
  cases hx

theorem Advances.silent {th : Point} (h : Kept s) (hknows : Knows s th) :
    Advances s s (some th) := ⟨h, .refl s, knows_some hknows⟩

/-- The lock is taken or given back. -/
theorem Advances.locked {next : Option Point} (h : Kept s) (b : Bool)
    (hknows : ∀ th ∈ next, Knows { s with locked := b } th) :
    Advances s { s with locked := b } next :=
  ⟨⟨h.done, h.cleared, h.shown, h.served⟩, .of_hosts rfl (fun _ h => h) fun _ h => h, hknows⟩

theorem Advances.serve {locked : Bool} {started : List Job} (h : Kept s)
    (hth : Knows s (.serving locked started)) :
    Advances s { s with served := ⟨started, s.hosts.getD []⟩ :: s.served }
      (if locked then some .leaving else none) := by
  refine ⟨⟨h.done, h.cleared, h.shown, ?_⟩, .of_hosts rfl (fun _ h => h) fun _ h => h, ?_⟩
  · intro resp hresp j hj
    rcases List.mem_cons.mp hresp with rfl | hresp
    · exact shows_getD (hth j hj).2
    · exact h.served resp hresp j hj
  · intro x hx
    split at hx
    · cases hx
      trivial
    · cases hx

theorem Advances.write {next : Point} (h : Kept s) (hknows : ∀ t, Knows t next)
    (hrows : ∀ j, (∀ x ∈ j.hosts, (j, x) ∈ s.finished) →
      (∀ old ∈ s.hosts, Shows j old) → Shows j rows) :
    Advances s { s with hosts := some rows } (some next) :=
  ⟨h.write hrows, .write h hrows, knows_some (hknows _)⟩

/-- The stamp goes on rows that are up to date. -/
theorem Advances.stamp {now : ℕ} (h : Kept s)
    (hrows : ∀ rows ∈ s.hosts, UpToDate s rows) :
    Advances s { s with ts := now } (some .leaving) := by
  refine ⟨⟨h.done, h.cleared, ?_, h.served⟩, .of_hosts rfl (fun _ h => h) fun _ h => h,
    knows_some trivial⟩
  intro _ j hj rows hmem
  exact (hrows rows hmem).shows (h.cleared j hj)

theorem Advances.finish {a b : List HostId} {f : HostId} (h : Kept s)
    (hth : Knows s (.installing j (a ++ f :: b))) :
    Advances s { s with finished := (j, f) :: s.finished } (some (.installing j (a ++ b))) := by
  have hmore : ∀ g ∈ s.finished, g ∈ (j, f) :: s.finished := fun g hg => List.mem_cons_of_mem _ hg
  refine ⟨⟨?_, ?_, h.shown, h.served⟩, .of_hosts rfl (fun _ h => h) hmore, knows_some ?_⟩
  · exact fun k hk x hx => hmore _ (h.done k hk x hx)
  · exact fun k hk x hx => hmore _ (h.cleared k hk x hx)
  · intro x hx
    rcases hth x hx with hleft | hfinished
    · rcases List.mem_append.mp hleft with ha | hleft
      · exact .inl (List.mem_append_left _ ha)
      · rcases List.mem_cons.mp hleft with rfl | hb
        · exact .inr List.mem_cons_self
        · exact .inl (List.mem_append_right _ hb)
    · exact .inr (hmore _ hfinished)

theorem Advances.mark (h : Kept s) (hth : Knows s (.installing j [])) :
    Advances s { s with done := j :: s.done } (some (.clearing j)) := by
  have hall : ∀ x ∈ j.hosts, (j, x) ∈ s.finished := fun x hx =>
    (hth x hx).resolve_left List.not_mem_nil
  refine ⟨⟨?_, h.cleared, h.shown, h.served⟩,
    .of_hosts rfl (fun _ h => List.mem_cons_of_mem _ h) fun _ h => h, knows_some hall⟩
  intro k hk
  rcases List.mem_cons.mp hk with rfl | hk
  · exact hall
  · exact h.done k hk

/-- Nothing has to be shown without a stamp. -/
theorem Advances.clear (h : Kept s) (hth : Knows s (.clearing j)) :
    Advances s { s with ts := 0, cleared := j :: s.cleared } none := by
  refine ⟨⟨h.done, ?_, fun hts => absurd rfl hts, h.served⟩,
    .of_hosts rfl (fun _ h => h) fun _ h => h, knows_none⟩
  intro k hk
  rcases List.mem_cons.mp hk with rfl | hk
  · exact hth
  · exact h.cleared k hk

theorem acts_advance {t : Shared} {ths : List Point} {th : Point} {a : Action}
    {next : Option Point} (hact : Acts s th a t next) (htimely : Timely ⟨s, ths⟩ (.act th a))
    (h : Kept s) (hth : Knows s th) : Advances s t next := by
  cases hact with
  | asks ids hids => exact .silent h fun j hj => hj
  | hits now hnow hfresh => exact .silent h (h.hit hnow hfresh htimely hth)
  | misses now hstale => exact .silent h hth
  | locks hfree => exact .locked h true (knows_some hth)
  | hitsInside now hnow hfresh => exact .silent h (h.hit hnow hfresh htimely hth)
  | sweeps now hstale entries => exact .silent h trivial
  | refused now hstale => exact .silent h trivial
  | probes => exact .silent h trivial
  | writes => exact .write h (fun _ => trivial) fun j hj _ => UpToDate.shows htimely hj
  | stamps => exact .stamp h htimely
  | frees => exact .locked h false knows_none
  | serves => exact .serve h hth
  | scans now entries => exact .silent h trivial
  | scanProbes => exact .silent h trivial
  | scanLocks hfree => exact .locked h true (knows_some trivial)
  | @merges full now rows =>
    have hrows : ∀ j, (∀ x ∈ j.hosts, (j, x) ∈ s.finished) → (∀ old ∈ s.hosts, Shows j old) →
        Shows j (mergeRows (s.hosts.getD []) rows) := fun j hj hold =>
      shows_mergeRows (UpToDate.shows htimely hj) (shows_getD hold)
    cases full with
    | true => exact .write h (fun _ => trivial) hrows
    | false => exact .write h (fun _ => trivial) hrows
  | posts =>
    exact ⟨⟨h.done, h.cleared, h.shown, h.served⟩, .of_hosts rfl (fun _ h => h) fun _ h => h,
      knows_some fun x hx => .inl hx⟩
  | finishes => exact .finish h hth
  | marks => exact .mark h hth
  | unmarked => exact .silent h fun x hx => (hth x hx).resolve_left List.not_mem_nil
  | clears => exact .clear h hth

theorem assertions : Assertions updates Timely Kept Knows where
  entry s th _ hentry := by cases hentry <;> trivial
  act s pre post th a t next htimely h hths hact := by
    have hadvance := acts_advance hact htimely h (hths th (by simp))
    refine ⟨hadvance.kept, hadvance.knows, ?_⟩
    intro x hx
    apply hadvance.grows.knows
    apply hths
    rw [List.mem_append, List.mem_cons]
    exact hx.imp_right .inr

/-- In every run whose steps are all timely, what is served from the cache shows, of every job
that was marked done when the request came in, only rows that were probed after the install of
their host was over. -/
theorem served_after_install (trace : List (Event Point Action)) (p : Pool Shared Point)
    (run : ((updates.machine initial).restrict Timely).Run ⟨initial, []⟩ trace p) :
    ∀ resp ∈ p.shared.served, ∀ j ∈ resp.started, ∀ r ∈ resp.rows, r.id ∈ j.hosts →
      (j, r.id) ∈ r.seen := by
  have hstart : Kept initial := by
    refine ⟨?_, ?_, fun hts => absurd rfl hts, ?_⟩ <;> exact fun _ h => absurd h List.not_mem_nil
  have hholds : Holds Kept Knows (updates.machine initial).start := holds_start hstart
  exact (assertions.run run hholds).1.served

/-! ### Two runs -/

def webJob : Job := ⟨0, ["web"]⟩

theorem stale_of_empty {s : Shared} {refresh : Bool} {ids : Option (List HostId)} {now : ℕ}
    (h : s.hosts = none) : ¬Fresh s refresh ids now := fun hfresh => hfresh.swept h

theorem fresh_stamped {s : Shared} {rows : List Row} (hrows : s.hosts = some rows)
    (hts : s.ts = 1000) : Fresh s false none 1001 where
  asked := rfl
  swept := by simp [hrows]
  young := by
    rw [hts]
    decide
  covers := fun _ _ => trivial

def probedAfter : Row := ⟨"web", [(webJob, "web")]⟩

theorem timely_snoc {trace : List (Event Point Action)} {p q : Pool Shared Point}
    {e : Event Point Action}
    (run : ((updates.machine initial).restrict Timely).Run ⟨initial, []⟩ trace p)
    (st : Steps updates p e q) (htimely : Timely p e) :
    ((updates.machine initial).restrict Timely).Run ⟨initial, []⟩ (trace ++ [e]) q :=
  run.snoc ⟨htimely, st⟩

/-- The host is swept when its install is over. -/
theorem swept_after_install : ∃ trace p,
    ((updates.machine initial).restrict Timely).Run ⟨initial, []⟩ trace p ∧
    ⟨[webJob], [probedAfter]⟩ ∈ p.shared.served ∧ (webJob, "web") ∈ probedAfter.seen := by
  have hrow : ∀ s : Shared, s.finished = [(webJob, "web")] → UpToDate s [probedAfter] := by
    intro s hs r hr f hf _
    rw [hs] at hf
    rw [List.mem_singleton.mp hr]
    exact hf
  have run₁ : ((updates.machine initial).restrict Timely).Run ⟨initial, []⟩ _ _ :=
    timely_snoc (.nil _) (.call (.install ["web"])) trivial
  have run₂ := timely_snoc run₁ (.first .posts) trivial
  have run₃ := timely_snoc run₂ (.first (@Acts.finishes _ webJob [] "web" [])) trivial
  have run₄ := timely_snoc run₃ (.first .marks) trivial
  have run₅ := timely_snoc run₄ (.first_ends .clears) trivial
  have run₆ := timely_snoc run₅ (.call (.request false)) trivial
  have run₇ := timely_snoc run₆ (.first (.asks none fun _ => rfl)) trivial
  have run₈ := timely_snoc run₇ (.first (.misses 1000 (stale_of_empty rfl))) trivial
  have run₉ := timely_snoc run₈ (.first (.locks rfl)) trivial
  have run₁₀ := timely_snoc run₉ (.first (.sweeps 1000 (stale_of_empty rfl) ["web"])) trivial
  have run₁₁ := timely_snoc run₁₀ (.first (@Acts.probes _ 1000 [] "web" [] [])) trivial
  have run₁₂ := timely_snoc run₁₁ (.first .writes) (hrow _ rfl)
  have run₁₃ := timely_snoc run₁₂ (.first .stamps) fun rows h => Option.some.inj h ▸ hrow _ rfl
  have run₁₄ := timely_snoc run₁₃ (.first_ends .frees) trivial
  have run₁₅ := timely_snoc run₁₄ (.call (.request false)) trivial
  have run₁₆ := timely_snoc run₁₅ (.first (.asks none fun _ => rfl)) trivial
  have run₁₇ := timely_snoc run₁₆ (.first (.hits 1001 (by decide) (fresh_stamped rfl rfl)))
    fun _ h => h
  have run₁₈ := timely_snoc run₁₇ (.first_ends .serves) trivial
  refine ⟨_, _, run₁₈, List.mem_cons_self, ?_⟩
  exact served_after_install _ _ run₁₈ ⟨[webJob], [probedAfter]⟩ List.mem_cons_self webJob
    List.mem_cons_self probedAfter List.mem_cons_self List.mem_cons_self

def probedBefore : Row := ⟨"web", []⟩

/-- A sweep that has asked the host before the install writes its row back behind the
invalidation. -/
theorem swept_before_install : ¬∀ (trace : List (Event Point Action)) (p : Pool Shared Point),
    (updates.machine initial).Run ⟨initial, []⟩ trace p →
      ∀ resp ∈ p.shared.served, ∀ j ∈ resp.started, ∀ r ∈ resp.rows, r.id ∈ j.hosts →
        (j, r.id) ∈ r.seen := by
  intro h
  have run₁ : (updates.machine initial).Run ⟨initial, []⟩ _ _ :=
    (Machine.Run.nil _).snoc (Steps.call (.request false))
  have run₂ := run₁.snoc (Steps.first (.asks none fun _ => rfl))
  have run₃ := run₂.snoc (Steps.first (.misses 1000 (stale_of_empty rfl)))
  have run₄ := run₃.snoc (Steps.first (.locks rfl))
  have run₅ := run₄.snoc (Steps.first (.sweeps 1000 (stale_of_empty rfl) ["web"]))
  have run₆ := run₅.snoc (Steps.first (@Acts.probes _ 1000 [] "web" [] []))
  have run₇ := run₆.snoc (Steps.call (.install ["web"]))
  have run₈ := run₇.snoc (Steps.first .posts)
  have run₉ := run₈.snoc (Steps.first (@Acts.finishes _ webJob [] "web" []))
  have run₁₀ := run₉.snoc (Steps.first .marks)
  have run₁₁ := run₁₀.snoc (Steps.first_ends .clears)
  have run₁₂ := run₁₁.snoc (Steps.first .writes)
  have run₁₃ := run₁₂.snoc (Steps.first .stamps)
  have run₁₄ := run₁₃.snoc (Steps.first_ends .frees)
  have run₁₅ := run₁₄.snoc (Steps.call (.request false))
  have run₁₆ := run₁₅.snoc (Steps.first (.asks none fun _ => rfl))
  have run₁₇ := run₁₆.snoc (Steps.first (.hits 1001 (by decide) (fresh_stamped rfl rfl)))
  have run₁₈ := run₁₇.snoc (Steps.first_ends .serves)
  have hseen := h _ _ run₁₈ ⟨[webJob], [probedBefore]⟩ List.mem_cons_self webJob
    List.mem_cons_self probedBefore List.mem_cons_self List.mem_cons_self
  exact absurd hseen List.not_mem_nil

end UpdatesCache
