import SysibleController.KeyedTable
import SysibleController.PythonText
import SysibleController.EarlyExit

/-! The controller's tally of the addresses it is reached at (`backend/self_address.py`): which
peer is counted for a request, and when another address replaces the advertised one. Times are
rationals. -/
namespace SelfAddress

open KeyedTable PythonText EarlyExit

/-- What the module asks of `ipaddress`: the text of a literal, and whether a managed host
could reach it (`is_routable_for_fleet`). -/
structure Addresses where
  literal : String → Option String
  routable : String → Bool

structure Sighting where
  addr : String
  first : ℚ
  last : ℚ
  count : ℕ
  peers : List String

abbrev Store := Table Sighting.addr

def staleAfter : ℚ := 15 * 60

def minSightings : ℕ := 20

def minSources : ℕ := 2

def minSpread : ℚ := 5 * 60

def maxTracked : ℕ := 64

def maxPeers : ℕ := 16

variable (ip : Addresses)

/-- The dialled address as a bare literal, or `""`. -/
def normalise (host : String) : String :=
  let h := strip host
  let bare :=
    if h.toList.head? = some '[' then (partition ']' (String.ofList h.toList.tail)).1
    else if h.toList.count ':' = 1 then (partition ':' h).1
    else h
  (ip.literal bare).getD ""

/-- The first of the entries seen longest ago. -/
def oldest : List Sighting → Option Sighting
  | [] => none
  | e :: rest =>
    match oldest rest with
    | none => some e
    | some e' => some (if e'.last < e.last then e' else e)

def forgetOldest (store : Store) : Store :=
  match oldest store.rows with
  | none => store
  | some e => store.deleteWhere fun r => r.addr = e.addr

def Sighting.seen (e : Sighting) (peer : String) (now : ℚ) : Sighting :=
  { e with
    last := now
    count := e.count + 1
    peers := if peer ≠ "" ∧ peer ∉ e.peers ∧ e.peers.length < maxPeers then e.peers ++ [peer]
      else e.peers }

theorem Sighting.seen_addr (peer : String) (now : ℚ) (e : Sighting) :
    (e.seen peer now).addr = e.addr := rfl

/-- Records that `peer` reached the controller at `addr`. -/
def observe (store : Store) (addr peer : String) (now : ℚ) : Store :=
  let addr := normalise ip addr
  if addr = "" ∨ ip.routable addr = false then store
  else match store.find addr with
    | some _ => store.update addr (Sighting.seen · peer now) (Sighting.seen_addr peer now)
    | none =>
      let store := if maxTracked ≤ store.rows.length then forgetOldest store else store
      store.put ((⟨addr, now, now, 0, []⟩ : Sighting).seen peer now)

structure Verdict where
  stale : Bool
  candidate : String
  reason : String

/-- Whether an entry has earned replacing the advertised address `adv`. -/
def Sighting.earned (e : Sighting) (adv : String) (now : ℚ) : Bool :=
  e.addr ≠ adv && !(staleAfter < now - e.last) &&
    !(e.count < minSightings || e.peers.length < minSources) && !(e.last - e.first < minSpread)

def better (adv : String) (now : ℚ) (best : Option Sighting) (e : Sighting) : Option Sighting :=
  if e.earned adv now && (best.map Sighting.count).getD 0 < e.count then some e else best

/-- Should the advertised address be replaced, and with what? -/
def assess (store : Store) (advertised : String) (now : ℚ) : Verdict :=
  let adv := normalise ip advertised
  let seen := if adv = "" then none else store.find adv
  let silentFor := seen.map fun e => now - e.last
  if silentFor.any (· ≤ staleAfter) then
    ⟨false, "", s!"{adv} was reached {PythonInt.truncated (silentFor.getD 0)}s ago"⟩
  else if adv = "" then ⟨false, "", "no address is advertised"⟩
  else
    let silence := match silentFor with
      | none => "never seen"
      | some s => s!"silent for {PythonInt.truncated s}s"
    match store.rows.foldl (better adv now) none with
    | none => ⟨true, "", s!"{adv} is {silence}, and nothing else has earned replacing it"⟩
    | some e => ⟨true, e.addr, s!"{adv} is {silence}; {e.addr} answered {e.count} times " ++
        s!"from {e.peers.length} hosts"⟩

/-- A header by its lower-case name. -/
abbrev Headers := String → Option String

/-- The first value that is not empty. -/
def orElse (a : Option String) (b : String) : String :=
  match a with
  | some s => if s = "" then b else s
  | none => b

/-- The hop that a proxy in front would have appended to `X-Forwarded-For`. -/
def lastHop (headers : Headers) : String :=
  strip (String.ofList ((((headers "x-forwarded-for").getD "").toList.splitOn ',').getLastD []))

/-- The address dialled, and the peer that is counted for it. -/
def fromRequest (headers : Headers) (clientHost : String) : String × String :=
  (orElse (headers "x-forwarded-host") (orElse (headers "host") ""),
    if lastHop headers = "" then clientHost else lastHop headers)

structure Request where
  headers : Headers
  time : ℚ

/-- The requests of one TCP peer, one after the other. -/
def observeAll (clientHost : String) (requests : List Request) (store : Store) : Store :=
  requests.foldl (fun store r => observe ip store (fromRequest r.headers clientHost).1
    (fromRequest r.headers clientHost).2 r.time) store

/-! ## The votes of one peer -/

/-- Nobody but `p` is counted for address `a`. -/
def OneVote (p a : String) (store : Store) : Prop :=
  ∀ e, store.find a = some e → ∀ q ∈ e.peers, q = p ∧ e.peers.length = 1

variable {ip} {store : Store} {a p addr peer client advertised : String} {now : ℚ} {e : Sighting}

theorem seen_oneVote (h : ∀ q ∈ e.peers, q = p ∧ e.peers.length = 1)
    (hpeer : peer = "" ∨ peer = p) :
    ∀ q ∈ (e.seen peer now).peers, q = p ∧ (e.seen peer now).peers.length = 1 := by
  intro q hq
  unfold Sighting.seen at hq ⊢
  dsimp only at hq ⊢
  split_ifs at hq ⊢ with hnew
  · obtain ⟨hne, hnot, -⟩ := hnew
    obtain rfl := hpeer.resolve_left hne
    have hnil : e.peers = [] := by
      rw [List.eq_nil_iff_forall_not_mem]
      intro q hq
      exact hnot ((h q hq).1 ▸ hq)
    rw [hnil] at hq ⊢
    exact ⟨by simpa using hq, rfl⟩
  · exact h q hq

theorem forgetOldest_find (h : (forgetOldest store).find a = some e) : store.find a = some e := by
  unfold forgetOldest at h
  cases hold : oldest store.rows with
  | none =>
    rw [hold] at h
    exact h
  | some old =>
    rw [hold] at h
    rw [Table.find_deleteWhere, Option.filter_eq_some_iff] at h
    exact h.1

theorem observe_oneVote (h : OneVote p a store) (hpeer : peer = "" ∨ peer = p) :
    OneVote p a (observe ip store addr peer now) := by
  unfold observe
  dsimp only
  by_cases hskip : normalise ip addr = "" ∨ ip.routable (normalise ip addr) = false
  · rw [if_pos hskip]
    exact h
  rw [if_neg hskip]
  split
  · rename_i old hold
    intro e he
    rw [Table.find_update] at he
    split_ifs at he with haddr
    · subst haddr
      rw [hold] at he
      obtain rfl := Option.some.inj he
      exact seen_oneVote (h old hold) hpeer
    · exact h e he
  · intro e he
    rw [Table.find_put] at he
    split_ifs at he with haddr
    · obtain rfl := Option.some.inj he
      exact seen_oneVote (by simp) hpeer
    · exact h e (forgetOldest_find he)
    · exact h e he

theorem observeAll_oneVote (h : OneVote p a store) (requests : List Request)
    (hrequests : ∀ r ∈ requests, (fromRequest r.headers client).2 = "" ∨
      (fromRequest r.headers client).2 = p) :
    OneVote p a (observeAll ip client requests store) := by
  induction requests generalizing store with
  | nil => exact h
  | cons r requests ih =>
    have hfirst : OneVote p a (observe ip store (fromRequest r.headers client).1
        (fromRequest r.headers client).2 r.time) :=
      observe_oneVote h (hrequests r (List.mem_cons_self ..))
    exact ih hfirst fun r' hr' => hrequests r' (List.mem_cons_of_mem r hr')

/-- The candidate has been voted for by two peers. -/
theorem candidate_has_peers (ha : a ≠ "") (h : (assess ip store advertised now).candidate = a) :
    ∃ e, store.find a = some e ∧ minSources ≤ e.peers.length := by
  have hbest : ∀ e, store.rows.foldl (better (normalise ip advertised) now) none = some e →
      e ∈ store.rows ∧ minSources ≤ e.peers.length := by
    have hrule := foldl_rule (f := better (normalise ip advertised) now)
      (I := fun done todo (best : Option Sighting) => done ++ todo = store.rows ∧
        ∀ e, best = some e → e ∈ store.rows ∧ minSources ≤ e.peers.length) ?_
      store.rows [] none ⟨rfl, by simp⟩
    · exact hrule.2
    · rintro done x todo best ⟨hrows, hb⟩
      refine ⟨by simpa using hrows, ?_⟩
      intro e he
      unfold better at he
      split_ifs at he with hearned
      · obtain rfl := Option.some.inj he
        refine ⟨by rw [← hrows]; simp, ?_⟩
        simp only [Sighting.earned, Bool.and_eq_true, Bool.not_eq_true', Bool.or_eq_false_iff,
          decide_eq_false_iff_not, not_lt] at hearned
        exact hearned.1.1.2.2
      · exact hb e he
  unfold assess at h
  dsimp only at h
  generalize (if normalise ip advertised = "" then none
    else store.find (normalise ip advertised)) = seen at h
  by_cases hlive : (seen.map fun e => now - e.last).any (· ≤ staleAfter) = true
  · rw [if_pos hlive] at h
    exact absurd h.symm ha
  by_cases hadv : normalise ip advertised = ""
  · rw [if_neg hlive, if_pos hadv] at h
    exact absurd h.symm ha
  rw [if_neg hlive, if_neg hadv] at h
  split at h
  · exact absurd h.symm ha
  · rename_i e he
    obtain ⟨hmem, hpeers⟩ := hbest e he
    exact ⟨e, Table.find_eq_some.mpr ⟨hmem, h⟩, hpeers⟩

/-- One client cannot vote an address in, as long as all its requests are counted for one peer. -/
theorem one_peer_votes_nothing_in (ip : Addresses) (store : Store)
    (a client p advertised : String) (requests : List Request) (now : ℚ) (ha : a ≠ "")
    (hstore : store.find a = none)
    (hrequests : ∀ r ∈ requests, (fromRequest r.headers client).2 = "" ∨
      (fromRequest r.headers client).2 = p) :
    (assess ip (observeAll ip client requests store) advertised now).candidate ≠ a := by
  intro h
  obtain ⟨e, he, hpeers⟩ := candidate_has_peers ha h
  have hvote : OneVote p a store := by
    intro e he
    rw [hstore] at he
    cases he
  have hone := observeAll_oneVote hvote requests hrequests e he
  cases hnil : e.peers with
  | nil =>
    rw [hnil] at hpeers
    exact absurd hpeers (by decide)
  | cons q rest =>
    have := (hone q (by simp [hnil])).2
    rw [this] at hpeers
    exact absurd hpeers (by decide)

/-! A client that names itself, and one that names a new peer in its first request. -/

def sampleAddresses : Addresses where
  literal h := if h ∈ ["192.168.1.22", "192.168.1.40"] then some h else none
  routable _ := true

def dialled (peer : String) : Headers := fun name =>
  if name = "host" then some "192.168.1.40:9000"
  else if name = "x-forwarded-for" then some peer
  else none

def every15s (peer : ℕ → String) : List Request :=
  (List.range 21).map fun i => ⟨dialled (peer i), 15 * i⟩

theorem one_peer_votes_nothing_in_sample :
    (assess sampleAddresses (observeAll sampleAddresses "10.0.0.9"
      (every15s fun _ => "10.0.0.9") Table.empty) "192.168.1.22" 300).candidate ≠
      "192.168.1.40" :=
  one_peer_votes_nothing_in sampleAddresses Table.empty "192.168.1.40" "10.0.0.9" "10.0.0.9"
    "192.168.1.22" (every15s fun _ => "10.0.0.9") 300 (by decide) rfl (by
      intro r hr
      obtain ⟨i, -, rfl⟩ := List.mem_map.mp hr
      have hclaim : (fromRequest (dialled "10.0.0.9") "10.0.0.9").2 = "10.0.0.9" := by
        decide
      exact Or.inr hclaim)

/-- One client casts two votes, and its address is the candidate. -/
theorem one_client_votes_twice :
    (assess sampleAddresses (observeAll sampleAddresses "10.0.0.9"
      (every15s fun i => if i = 0 then "10.0.0.1" else "10.0.0.2") Table.empty)
      "192.168.1.22" 300).candidate = "192.168.1.40" := by
  decide +kernel

end SelfAddress
