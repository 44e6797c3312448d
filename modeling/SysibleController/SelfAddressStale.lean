import SysibleController.SelfAddress
import Mathlib.Tactic.Linarith

/-! Whether a freshly reached address can be declared dead. The tally is bounded, so calls that
record other addresses may drop the advertised one, and some addresses are never recorded. -/
namespace SelfAddress

open KeyedTable

def forgetAfter : ℚ := 24 * 60 * 60

def prune (store : Store) (now : ℚ) : Store :=
  store.deleteWhere fun e => forgetAfter < now - e.last

inductive Op where
  | observe (addr peer : String) (now : ℚ)
  | prune (now : ℚ)

def Op.time : Op → ℚ
  | .observe _ _ now => now
  | .prune now => now

variable (ip : Addresses)

def Op.apply (store : Store) : Op → Store
  | .observe addr peer now => SelfAddress.observe ip store addr peer now
  | .prune now => SelfAddress.prune store now

def run (store : Store) (ops : List Op) : Store := ops.foldl (Op.apply ip) store

def Op.Observes (adv : String) : Op → Prop
  | .observe addr _ _ => normalise ip addr = adv
  | .prune _ => False

/-- A call that makes room for another address by dropping `adv`, the one seen longest ago. -/
def Op.Drops (adv : String) (store : Store) : Op → Prop
  | .observe addr _ _ => normalise ip addr ≠ "" ∧ ip.routable (normalise ip addr) = true ∧
      store.find (normalise ip addr) = none ∧ maxTracked ≤ store.rows.length ∧
      (oldest store.rows).map Sighting.addr = some adv
  | .prune _ => False

/-- Some call drops `adv`, and no later one records it again. -/
def Forgets (adv : String) : Store → List Op → Prop
  | _, [] => False
  | store, op :: ops => (op.Drops ip adv store ∧ ∀ o ∈ ops, ¬o.Observes ip adv) ∨
      Forgets adv (op.apply ip store) ops

variable {ip} {store : Store} {adv addr peer advertised : String} {now : ℚ} {op : Op} {ops : List Op}

/-! ### One call -/

theorem oldest_mem {rows : List Sighting} {e : Sighting} (h : oldest rows = some e) : e ∈ rows := by
  induction rows generalizing e with
  | nil => cases h
  | cons r rest ih =>
    unfold oldest at h
    cases hrest : oldest rest with
    | none =>
      rw [hrest] at h
      simp only [Option.some.injEq] at h
      simp [h]
    | some e' =>
      rw [hrest] at h
      simp only [Option.some.injEq] at h
      split_ifs at h
      · exact List.mem_cons_of_mem _ (h ▸ ih hrest)
      · simp [h]

theorem forgetOldest_find_eq (a : String) : (forgetOldest store).find a =
    if (oldest store.rows).map Sighting.addr = some a then none else store.find a := by
  unfold forgetOldest
  cases hold : oldest store.rows with
  | none => simp
  | some e =>
    dsimp only
    rw [Table.find_deleteWhere]
    by_cases ha : e.addr = a
    · subst ha
      simp only [Option.map_some, if_true]
      refine Option.filter_eq_none_iff.mpr fun r hr => ?_
      simp [Table.key_of_find hr]
    · simp only [Option.map_some, Option.some.injEq, ha, if_false]
      cases hfind : store.find a with
      | none => rfl
      | some r =>
        have hkey := Table.key_of_find hfind
        simp [Option.filter, hkey, Ne.symm ha]

/-- A recorded address has just been seen. -/
theorem observe_find_self (hne : normalise ip addr ≠ "")
    (hroutable : ip.routable (normalise ip addr) = true) :
    ∃ e, (observe ip store addr peer now).find (normalise ip addr) = some e ∧ e.last = now := by
  unfold observe
  dsimp only
  rw [if_neg (by simp [hne, hroutable])]
  split
  · rename_i e he
    exact ⟨e.seen peer now, by rw [Table.find_update, if_pos rfl, he]; rfl, rfl⟩
  · refine ⟨Sighting.seen ⟨normalise ip addr, now, now, 0, []⟩ peer now, ?_, rfl⟩
    rw [Table.find_put, Sighting.seen_addr, if_pos rfl]

/-- A call about another address leaves the entry, or drops it to make room. -/
theorem observe_find_other (hother : normalise ip addr ≠ adv) :
    (¬(Op.observe addr peer now).Drops ip adv store ∧
        (observe ip store addr peer now).find adv = store.find adv) ∨
      ((Op.observe addr peer now).Drops ip adv store ∧
        (observe ip store addr peer now).find adv = none) := by
  unfold observe Op.Drops
  dsimp only
  by_cases hskip : normalise ip addr = "" ∨ ip.routable (normalise ip addr) = false
  · rw [if_pos hskip]
    refine .inl ⟨fun h => ?_, rfl⟩
    rcases hskip with hskip | hskip
    · exact h.1 hskip
    · exact Bool.false_ne_true (hskip.symm.trans h.2.1)
  rw [if_neg hskip]
  push Not at hskip
  split
  · rename_i e he
    refine .inl ⟨fun h => ?_, by rw [Table.find_update, if_neg (Ne.symm hother)]⟩
    rw [he] at h
    exact absurd h.2.2.1 (by simp)
  · rename_i hnew
    have hput : ∀ t : Store, (t.put ((⟨normalise ip addr, now, now, 0, []⟩ : Sighting).seen peer
        now)).find adv = t.find adv := fun t => by
      rw [Table.find_put, Sighting.seen_addr, if_neg (Ne.symm hother)]
    rw [hput]
    split_ifs with hfull
    · rw [forgetOldest_find_eq]
      split_ifs with hold
      · exact .inr ⟨⟨hskip.1, by simpa using hskip.2, hnew, hfull, hold⟩, rfl⟩
      · exact .inl ⟨fun h => hold h.2.2.2.2, rfl⟩
    · exact .inl ⟨fun h => hfull h.2.2.2.1, rfl⟩

/-- What is dropped is in the tally, so a call about it does not drop it. -/
theorem Op.Drops.not_observes (h : op.Drops ip adv store) : ¬op.Observes ip adv := by
  cases op with
  | prune now => exact absurd h id
  | observe addr peer now =>
    obtain ⟨-, -, hnew, -, hold⟩ := h
    intro hobs
    obtain ⟨e, he, hadv⟩ := Option.map_eq_some_iff.mp hold
    have hsome := Table.find_eq_some.mpr ⟨oldest_mem he, hadv⟩
    rw [show normalise ip addr = adv from hobs, hsome] at hnew
    cases hnew

/-- The prune keeps an entry that was seen within the window. -/
theorem prune_find {e : Sighting} (hfind : store.find adv = some e) (hfresh : now - e.last ≤ forgetAfter) :
    (prune store now).find adv = some e := by
  unfold prune
  rw [Table.find_deleteWhere, hfind]
  simpa [Option.filter] using hfresh

theorem prune_find_none (hfind : store.find adv = none) : (prune store now).find adv = none := by
  unfold prune
  rw [Table.find_deleteWhere, hfind]
  rfl

/-! ### Whole runs -/

/-- An address that nobody records stays out of the tally. -/
theorem run_find_none (hfind : store.find adv = none) (hops : ∀ o ∈ ops, ¬o.Observes ip adv) :
    (run ip store ops).find adv = none := by
  induction ops generalizing store with
  | nil => exact hfind
  | cons op ops ih =>
    refine ih ?_ fun o ho => hops o (List.mem_cons_of_mem _ ho)
    have hop := hops op (List.mem_cons_self ..)
    cases op with
    | prune now => exact prune_find_none hfind
    | observe addr peer now =>
      rcases observe_find_other hop with ⟨-, h⟩ | ⟨-, h⟩
      · exact h.trans hfind
      · exact h

theorem Op.Drops.find_none (h : op.Drops ip adv store) : (op.apply ip store).find adv = none := by
  have hother := h.not_observes
  cases op with
  | prune now => exact absurd h id
  | observe addr peer now => exact ((observe_find_other hother).resolve_left fun hl => hl.1 h).2

theorem Forgets.find_none (h : Forgets ip adv store ops) : (run ip store ops).find adv = none := by
  induction ops generalizing store with
  | nil => exact absurd h id
  | cons op ops ih =>
    rcases h with ⟨hdrops, hops⟩ | h
    · have hgone := run_find_none hdrops.find_none hops
      exact hgone
    · exact ih h

/-- The calls come in order, and none of them after `now`. -/
def InOrder (now : ℚ) (ops : List Op) : Prop :=
  ops.Pairwise (fun o o' => o.time ≤ o'.time) ∧ ∀ o ∈ ops, o.time ≤ now

def Fresh (adv : String) (now : ℚ) (store : Store) : Prop :=
  ∃ e, store.find adv = some e ∧ now - e.last ≤ staleAfter

/-- Recorded within the window by a call still to come, or recorded already and from now on
every call is within the window. -/
def Seen (ip : Addresses) (adv : String) (now : ℚ) (store : Store) (ops : List Op) : Prop :=
  (∃ o ∈ ops, o.Observes ip adv ∧ now - o.time ≤ staleAfter) ∨
    (Fresh adv now store ∧ ∀ o ∈ ops, now - o.time ≤ staleAfter)

theorem InOrder.later (horder : InOrder now (op :: ops)) (ht : now - op.time ≤ staleAfter) :
    ∀ o ∈ ops, now - o.time ≤ staleAfter := by
  intro o ho
  have := (List.pairwise_cons.mp horder.1).1 o ho
  linarith

theorem Seen.observes (h : Seen ip adv now store (op :: ops)) (hroutable : ip.routable adv = true)
    (hadv : adv ≠ "") (horder : InOrder now (op :: ops)) (hobs : op.Observes ip adv) :
    Seen ip adv now (op.apply ip store) ops := by
  cases op with
  | prune now => exact absurd hobs id
  | observe addr peer t =>
    obtain rfl : normalise ip addr = adv := hobs
    obtain ⟨e, he, hlast⟩ : ∃ e, (observe ip store addr peer t).find (normalise ip addr) =
        some e ∧ e.last = t := observe_find_self hadv hroutable
    by_cases hwindow : now - t ≤ staleAfter
    · exact .inr ⟨⟨e, he, hlast ▸ hwindow⟩, horder.later hwindow⟩
    · refine .inl ?_
      rcases h with ⟨o, ho, hobs, hrecent⟩ | ⟨-, hrecent⟩
      · rcases List.mem_cons.mp ho with rfl | ho
        · exact absurd hrecent hwindow
        · exact ⟨o, ho, hobs, hrecent⟩
      · exact absurd (hrecent _ (List.mem_cons_self ..)) hwindow

/-- A call about another address, which if it drops the entry is followed by one that records it. -/
theorem Seen.other (h : Seen ip adv now store (op :: ops)) (horder : InOrder now (op :: ops))
    (hobs : ¬op.Observes ip adv)
    (hdrop : op.Drops ip adv store → ∃ o ∈ ops, o.Observes ip adv) :
    Seen ip adv now (op.apply ip store) ops := by
  rcases h with ⟨o, ho, ho', hrecent⟩ | ⟨⟨e, he, hlast⟩, hrecent⟩
  · rcases List.mem_cons.mp ho with rfl | ho
    · exact absurd ho' hobs
    · exact .inl ⟨o, ho, ho', hrecent⟩
  have hlater := fun o ho => hrecent o (List.mem_cons_of_mem op ho)
  cases op with
  | prune t =>
    have ht : t ≤ now := horder.2 _ (List.mem_cons_self ..)
    refine .inr ⟨⟨e, prune_find he ?_, hlast⟩, hlater⟩
    have : staleAfter ≤ forgetAfter := by norm_num [staleAfter, forgetAfter]
    linarith
  | observe addr peer t =>
    by_cases hdropped : (Op.observe addr peer t).Drops ip adv store
    · obtain ⟨o, ho, ho'⟩ := hdrop hdropped
      exact .inl ⟨o, ho, ho', hlater o ho⟩
    · have hfind := ((observe_find_other hobs).resolve_right fun hr => hdropped hr.1).2
      exact .inr ⟨⟨e, hfind.trans he, hlast⟩, hlater⟩

theorem fresh_run (hroutable : ip.routable adv = true) (hadv : adv ≠ "") (horder : InOrder now ops)
    (hkept : ¬Forgets ip adv store ops) (hseen : Seen ip adv now store ops) :
    Fresh adv now (run ip store ops) := by
  induction ops generalizing store with
  | nil => exact (hseen.resolve_left (by simp)).1
  | cons op ops ih =>
    unfold Forgets at hkept
    push Not at hkept
    obtain ⟨hdrop, hkept⟩ := hkept
    have hrest : InOrder now ops :=
      ⟨(List.pairwise_cons.mp horder.1).2, fun o ho => horder.2 o (List.mem_cons_of_mem _ ho)⟩
    refine ih hrest hkept ?_
    by_cases hobs : op.Observes ip adv
    · exact hseen.observes hroutable hadv horder hobs
    · exact hseen.other horder hobs hdrop

/-- An address that `observe` does not record is never in the tally. -/
theorem run_find_unroutable (hroutable : ip.routable adv = false) (hfind : store.find adv = none) :
    (run ip store ops).find adv = none := by
  induction ops generalizing store with
  | nil => exact hfind
  | cons op ops ih =>
    refine ih ?_
    cases op with
    | prune now => exact prune_find_none hfind
    | observe addr peer now =>
      by_cases hobs : normalise ip addr = adv
      · subst hobs
        change (observe ip store addr peer now).find _ = none
        unfold observe
        rw [if_pos (.inr hroutable)]
        exact hfind
      · rcases observe_find_other hobs with ⟨-, h⟩ | ⟨-, h⟩
        · exact h.trans hfind
        · exact h

theorem assess_stale_iff : (assess ip store advertised now).stale = false ↔
    normalise ip advertised = "" ∨ Fresh (normalise ip advertised) now store := by
  unfold assess Fresh
  dsimp only
  by_cases hadv : normalise ip advertised = ""
  · simp [hadv]
  rw [if_neg hadv, or_iff_right hadv]
  cases hfind : store.find (normalise ip advertised) with
  | none =>
    rw [if_neg (by simp), if_neg hadv]
    split <;> simp
  | some e =>
    by_cases hlive : now - e.last ≤ staleAfter
    · refine iff_of_true ?_ ⟨e, rfl, hlive⟩
      rw [if_pos (by simpa using hlive)]
    · rw [if_neg (by simpa using hlive), if_neg hadv]
      split <;> simpa using hlive

/-- Exactly when an advertised address that was reached within the window is not declared dead. -/
theorem fresh_address_alive_iff (ip : Addresses) (advertised : String) {ops : List Op} {now : ℚ}
    (horder : InOrder now ops)
    (hseen : ∃ o ∈ ops, o.Observes ip (normalise ip advertised) ∧ now - o.time ≤ staleAfter) :
    (assess ip (run ip Table.empty ops) advertised now).stale = false ↔
      normalise ip advertised = "" ∨ (ip.routable (normalise ip advertised) = true ∧
        ¬Forgets ip (normalise ip advertised) Table.empty ops) := by
  rw [assess_stale_iff]
  by_cases hadv : normalise ip advertised = ""
  · simp [hadv]
  rw [or_iff_right hadv, or_iff_right hadv]
  constructor
  · rintro ⟨e, he, -⟩
    refine ⟨?_, fun hforgets => ?_⟩
    · by_contra hroutable
      have hnone : (run ip .empty ops).find (normalise ip advertised) = none :=
        run_find_unroutable (Bool.eq_false_iff.mpr hroutable) (Table.find_empty _)
      rw [he] at hnone
      cases hnone
    · rw [hforgets.find_none] at he
      cases he
  · rintro ⟨hroutable, hkept⟩
    exact fresh_run hroutable hadv horder hkept (.inl hseen)

/-! Every text is an address here, and all of them can be reached. -/

def anyAddress : Addresses := ⟨some, fun _ => true⟩

theorem fresh_address_alive_sample :
    (assess anyAddress (run anyAddress Table.empty [.observe "192.168.1.22" "10.0.0.9" 0, .prune 10])
      "192.168.1.22" 20).stale = false ↔
    normalise anyAddress "192.168.1.22" = "" ∨
      (anyAddress.routable (normalise anyAddress "192.168.1.22") = true ∧
        ¬Forgets anyAddress (normalise anyAddress "192.168.1.22") Table.empty
          [.observe "192.168.1.22" "10.0.0.9" 0, .prune 10]) := by
  refine fresh_address_alive_iff anyAddress "192.168.1.22" ⟨?_, ?_⟩ ⟨_, List.mem_cons_self .., rfl, ?_⟩
  · norm_num [Op.time]
  · norm_num [Op.time]
  · norm_num [Op.time, staleAfter]

/-- The advertised address, and a second later 64 others, as from a scan. -/
def scan : List Op := .observe "192.168.1.22" "10.0.0.9" 0 ::
  (List.range 64).map fun i => .observe s!"{i + 1}.0.0.1" "10.0.0.9" 1

theorem reached_and_dead : InOrder 1 scan ∧
    (∃ o ∈ scan, o.Observes anyAddress (normalise anyAddress "192.168.1.22") ∧
      1 - o.time ≤ staleAfter) ∧
    (assess anyAddress (run anyAddress Table.empty scan) "192.168.1.22" 1).stale = true := by
  refine ⟨⟨?_, ?_⟩, ⟨_, List.mem_cons_self .., rfl, ?_⟩, ?_⟩
  · refine List.pairwise_cons.mpr ⟨fun o ho => ?_, List.pairwise_map.mpr ?_⟩
    · obtain ⟨i, -, rfl⟩ := List.mem_map.mp ho
      norm_num [Op.time]
    · exact List.pairwise_of_forall fun _ _ => le_rfl
  · intro o ho
    rcases List.mem_cons.mp ho with rfl | ho
    · norm_num [Op.time]
    · obtain ⟨i, -, rfl⟩ := List.mem_map.mp ho
      exact le_rfl
  · norm_num [Op.time, staleAfter]
  · decide +kernel

end SelfAddress
