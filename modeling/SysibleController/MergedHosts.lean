import SysibleController.KeyedTable
import SysibleController.PythonText
import Mathlib.Data.List.Perm.Basic

/-! The one list of hosts that pages and jobs work on (`client/_api_dispatch.py`): agents and
SSH records, merged by host name and then folded by IP address. -/
namespace MergedHosts

open KeyedTable PythonText

/-- A row of `GET /agents`; a missing text is empty. -/
structure Agent where
  hostId : String
  hostname : String
  ip : String
  environment : String
  revoked : Bool
  sshTerminalState : Option String
  requiresSudoPassword : Bool
  isController : Bool
  integrityQuarantined : Bool
  deriving DecidableEq

/-- A record of the SSH inventory. -/
structure SshRecord where
  name : String
  user : Option String
  ip : Option String
  environment : String
  deriving DecidableEq

abbrev Agents := Table Agent.hostId

abbrev SshHosts := Table SshRecord.name

inductive Kind where
  | agent
  | ssh
  deriving DecidableEq

structure Plain where
  kind : Kind
  id : String
  label : String
  typeText : String
  address : String
  environment : String
  sshTerminalState : Option String
  requiresSudoPassword : Bool
  isController : Bool
  integrityQuarantined : Bool
  deriving DecidableEq

inductive Entry where
  | plain (e : Plain)
  | merged (label : String) (agent ssh : Plain)
  deriving DecidableEq

namespace Entry

def id : Entry → String
  | plain e => e.id
  | merged label _ _ => label

def label : Entry → String
  | plain e => e.label
  | merged label _ _ => label

def typeText : Entry → String
  | plain e => e.typeText
  | merged _ _ _ => "Agent + SSH"

def address : Entry → String
  | plain e => e.address
  | merged _ a s => s!"agent: {a.address}   |   ssh: {s.address}"

def environment : Entry → String
  | plain e => e.environment
  | merged _ a s => if a.environment = "" then s.environment else a.environment

def isController : Entry → Bool
  | plain e => e.isController
  | merged _ a s => a.isController || s.isController

/-- The entry and its sub-entries' rows. -/
def parts : Entry → List Plain
  | plain e => [e]
  | merged _ a s => [a, s]

def isSsh : Entry → Bool
  | plain e => e.kind = .ssh
  | merged _ _ _ => false

end Entry

def agentEntry (a : Agent) : Plain :=
  { kind := .agent
    id := a.hostId
    label := if a.hostname = "" then a.hostId else a.hostname
    typeText := "Agent"
    address := if a.ip = "" then a.hostId else a.ip
    environment := a.environment
    sshTerminalState := a.sshTerminalState
    requiresSudoPassword := a.requiresSudoPassword
    isController := a.isController
    integrityQuarantined := a.integrityQuarantined }

def sshEntry (r : SshRecord) : Plain :=
  { kind := .ssh
    id := r.name
    label := r.name
    typeText := "SSH"
    address := r.user.getD "root" ++ "@" ++ r.ip.getD "?"
    environment := r.environment
    sshTerminalState := none
    requiresSudoPassword := false
    isController := false
    integrityQuarantined := false }

/-- The keys of `by_label`, in the order they are met. -/
def labelOrder : List Plain → List String
  | [] => []
  | e :: entries => e.label :: (labelOrder entries).filter (· ≠ e.label)

def mergeGroup (label : String) (group : List Plain) : List Entry :=
  match group.find? (·.kind = .agent), group.find? (·.kind = .ssh) with
  | some a, some s => .merged label a s :: (group.filter fun e => e ≠ a ∧ e ≠ s).map .plain
  | _, _ => group.map .plain

def mergeDuplicateHostEntries (entries : List Plain) : List Entry :=
  (labelOrder entries).flatMap fun label => mergeGroup label (entries.filter (·.label = label))

/-- `ip_of` -/
def ipOf (address : String) : String :=
  strip (String.ofList ((address.toList.splitOn '@').getLastD []))

def entryIp : Entry → String
  | .plain e => ipOf e.address
  | .merged _ a s => if ipOf a.address = "" then ipOf s.address else ipOf a.address

def agentIps (entries : List Entry) : List String :=
  ((entries.filter fun e => !e.isSsh).map entryIp).filter (· ≠ "")

/-- The loop of `_dedupe_same_ip` over the entries, `seen` standing for `seen_ssh_ips`. -/
def dedupeLoop (ips : List String) : List String → List Entry → List Entry
  | _, [] => []
  | seen, e :: entries =>
    if e.isSsh = false ∨ entryIp e = "" then e :: dedupeLoop ips seen entries
    else if entryIp e ∈ ips ∨ entryIp e ∈ seen then dedupeLoop ips seen entries
    else e :: dedupeLoop ips (entryIp e :: seen) entries

def dedupeSameIp (entries : List Entry) : List Entry := dedupeLoop (agentIps entries) [] entries

def rawEntries (agents : List Agent) (ssh : List SshRecord) : List Plain :=
  (agents.filter fun a => !a.revoked).map agentEntry ++ ssh.map sshEntry

/-- `list_merged_hosts`; a listing that fails counts as empty. -/
def listMergedHosts (agents : Option Agents) (ssh : Option SshHosts) (agentOnly : Bool) :
    List Entry :=
  let agents := agents.elim [] Table.rows
  let ssh := ssh.elim [] Table.rows
  let merged := dedupeSameIp (mergeDuplicateHostEntries (rawEntries agents ssh))
  if agentOnly then merged.filter fun e => !e.isSsh else merged

/-! ### Merging by host name -/

variable {entries group : List Plain} {p q : Plain} {label : String} {e : Entry}

theorem mem_labelOrder : label ∈ labelOrder entries ↔ ∃ p ∈ entries, p.label = label := by
  induction entries with
  | nil => simp [labelOrder]
  | cons q entries ih =>
    simp only [labelOrder, List.mem_cons, List.mem_filter, ih, decide_eq_true_eq]
    by_cases h : label = q.label
    · simp [h]
    · simp [h, Ne.symm h]

theorem labelOrder_nodup (entries : List Plain) : (labelOrder entries).Nodup := by
  induction entries with
  | nil => exact List.nodup_nil
  | cons q entries ih =>
    rw [labelOrder, List.nodup_cons]
    exact ⟨by simp, ih.filter _⟩

theorem labelOrder_append (l m : List Plain) :
    labelOrder (l ++ m) =
      labelOrder l ++ (labelOrder m).filter (· ∉ l.map Plain.label) := by
  induction l with
  | nil => simp [labelOrder]
  | cons e l ih =>
    simp only [List.cons_append, labelOrder, ih, List.filter_append, List.filter_filter]
    congr 2
    refine List.filter_congr fun x _ => ?_
    by_cases h : x = e.label <;> simp [h]

theorem labelOrder_of_nodup (h : (entries.map Plain.label).Nodup) :
    labelOrder entries = entries.map Plain.label := by
  induction entries with
  | nil => rfl
  | cons e l ih =>
    obtain ⟨hnot, h⟩ := List.nodup_cons.mp h
    rw [labelOrder, ih h, List.map_cons, List.filter_eq_self.mpr]
    rintro x hx
    refine decide_eq_true ?_
    rintro rfl
    exact hnot hx

/-- The pair a label is merged from. -/
def Pair (entries : List Plain) (label : String) (a s : Plain) : Prop :=
  (entries.filter (·.label = label)).find? (·.kind = .agent) = some a ∧
    (entries.filter (·.label = label)).find? (·.kind = .ssh) = some s

theorem Pair.agent {a s : Plain} (h : Pair entries label a s) :
    a ∈ entries ∧ a.label = label ∧ a.kind = .agent := by
  have hmem := List.mem_filter.mp (List.mem_of_find?_eq_some h.1)
  exact ⟨hmem.1, by simpa using hmem.2, by simpa using List.find?_some h.1⟩

theorem Pair.ssh {a s : Plain} (h : Pair entries label a s) :
    s ∈ entries ∧ s.label = label ∧ s.kind = .ssh := by
  have hmem := List.mem_filter.mp (List.mem_of_find?_eq_some h.2)
  exact ⟨hmem.1, by simpa using hmem.2, by simpa using List.find?_some h.2⟩

theorem mem_merge_merged {a s : Plain} :
    .merged label a s ∈ mergeDuplicateHostEntries entries ↔ Pair entries label a s := by
  unfold mergeDuplicateHostEntries Pair
  rw [List.mem_flatMap]
  constructor
  · rintro ⟨l, -, hmem⟩
    unfold mergeGroup at hmem
    split at hmem
    · rename_i a' s' ha hs
      rcases List.mem_cons.mp hmem with hmem | hmem
      · obtain ⟨rfl, rfl, rfl⟩ := Entry.merged.inj hmem
        exact ⟨ha, hs⟩
      · simp at hmem
    · simp at hmem
  · intro h
    refine ⟨label, mem_labelOrder.mpr ⟨a, (Pair.agent h).1, (Pair.agent h).2.1⟩, ?_⟩
    simp [mergeGroup, h.1, h.2]

theorem mem_merge_plain :
    .plain p ∈ mergeDuplicateHostEntries entries ↔
      p ∈ entries ∧ ∀ a s, Pair entries p.label a s → p ≠ a ∧ p ≠ s := by
  unfold mergeDuplicateHostEntries Pair
  rw [List.mem_flatMap]
  constructor
  · rintro ⟨l, -, hmem⟩
    unfold mergeGroup at hmem
    split at hmem
    · rename_i a' s' ha hs
      simp only [List.mem_cons, reduceCtorEq, List.mem_map, List.mem_filter, false_or,
        decide_eq_true_eq, Entry.plain.injEq, exists_eq_right] at hmem
      obtain ⟨⟨hp, rfl⟩, hne⟩ := hmem
      refine ⟨hp, ?_⟩
      rintro a s ⟨ha', hs'⟩
      obtain rfl := Option.some.inj (ha.symm.trans ha')
      obtain rfl := Option.some.inj (hs.symm.trans hs')
      exact hne
    · rename_i hnone
      simp only [List.mem_map, List.mem_filter, decide_eq_true_eq, Entry.plain.injEq,
        exists_eq_right] at hmem
      obtain ⟨hp, rfl⟩ := hmem
      refine ⟨hp, ?_⟩
      rintro a s ⟨ha, hs⟩
      exact absurd hs (hnone a s ha)
  · rintro ⟨hp, hne⟩
    refine ⟨p.label, mem_labelOrder.mpr ⟨p, hp, rfl⟩, ?_⟩
    unfold mergeGroup
    split
    · rename_i a s ha hs
      simp [hp, hne a s ⟨ha, hs⟩]
    · simp [hp]

theorem group_perm (hnd : group.Nodup) :
    ((mergeGroup label group).flatMap Entry.parts).Perm group := by
  have hparts : ∀ l : List Plain, (l.map Entry.plain).flatMap Entry.parts = l := by
    intro l
    simp [List.flatMap_map, Entry.parts]
  unfold mergeGroup
  split
  · rename_i a s ha hs
    have hak : a.kind = .agent := by simpa using List.find?_some ha
    have hsk : s.kind = .ssh := by simpa using List.find?_some hs
    have hne : s ≠ a := by
      rintro rfl
      simp [hak] at hsk
    have ha := List.mem_of_find?_eq_some ha
    have hs := List.mem_of_find?_eq_some hs
    rw [List.flatMap_cons, hparts]
    have herase : (group.erase a).erase s = group.filter fun e => e ≠ a ∧ e ≠ s := by
      rw [hnd.erase_eq_filter, (hnd.filter _).erase_eq_filter, List.filter_filter]
      refine List.filter_congr fun e _ => ?_
      by_cases h1 : e = a <;> by_cases h2 : e = s <;> simp [h1, h2]
    have hs' : s ∈ group.erase a := (List.mem_erase_of_ne hne).mpr hs
    have h1 := List.perm_cons_erase ha
    have h2 := List.perm_cons_erase hs'
    rw [herase] at h2
    exact (h1.trans (h2.cons a)).symm
  · rw [hparts]

theorem groups_perm (hnd : entries.Nodup) (labels : List String) (hl : labels.Nodup) :
    ((labels.flatMap fun l => mergeGroup l (entries.filter (·.label = l))).flatMap Entry.parts).Perm
      (entries.filter (·.label ∈ labels)) := by
  induction labels with
  | nil => simp
  | cons l labels ih =>
    obtain ⟨hnot, hl⟩ := List.nodup_cons.mp hl
    rw [List.flatMap_cons, List.flatMap_append]
    have hsplit := List.filter_append_perm (fun p : Plain => decide (p.label = l))
      (entries.filter (·.label ∈ l :: labels))
    have hthis : (entries.filter (·.label ∈ l :: labels)).filter (·.label = l) =
        entries.filter (·.label = l) := by
      rw [List.filter_filter]
      refine List.filter_congr fun p _ => ?_
      by_cases h : p.label = l <;> simp [h]
    have hrest : (entries.filter (·.label ∈ l :: labels)).filter (fun p => !decide (p.label = l)) =
        entries.filter (·.label ∈ labels) := by
      rw [List.filter_filter]
      refine List.filter_congr fun p _ => ?_
      by_cases h : p.label = l
      · simp [h, hnot]
      · simp [h]
    rw [hthis, hrest] at hsplit
    exact (((group_perm (hnd.filter _)).append (ih hl))).trans hsplit

/-- Merging shows every row exactly once. -/
theorem merge_perm (hnd : entries.Nodup) :
    ((mergeDuplicateHostEntries entries).flatMap Entry.parts).Perm entries := by
  have h := groups_perm hnd (labelOrder entries) (labelOrder_nodup entries)
  have hall : entries.filter (·.label ∈ labelOrder entries) = entries := by
    rw [List.filter_eq_self]
    intro p hp
    exact decide_eq_true (mem_labelOrder.mpr ⟨p, hp, rfl⟩)
  rwa [hall] at h

/-! ### Folding by IP address -/

theorem dedupeLoop_sublist (ips seen : List String) (l : List Entry) :
    (dedupeLoop ips seen l).Sublist l := by
  induction l generalizing seen with
  | nil => exact List.Sublist.refl _
  | cons e l ih =>
    unfold dedupeLoop
    split_ifs
    · exact (ih seen).cons_cons e
    · exact (ih seen).cons e
    · exact (ih _).cons_cons e

theorem dedupeLoop_append {ips seen : List String} {l m : List Entry}
    (hl : ∀ e ∈ l, e.isSsh = false) : dedupeLoop ips seen (l ++ m) = l ++ dedupeLoop ips seen m := by
  induction l with
  | nil => rfl
  | cons e l ih =>
    rw [List.cons_append, dedupeLoop, if_pos (.inl (hl e (by simp))),
      ih fun x hx => hl x (by simp [hx]), List.cons_append]

def Fresh (ips seen : List String) (before : List Entry) (e : Entry) : Prop :=
  entryIp e = "" ∨ entryIp e ∉ ips ∧ entryIp e ∉ seen ∧ ∀ x ∈ before, entryIp x ≠ entryIp e

/-- An entry that has gone by counts like an address that has been seen. -/
theorem fresh_cons {ips seen : List String} {before : List Entry} {y : Entry} :
    Fresh ips seen (y :: before) e ↔ Fresh ips (entryIp y :: seen) before e := by
  refine or_congr_right (and_congr_right fun _ => ?_)
  constructor
  · intro ⟨hs, hb⟩
    refine ⟨?_, fun x hx => hb x (List.mem_cons_of_mem y hx)⟩
    exact List.not_mem_cons_of_ne_of_not_mem (hb y List.mem_cons_self).symm hs
  · intro ⟨hs, hb⟩
    refine ⟨List.not_mem_of_not_mem_cons hs, ?_⟩
    intro x hx
    rcases List.mem_cons.mp hx with rfl | hx
    · exact (List.ne_of_not_mem_cons hs).symm
    · exact hb x hx

/-- Seeing it again changes nothing. -/
theorem fresh_seen {ips seen : List String} {before : List Entry} {ip : String}
    (hip : ip = "" ∨ ip ∈ ips ∨ ip ∈ seen) :
    Fresh ips (ip :: seen) before e ↔ Fresh ips seen before e := by
  by_cases he : entryIp e = ""
  · exact iff_of_true (.inl he) (.inl he)
  refine or_congr_right (and_congr_right fun ha => ?_)
  constructor
  · exact fun ⟨hs, hb⟩ => ⟨List.not_mem_of_not_mem_cons hs, hb⟩
  · intro ⟨hs, hb⟩
    refine ⟨List.not_mem_cons_of_ne_of_not_mem ?_ hs, hb⟩
    rintro rfl
    exact (hip.resolve_left he).elim ha hs

theorem exists_split_cons {y : Entry} {l : List Entry} {P : List Entry → Prop} :
    (∃ before after, y :: l = before ++ e :: after ∧ P before) ↔
      (e = y ∧ P []) ∨ ∃ before after, l = before ++ e :: after ∧ P (y :: before) := by
  constructor
  · rintro ⟨before, after, heq, hP⟩
    cases before with
    | nil =>
      rw [List.nil_append, List.cons.injEq] at heq
      exact .inl ⟨heq.1.symm, hP⟩
    | cons b before =>
      rw [List.cons_append, List.cons.injEq] at heq
      obtain ⟨rfl, heq⟩ := heq
      exact .inr ⟨before, after, heq, hP⟩
  · rintro (⟨rfl, hP⟩ | ⟨before, after, rfl, hP⟩)
    · exact ⟨[], l, rfl, hP⟩
    · exact ⟨y :: before, after, rfl, hP⟩

/-- An SSH entry stays if it has no IP, or one that neither an agent nor an earlier SSH entry
has. -/
theorem mem_dedupeLoop {ips seen : List String} {l : List Entry} (hl : ∀ e ∈ l, e.isSsh = true) :
    e ∈ dedupeLoop ips seen l ↔ ∃ before after, l = before ++ e :: after ∧
      (entryIp e = "" ∨ entryIp e ∉ ips ∧ entryIp e ∉ seen ∧
        ∀ x ∈ before, entryIp x ≠ entryIp e) := by
  change _ ↔ ∃ before after, l = before ++ e :: after ∧ Fresh ips seen before e
  induction l generalizing seen with
  | nil => simp [dedupeLoop]
  | cons y l ih =>
    have ih := fun seen => @ih seen fun x hx => hl x (by simp [hx])
    have hssh : y.isSsh = true := hl y (by simp)
    simp only [exists_split_cons, fresh_cons]
    rw [dedupeLoop]
    split_ifs with h1 h2
    · obtain h1 : entryIp y = "" := by simpa [hssh] using h1
      simp only [fresh_seen (.inl h1)]
      rw [List.mem_cons, ih]
      refine or_congr_left ⟨?_, And.left⟩
      rintro rfl
      exact ⟨rfl, .inl h1⟩
    · simp only [fresh_seen (.inr h2)]
      rw [ih]
      refine (or_iff_right ?_).symm
      rintro ⟨rfl, hip | ⟨ha, hs, -⟩⟩
      · exact h1 (.inr hip)
      · exact h2.elim ha hs
    · rw [List.mem_cons, ih]
      refine or_congr_left ⟨?_, And.left⟩
      rintro rfl
      exact ⟨rfl, .inr ⟨fun h => h2 (.inl h), fun h => h2 (.inr h), fun x hx => nomatch hx⟩⟩

end MergedHosts
