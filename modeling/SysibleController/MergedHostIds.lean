import SysibleController.MergedHosts
import Mathlib.Data.List.Pairwise

/-! Ids in the merged list of hosts. An entry goes by an agent's host id, by the name of an SSH
record, or by the host name the two share, and callers look entries up by it. -/
namespace MergedHosts

open KeyedTable PythonText

variable {agents : Agents} {ssh : SshHosts} {a b : Agent} {r : SshRecord} {p q : Plain}
  {e x y : Entry} {label : String}

/-- The agent that an SSH record of this name is merged with. -/
def twin (agents : Agents) (label : String) : Option Agent :=
  (agents.rows.filter fun a => !a.revoked).find? fun a => (agentEntry a).label = label

/-- The agent is shown together with the SSH record of its name. -/
def Paired (agents : Agents) (ssh : SshHosts) (a : Agent) : Prop :=
  twin agents (agentEntry a).label = some a ∧ (ssh.find (agentEntry a).label).isSome = true

/-- Some agent in the list is reached at this IP. -/
def AgentIp (agents : Agents) (ssh : SshHosts) (ip : String) : Prop :=
  ∃ a ∈ agents.rows, a.revoked = false ∧
    (ipOf (agentEntry a).address = ip ∨ ipOf (agentEntry a).address = "" ∧ Paired agents ssh a ∧
      ∃ r, ssh.find (agentEntry a).label = some r ∧ ipOf (sshEntry r).address = ip)

/-- SSH records no agent shares its name with. -/
def lone (agents : Agents) (ssh : SshHosts) : List SshRecord :=
  ssh.rows.filter fun r => (twin agents r.name).isNone

/-- The SSH record is taken for another way to reach an agent, or a lone record before it. -/
def Folded (agents : Agents) (ssh : SshHosts) (r : SshRecord) : Prop :=
  ∃ before after, lone agents ssh = before ++ r :: after ∧ ipOf (sshEntry r).address ≠ "" ∧
    (AgentIp agents ssh (ipOf (sshEntry r).address) ∨
      ∃ x ∈ before, ipOf (sshEntry x).address = ipOf (sshEntry r).address)

/-- The rows of both listings. -/
def rows (agents : Agents) (ssh : SshHosts) : List Plain := rawEntries agents.rows ssh.rows

theorem mem_rows : p ∈ rows agents ssh ↔
    (∃ a ∈ agents.rows, a.revoked = false ∧ agentEntry a = p) ∨ ∃ r ∈ ssh.rows, sshEntry r = p := by
  simp [rows, rawEntries, and_assoc]

theorem agentEntry_inj (ha : a ∈ agents.rows) (hb : b ∈ agents.rows)
    (h : (agentEntry a).id = (agentEntry b).id) : a = b :=
  List.inj_on_of_nodup_map agents.unique ha hb h

theorem sshEntry_inj {r' : SshRecord} (hr : r ∈ ssh.rows) (hr' : r' ∈ ssh.rows)
    (h : r.name = r'.name) : r = r' := List.inj_on_of_nodup_map ssh.unique hr hr' h

theorem rows_nodup (agents : Agents) (ssh : SshHosts) : (rows agents ssh).Nodup := by
  unfold rows rawEntries
  rw [List.nodup_append]
  refine ⟨?_, ?_, ?_⟩
  · refine (agents.unique.of_map _).filter _ |>.map_on ?_
    intro a ha b hb h
    exact agentEntry_inj (List.mem_of_mem_filter ha) (List.mem_of_mem_filter hb)
      (congrArg Plain.id h)
  · refine (ssh.unique.of_map _).map_on ?_
    intro r hr r' hr' h
    exact sshEntry_inj hr hr' (congrArg Plain.id h)
  · rintro p hp q hq rfl
    obtain ⟨a, -, rfl⟩ := List.mem_map.mp hp
    obtain ⟨r, -, h⟩ := List.mem_map.mp hq
    exact nomatch congrArg Plain.kind h

theorem twin_some (h : twin agents label = some a) :
    a ∈ agents.rows ∧ a.revoked = false ∧ (agentEntry a).label = label := by
  have hmem := List.mem_filter.mp (List.mem_of_find?_eq_some h)
  exact ⟨hmem.1, by simpa using hmem.2, by simpa using List.find?_some h⟩

theorem twin_none : twin agents label = none ↔
    ∀ a ∈ agents.rows, a.revoked = false → (agentEntry a).label ≠ label := by
  simp [twin, List.find?_eq_none]

@[simp] theorem agentEntry_kind (a : Agent) : (agentEntry a).kind = .agent := rfl

@[simp] theorem agentEntry_id (a : Agent) : (agentEntry a).id = a.hostId := rfl

@[simp] theorem sshEntry_kind (r : SshRecord) : (sshEntry r).kind = .ssh := rfl

@[simp] theorem sshEntry_id (r : SshRecord) : (sshEntry r).id = r.name := rfl

@[simp] theorem sshEntry_label (r : SshRecord) : (sshEntry r).label = r.name := rfl

theorem find?_false {α : Type*} (l : List α) : l.find? (fun _ => false) = none := by
  induction l with
  | nil => rfl
  | cons x l ih => exact ih

theorem pair_iff : Pair (rows agents ssh) label p q ↔
    ∃ a r, p = agentEntry a ∧ q = sshEntry r ∧ twin agents label = some a ∧
      ssh.find label = some r := by
  have hagent : ((rows agents ssh).filter (·.label = label)).find? (·.kind = .agent) =
      (twin agents label).map agentEntry := by
    simp [rows, rawEntries, twin, List.find?_map, Function.comp_def, find?_false]
  have hssh : ((rows agents ssh).filter (·.label = label)).find? (·.kind = .ssh) =
      (ssh.find label).map sshEntry := by
    simp [rows, rawEntries, List.find?_map, Function.comp_def, find?_false]
    rfl
  unfold Pair
  rw [hagent, hssh]
  simp only [Option.map_eq_some_iff]
  constructor
  · rintro ⟨⟨a, ha, rfl⟩, r, hr, rfl⟩
    exact ⟨a, r, rfl, rfl, ha, hr⟩
  · rintro ⟨a, r, rfl, rfl, ha, hr⟩
    exact ⟨⟨a, ha, rfl⟩, r, hr, rfl⟩

/-! ### What is merged -/

/-- The list before it is folded. -/
def mergedRows (agents : Agents) (ssh : SshHosts) : List Entry :=
  mergeDuplicateHostEntries (rows agents ssh)

theorem mem_merged_pair : .merged label p q ∈ mergedRows agents ssh ↔
    ∃ a r, p = agentEntry a ∧ q = sshEntry r ∧ twin agents label = some a ∧
      ssh.find label = some r := by
  rw [mergedRows, mem_merge_merged, pair_iff]

theorem mem_merged_agent (ha : a ∈ agents.rows) (hrev : a.revoked = false) :
    .plain (agentEntry a) ∈ mergedRows agents ssh ↔ ¬ Paired agents ssh a := by
  rw [mergedRows, mem_merge_plain, mem_rows]
  constructor
  · rintro ⟨-, hne⟩ ⟨htwin, hssh⟩
    obtain ⟨r, hr⟩ := Option.isSome_iff_exists.mp hssh
    exact (hne _ _ (pair_iff.mpr ⟨a, r, rfl, rfl, htwin, hr⟩)).1 rfl
  · intro hnot
    refine ⟨.inl ⟨a, ha, hrev, rfl⟩, ?_⟩
    intro p q hpair
    obtain ⟨b, r, rfl, rfl, htwin, hr⟩ := pair_iff.mp hpair
    refine ⟨?_, fun h => nomatch congrArg Plain.kind h⟩
    intro h
    obtain rfl := agentEntry_inj ha (twin_some htwin).1 (congrArg Plain.id h)
    exact hnot ⟨htwin, by simp [hr]⟩

theorem mem_merged_ssh (hr : r ∈ ssh.rows) :
    .plain (sshEntry r) ∈ mergedRows agents ssh ↔ twin agents r.name = none := by
  rw [mergedRows, mem_merge_plain, mem_rows]
  have hfind : ssh.find r.name = some r := Table.find_eq_some.mpr ⟨hr, rfl⟩
  constructor
  · rintro ⟨-, hne⟩
    cases htwin : twin agents r.name with
    | none => rfl
    | some a => exact absurd rfl (hne _ _ (pair_iff.mpr ⟨a, r, rfl, rfl, htwin, hfind⟩)).2
  · intro hnone
    refine ⟨.inr ⟨r, hr, rfl⟩, ?_⟩
    intro p q hpair
    obtain ⟨b, r', rfl, rfl, htwin, -⟩ := pair_iff.mp hpair
    rw [sshEntry_label, hnone] at htwin
    exact nomatch htwin

theorem merged_parts_perm (agents : Agents) (ssh : SshHosts) :
    ((mergedRows agents ssh).flatMap Entry.parts).Perm (rows agents ssh) :=
  merge_perm (rows_nodup agents ssh)

theorem merged_parts_nodup (agents : Agents) (ssh : SshHosts) :
    ((mergedRows agents ssh).flatMap Entry.parts).Nodup :=
  (merged_parts_perm agents ssh).nodup_iff.mpr (rows_nodup agents ssh)

theorem merged_nodup (agents : Agents) (ssh : SshHosts) : (mergedRows agents ssh).Nodup := by
  refine (List.nodup_flatMap.mp (merged_parts_nodup agents ssh)).2.imp ?_
  rintro x y hdisj rfl
  cases x with
  | plain p => exact hdisj (List.mem_singleton_self p) (List.mem_singleton_self p)
  | merged label p q => exact hdisj (List.mem_cons_self) (List.mem_cons_self)

/-- The rows under a name no agent has are that one SSH record. -/
theorem rows_of_lone (hr : r ∈ ssh.rows) (hnone : twin agents r.name = none) :
    (rows agents ssh).filter (·.label = r.name) = [sshEntry r] := by
  obtain ⟨before, after, hsplit⟩ := List.append_of_mem hr
  have hunique := ssh.unique
  rw [hsplit, List.map_append, List.map_cons, List.nodup_append, List.nodup_cons] at hunique
  obtain ⟨-, ⟨hafter, -⟩, hbefore⟩ := hunique
  have hagents : ((agents.rows.filter fun a => !a.revoked).map agentEntry).filter
      (·.label = r.name) = [] := by
    rw [List.filter_eq_nil_iff]
    rintro p hp
    obtain ⟨a, ha, rfl⟩ := List.mem_map.mp hp
    obtain ⟨ha, hrev⟩ := List.mem_filter.mp ha
    simpa using twin_none.mp hnone a ha (by simpa using hrev)
  have hb : (before.map sshEntry).filter (·.label = r.name) = [] := by
    rw [List.filter_eq_nil_iff]
    rintro p hp
    obtain ⟨q, hq, rfl⟩ := List.mem_map.mp hp
    exact fun h => hbefore q.name (List.mem_map_of_mem hq) r.name (by simp) (of_decide_eq_true h)
  have ha : (after.map sshEntry).filter (·.label = r.name) = [] := by
    rw [List.filter_eq_nil_iff]
    rintro p hp
    obtain ⟨q, hq, rfl⟩ := List.mem_map.mp hp
    have : q.name ≠ r.name := fun h => hafter (h ▸ List.mem_map_of_mem hq)
    exact fun h => this (of_decide_eq_true h)
  rw [rows, rawEntries, List.filter_append, hagents, hsplit, List.map_append, List.map_cons,
    List.filter_append, hb, List.nil_append, List.nil_append,
    List.filter_cons_of_pos (by simp), ha]

/-- The lone SSH records come last, in the order of the inventory. -/
theorem mergedRows_eq (agents : Agents) (ssh : SshHosts) : ∃ front : List Entry,
    mergedRows agents ssh = front ++ (lone agents ssh).map (fun r => .plain (sshEntry r)) ∧
      ∀ x ∈ front, x.isSsh = false := by
  have hlabels : labelOrder (ssh.rows.map sshEntry) = ssh.rows.map SshRecord.name := by
    rw [labelOrder_of_nodup]
    · simp [Function.comp_def]
    · simpa [Function.comp_def] using ssh.unique
  have hlone : ∀ r ∈ ssh.rows, (r.name ∉ ((agents.rows.filter fun a => !a.revoked).map
      agentEntry).map Plain.label) ↔ (twin agents r.name).isNone = true := by
    intro r _
    rw [Option.isNone_iff_eq_none, twin_none]
    simp [and_assoc]
  refine ⟨(labelOrder ((agents.rows.filter fun a => !a.revoked).map agentEntry)).flatMap
    fun l => mergeGroup l ((rows agents ssh).filter (·.label = l)), ?_⟩
  have heq : mergedRows agents ssh =
      ((labelOrder ((agents.rows.filter fun a => !a.revoked).map agentEntry)).flatMap
        fun l => mergeGroup l ((rows agents ssh).filter (·.label = l))) ++
      (lone agents ssh).map (fun r => .plain (sshEntry r)) := by
    have horder : labelOrder (rows agents ssh) =
        labelOrder ((agents.rows.filter fun a => !a.revoked).map agentEntry) ++
          (ssh.rows.map SshRecord.name).filter (· ∉ ((agents.rows.filter fun a =>
            !a.revoked).map agentEntry).map Plain.label) := by
      rw [rows, rawEntries, labelOrder_append, hlabels]
    unfold mergedRows mergeDuplicateHostEntries
    rw [horder, List.flatMap_append]
    congr 1
    rw [List.filter_map, List.flatMap_map]
    have hsame : ssh.rows.filter ((fun n => decide (n ∉ ((agents.rows.filter fun a =>
        !a.revoked).map agentEntry).map Plain.label)) ∘ SshRecord.name) = lone agents ssh := by
      refine List.filter_congr fun r hr => ?_
      rw [Bool.eq_iff_iff, Function.comp, decide_eq_true_eq, hlone r hr]
    rw [hsame]
    have hgroup : ∀ r ∈ lone agents ssh, mergeGroup r.name
        ((rows agents ssh).filter (·.label = r.name)) = [.plain (sshEntry r)] := by
      intro r hr
      obtain ⟨hr, hnone⟩ := List.mem_filter.mp hr
      rw [rows_of_lone hr (Option.isNone_iff_eq_none.mp hnone)]
      simp [mergeGroup]
    rw [List.flatMap_congr hgroup]
    exact (List.map_eq_flatMap).symm
  refine ⟨heq, ?_⟩
  intro x hx
  by_contra hssh
  cases x with
  | merged label p q => exact hssh rfl
  | plain p =>
    have hmem : .plain p ∈ mergedRows agents ssh := by
      rw [heq]
      exact List.mem_append_left _ hx
    have hkind : p.kind = .ssh := by simpa [Entry.isSsh] using hssh
    rcases mem_rows.mp (mem_merge_plain.mp hmem).1 with ⟨a, -, -, rfl⟩ | ⟨r, hr, rfl⟩
    · cases hkind
    · have hnone := (mem_merged_ssh hr).mp hmem
      have hlone : .plain (sshEntry r) ∈
          (lone agents ssh).map fun r => Entry.plain (sshEntry r) :=
        List.mem_map_of_mem (List.mem_filter.mpr ⟨hr, by simp [hnone]⟩)
      have hnd := merged_nodup agents ssh
      rw [heq, List.nodup_append] at hnd
      exact hnd.2.2 _ hx _ hlone rfl

/-! ### What is shown -/

/-- The list that is read with both listings at hand. -/
def shown (agents : Agents) (ssh : SshHosts) : List Entry :=
  listMergedHosts (some agents) (some ssh) false

theorem shown_eq (agents : Agents) (ssh : SshHosts) :
    shown agents ssh = dedupeSameIp (mergedRows agents ssh) := rfl

theorem shown_sublist (agents : Agents) (ssh : SshHosts) :
    (shown agents ssh).Sublist (mergedRows agents ssh) := dedupeLoop_sublist _ _ _

theorem mem_agentIps {ip : String} :
    ip ∈ agentIps (mergedRows agents ssh) ↔ ip ≠ "" ∧ AgentIp agents ssh ip := by
  simp only [agentIps, List.mem_filter, List.mem_map, Bool.not_eq_true', decide_eq_true_eq]
  constructor
  · rintro ⟨⟨e, ⟨hmem, hssh⟩, rfl⟩, hne⟩
    refine ⟨hne, ?_⟩
    cases e with
    | merged label p q =>
      obtain ⟨a, r, rfl, rfl, htwin, hr⟩ := mem_merged_pair.mp hmem
      obtain ⟨ha, hrev, rfl⟩ := twin_some htwin
      refine ⟨a, ha, hrev, ?_⟩
      by_cases hip : ipOf (agentEntry a).address = ""
      · simp only [entryIp, if_pos hip]
        exact .inr ⟨hip, ⟨htwin, by simp [hr]⟩, r, hr, rfl⟩
      · simp only [entryIp, if_neg hip]
        exact .inl trivial
    | plain p =>
      rcases mem_rows.mp (mem_merge_plain.mp hmem).1 with ⟨a, ha, hrev, rfl⟩ | ⟨r, -, rfl⟩
      · exact ⟨a, ha, hrev, .inl rfl⟩
      · simp [Entry.isSsh] at hssh
  · rintro ⟨hne, a, ha, hrev, hip⟩
    refine ⟨?_, hne⟩
    by_cases hpair : Paired agents ssh a
    · obtain ⟨r, hr⟩ := Option.isSome_iff_exists.mp hpair.2
      refine ⟨.merged (agentEntry a).label (agentEntry a) (sshEntry r),
        ⟨mem_merged_pair.mpr ⟨a, r, rfl, rfl, hpair.1, hr⟩, rfl⟩, ?_⟩
      rcases hip with hip | ⟨hempty, -, r', hr', hip⟩
      · subst hip
        simp only [entryIp, if_neg hne]
      · obtain rfl := Option.some.inj (hr.symm.trans hr')
        simp [entryIp, hempty, hip]
    · refine ⟨.plain (agentEntry a), ⟨(mem_merged_agent ha hrev).mpr hpair, rfl⟩, ?_⟩
      rcases hip with hip | ⟨-, hpair', -⟩
      · exact hip
      · exact absurd hpair' hpair

theorem mem_shown_backed (hx : x.isSsh = false) :
    x ∈ shown agents ssh ↔ x ∈ mergedRows agents ssh := by
  refine ⟨fun h => (shown_sublist agents ssh).subset h, ?_⟩
  intro hmem
  obtain ⟨front, heq, hfront⟩ := mergedRows_eq agents ssh
  rw [heq] at hmem
  rw [shown_eq, dedupeSameIp, heq, dedupeLoop_append hfront]
  rcases List.mem_append.mp hmem with hmem | hmem
  · exact List.mem_append_left _ hmem
  · obtain ⟨r, -, rfl⟩ := List.mem_map.mp hmem
    exact nomatch hx

theorem lone_nodup (agents : Agents) (ssh : SshHosts) : (lone agents ssh).Nodup :=
  (ssh.unique.of_map _).filter _

theorem mem_lone : r ∈ lone agents ssh ↔ r ∈ ssh.rows ∧ twin agents r.name = none := by
  simp [lone]

/-- Cutting the last part of the list at a record is cutting the lone records there. -/
theorem lone_cut (hr : r ∈ ssh.rows) {before after : List Entry} :
    (lone agents ssh).map (fun r => Entry.plain (sshEntry r)) =
        before ++ .plain (sshEntry r) :: after ↔
      ∃ b a, lone agents ssh = b ++ r :: a ∧ b.map (fun r => Entry.plain (sshEntry r)) = before ∧
        a.map (fun r => Entry.plain (sshEntry r)) = after := by
  rw [List.map_eq_append_iff]
  constructor
  · rintro ⟨b, l, heq, rfl, hl⟩
    obtain ⟨r', a, rfl, hr', rfl⟩ := List.map_eq_cons_iff.mp hl
    have hmem : r' ∈ ssh.rows := (mem_lone.mp (by rw [heq]; simp)).1
    obtain rfl := sshEntry_inj hmem hr (congrArg Plain.id (Entry.plain.inj hr'))
    exact ⟨b, a, heq, rfl, rfl⟩
  · rintro ⟨b, a, heq, rfl, rfl⟩
    exact ⟨b, r :: a, heq, rfl, rfl⟩

theorem mem_shown_ssh (hr : r ∈ ssh.rows) : .plain (sshEntry r) ∈ shown agents ssh ↔
    twin agents r.name = none ∧ ¬ Folded agents ssh r := by
  obtain ⟨front, heq, hfront⟩ := mergedRows_eq agents ssh
  have hnd : ((lone agents ssh).map fun r => Entry.plain (sshEntry r)).Nodup := by
    have := merged_nodup agents ssh
    rw [heq, List.nodup_append] at this
    exact this.2.1
  have hlast : .plain (sshEntry r) ∈ shown agents ssh ↔
      .plain (sshEntry r) ∈ dedupeLoop (agentIps (mergedRows agents ssh)) []
        ((lone agents ssh).map fun r => .plain (sshEntry r)) := by
    have hshown : shown agents ssh = front ++ dedupeLoop (agentIps (mergedRows agents ssh)) []
        ((lone agents ssh).map fun r => .plain (sshEntry r)) := by
      rw [shown_eq, dedupeSameIp, ← dedupeLoop_append hfront, ← heq]
    rw [hshown, List.mem_append]
    exact or_iff_right fun h => nomatch hfront _ h
  rw [hlast, mem_dedupeLoop (by simp [Entry.isSsh])]
  have hip : ∀ x, entryIp (.plain (sshEntry x)) = ipOf (sshEntry x).address := fun _ => rfl
  constructor
  · rintro ⟨before, after, hcut, hkeep⟩
    obtain ⟨b, a, hb, rfl, rfl⟩ := (lone_cut hr).mp hcut
    refine ⟨(mem_lone.mp (by rw [hb]; simp)).2, ?_⟩
    rintro ⟨b', a', hb', hne, hfold⟩
    have hnd := lone_nodup agents ssh
    rw [hb, List.nodup_append, List.nodup_cons] at hnd
    obtain ⟨-, ⟨hra, -⟩, hrb⟩ := hnd
    obtain ⟨rfl, -, rfl⟩ := (List.append_cons_inj_of_notMem
      (fun h => hrb r h r (by simp) rfl) hra).mp (hb.symm.trans hb')
    obtain hkeep | ⟨hips, -, hbefore⟩ := hkeep
    · exact hne hkeep
    · rcases hfold with hagent | ⟨x, hx, heq'⟩
      · exact hips (mem_agentIps.mpr ⟨hne, hagent⟩)
      · exact hbefore _ (List.mem_map_of_mem hx) heq'
  · rintro ⟨htwin, hnot⟩
    obtain ⟨b, a, hb⟩ := List.append_of_mem (mem_lone.mpr ⟨hr, htwin⟩)
    refine ⟨_, _, (lone_cut hr).mpr ⟨b, a, hb, rfl, rfl⟩, ?_⟩
    by_cases hne : ipOf (sshEntry r).address = ""
    · exact .inl hne
    · refine .inr ⟨?_, List.not_mem_nil, ?_⟩
      · intro h
        exact hnot ⟨b, a, hb, hne, .inl (mem_agentIps.mp h).2⟩
      · rintro x hx heq
        obtain ⟨y, hy, rfl⟩ := List.mem_map.mp hx
        exact hnot ⟨b, a, hb, hne, .inr ⟨y, hy, heq⟩⟩

/-! ### Ids, agents and SSH records of the list -/

theorem shown_cases (hx : x ∈ shown agents ssh) :
    (∃ a ∈ agents.rows, a.revoked = false ∧ ¬ Paired agents ssh a ∧ x = .plain (agentEntry a)) ∨
    (∃ r ∈ ssh.rows, twin agents r.name = none ∧ ¬ Folded agents ssh r ∧
      x = .plain (sshEntry r)) ∨
    ∃ label a r, twin agents label = some a ∧ ssh.find label = some r ∧
      x = .merged label (agentEntry a) (sshEntry r) := by
  have hmem := (shown_sublist agents ssh).subset hx
  cases x with
  | merged label p q =>
    obtain ⟨a, r, rfl, rfl, htwin, hr⟩ := mem_merged_pair.mp hmem
    exact .inr (.inr ⟨label, a, r, htwin, hr, rfl⟩)
  | plain p =>
    rcases mem_rows.mp (mem_merge_plain.mp hmem).1 with ⟨a, ha, hrev, rfl⟩ | ⟨r, hr, rfl⟩
    · exact .inl ⟨a, ha, hrev, (mem_merged_agent ha hrev).mp hmem, rfl⟩
    · obtain ⟨htwin, hfold⟩ := (mem_shown_ssh hr).mp hx
      exact .inr (.inl ⟨r, hr, htwin, hfold, rfl⟩)

/-- No SSH record in the list goes by the host id of an agent that stands alone. -/
def NoNamesake (agents : Agents) (ssh : SshHosts) : Prop :=
  ∀ a ∈ agents.rows, a.revoked = false → ∀ r, ssh.find a.hostId = some r →
    Paired agents ssh a ∨ Folded agents ssh r

theorem shown_ids_nodup : ((shown agents ssh).map Entry.id).Nodup ↔ NoNamesake agents ssh := by
  have hnd : (shown agents ssh).Nodup :=
    (merged_nodup agents ssh).sublist (shown_sublist agents ssh)
  constructor
  · intro hids a ha hrev r hr
    obtain ⟨hr, hname⟩ := Table.find_eq_some.mp hr
    by_contra hnot
    obtain ⟨hpair, hfold⟩ := not_or.mp hnot
    have hagent : .plain (agentEntry a) ∈ shown agents ssh :=
      (mem_shown_backed rfl).mpr ((mem_merged_agent ha hrev).mpr hpair)
    have hclash : ∀ x ∈ shown agents ssh, x.id = a.hostId → x = .plain (agentEntry a) :=
      fun x hx hid => List.inj_on_of_nodup_map hids hx hagent hid
    cases htwin : twin agents r.name with
    | none => exact nomatch hclash _ ((mem_shown_ssh hr).mpr ⟨htwin, hfold⟩) hname
    | some b =>
      have hmerged : .merged r.name (agentEntry b) (sshEntry r) ∈ shown agents ssh :=
        (mem_shown_backed rfl).mpr (mem_merged_pair.mpr
          ⟨b, r, rfl, rfl, htwin, Table.find_eq_some.mpr ⟨hr, rfl⟩⟩)
      exact nomatch hclash _ hmerged hname
  · intro hno
    have hagentSsh : ∀ a ∈ agents.rows, a.revoked = false → ¬ Paired agents ssh a →
        ∀ r ∈ ssh.rows, ¬ Folded agents ssh r → a.hostId ≠ r.name := by
      intro a ha hrev hpair r hr hfold hid
      have hfind : ssh.find a.hostId = some r := Table.find_eq_some.mpr ⟨hr, hid.symm⟩
      exact (hno a ha hrev r hfind).elim hpair hfold
    have hmergedFold : ∀ label a r, twin agents label = some a → ssh.find label = some r →
        r ∈ ssh.rows ∧ r.name = label ∧ ¬ Folded agents ssh r := by
      intro label a r htwin hr
      obtain ⟨hmem, rfl⟩ := Table.find_eq_some.mp hr
      refine ⟨hmem, rfl, ?_⟩
      rintro ⟨b, after, hcut, -⟩
      have := (mem_lone.mp (show r ∈ lone agents ssh by rw [hcut]; simp)).2
      exact nomatch this.symm.trans htwin
    have hsshMerged : ∀ r : SshRecord, twin agents r.name = none → ∀ label a,
        twin agents label = some a → r.name ≠ label := by
      rintro r hnone label a htwin rfl
      exact nomatch hnone.symm.trans htwin
    refine hnd.map_on ?_
    intro x hx y hy hid
    rcases shown_cases hx with ⟨a, ha, hrev, hpair, rfl⟩ | ⟨r, hr, hnone, hfold, rfl⟩ |
      ⟨l, a, r, htwin, hfind, rfl⟩
    · rcases shown_cases hy with ⟨b, hb, -, -, rfl⟩ | ⟨r, hr, -, hfold, rfl⟩ |
        ⟨l, b, r, htwin, hfind, rfl⟩
      · rw [agentEntry_inj ha hb hid]
      · exact absurd hid (hagentSsh a ha hrev hpair r hr hfold)
      · obtain ⟨hr, hname, hfold⟩ := hmergedFold l b r htwin hfind
        exact absurd (hid.trans hname.symm) (hagentSsh a ha hrev hpair r hr hfold)
    · rcases shown_cases hy with ⟨b, hb, hrev, hpair, rfl⟩ | ⟨r', hr', -, -, rfl⟩ |
        ⟨l, b, r', htwin, -, rfl⟩
      · exact absurd hid.symm (hagentSsh b hb hrev hpair r hr hfold)
      · rw [sshEntry_inj hr hr' hid]
      · exact absurd hid (hsshMerged r hnone l b htwin)
    · rcases shown_cases hy with ⟨b, hb, hrev, hpair, rfl⟩ | ⟨r', hr', hnone, -, rfl⟩ |
        ⟨l', b, r', htwin', hfind', rfl⟩
      · obtain ⟨hr, hname, hfold⟩ := hmergedFold l a r htwin hfind
        exact absurd (hid.symm.trans hname.symm) (hagentSsh b hb hrev hpair r hr hfold)
      · exact absurd hid.symm (hsshMerged r' hnone l a htwin)
      · obtain rfl : l = l' := hid
        obtain rfl := Option.some.inj (htwin.symm.trans htwin')
        obtain rfl := Option.some.inj (hfind.symm.trans hfind')
        rfl

/-- The host ids of the agents an entry shows. -/
def Entry.agentIds (e : Entry) : List String :=
  (e.parts.filter fun p => p.kind = .agent).map Plain.id

/-- What the merged list is for: entries are told apart by their ids, each agent is in it once,
and a record that is left out is another way to reach a host that is shown. -/
structure WellListed (agents : Agents) (ssh : SshHosts) : Prop where
  ids : ((shown agents ssh).map Entry.id).Nodup
  agentOnce : ∀ a ∈ agents.rows, a.revoked = false →
    ((shown agents ssh).flatMap Entry.agentIds).count a.hostId = 1
  sshCovered : ∀ r ∈ ssh.rows, (∃ e ∈ shown agents ssh, sshEntry r ∈ e.parts) ∨
    (∃ e ∈ shown agents ssh, e.isSsh = false ∧
      (e.label = r.name ∨ entryIp e = ipOf (sshEntry r).address)) ∨
    ∃ e ∈ shown agents ssh, e.isSsh = true ∧ entryIp e = ipOf (sshEntry r).address

theorem agentIds_of_ssh (h : e.isSsh = true) : e.agentIds = [] := by
  cases e with
  | plain p =>
    have hk : p.kind = .ssh := by simpa [Entry.isSsh] using h
    simp [Entry.agentIds, Entry.parts, hk]
  | merged => cases h

theorem agents_shown_once (ha : a ∈ agents.rows) (hrev : a.revoked = false) :
    ((shown agents ssh).flatMap Entry.agentIds).count a.hostId = 1 := by
  obtain ⟨front, heq, hfront⟩ := mergedRows_eq agents ssh
  have hloop : ∀ l : List Entry, (∀ e ∈ l, e.isSsh = true) → l.flatMap Entry.agentIds = [] := by
    intro l hl
    rw [List.flatMap_eq_nil_iff]
    exact fun e he => agentIds_of_ssh (hl e he)
  have hlone : ∀ e ∈ (lone agents ssh).map (fun r => Entry.plain (sshEntry r)),
      e.isSsh = true := by simp [Entry.isSsh]
  have hsame : (shown agents ssh).flatMap Entry.agentIds =
      (mergedRows agents ssh).flatMap Entry.agentIds := by
    rw [shown_eq, dedupeSameIp]
    conv_lhs => rw [heq, dedupeLoop_append hfront]
    conv_rhs => rw [heq]
    rw [List.flatMap_append, List.flatMap_append, hloop _ hlone,
      hloop _ fun e he => hlone e ((dedupeLoop_sublist _ _ _).subset he)]
  have hperm : ((mergedRows agents ssh).flatMap Entry.agentIds).Perm
      (((rows agents ssh).filter fun p => p.kind = .agent).map Plain.id) := by
    have := ((merged_parts_perm agents ssh).filter fun p => p.kind = .agent).map Plain.id
    rwa [List.filter_flatMap, List.map_flatMap] at this
  have hids : ((rows agents ssh).filter fun p => p.kind = .agent).map Plain.id =
      (agents.rows.filter fun a => !a.revoked).map Agent.hostId := by
    simp [rows, rawEntries, List.filter_map, Function.comp_def]
  rw [hsame, hperm.count_eq, hids]
  refine List.count_eq_one_of_mem ?_ ?_
  · exact agents.unique.sublist (List.filter_sublist.map _)
  · exact List.mem_map_of_mem (List.mem_filter.mpr ⟨ha, by simp [hrev]⟩)

/-- Some entry of the list is reached at the address of this lone record: an agent's, the
record's own, or that of the first lone record at the address. -/
theorem lone_reached {before after : List SshRecord}
    (hcut : lone agents ssh = before ++ r :: after) :
    (∃ e ∈ shown agents ssh, e.isSsh = false ∧ entryIp e = ipOf (sshEntry r).address) ∨
      ∃ e ∈ shown agents ssh, e.isSsh = true ∧ entryIp e = ipOf (sshEntry r).address := by
  obtain ⟨n, hn⟩ : ∃ n, before.length = n := ⟨_, rfl⟩
  induction n using Nat.strong_induction_on generalizing before r after with
  | _ n ih =>
    obtain ⟨hr, hnone⟩ := mem_lone.mp (show r ∈ lone agents ssh by rw [hcut]; simp)
    by_cases hfold : Folded agents ssh r
    · obtain ⟨b, a, hcut', hne, hagent | ⟨x, hx, hip⟩⟩ := hfold
      · obtain ⟨hmem, -⟩ := List.mem_filter.mp (mem_agentIps.mpr ⟨hne, hagent⟩)
        obtain ⟨e, he, hip⟩ := List.mem_map.mp hmem
        obtain ⟨he, hssh⟩ := List.mem_filter.mp he
        have hssh : e.isSsh = false := by simpa using hssh
        exact .inl ⟨e, (mem_shown_backed hssh).mpr he, hssh, hip⟩
      · have hnd := lone_nodup agents ssh
        rw [hcut, List.nodup_append, List.nodup_cons] at hnd
        obtain ⟨-, ⟨hra, -⟩, hrb⟩ := hnd
        obtain ⟨rfl, -, rfl⟩ := (List.append_cons_inj_of_notMem
          (fun h => hrb r h r (by simp) rfl) hra).mp (hcut.symm.trans hcut')
        obtain ⟨b₁, b₂, rfl⟩ := List.append_of_mem hx
        have hcutx : lone agents ssh = b₁ ++ x :: (b₂ ++ r :: after) := by simp [hcut]
        have hlen : b₁.length < n := by
          rw [← hn, List.length_append, List.length_cons]
          omega
        have := ih b₁.length hlen hcutx rfl
        rwa [hip] at this
    · exact .inr ⟨_, (mem_shown_ssh hr).mpr ⟨hnone, hfold⟩, rfl, rfl⟩

theorem ssh_covered (hr : r ∈ ssh.rows) : (∃ e ∈ shown agents ssh, sshEntry r ∈ e.parts) ∨
    (∃ e ∈ shown agents ssh, e.isSsh = false ∧
      (e.label = r.name ∨ entryIp e = ipOf (sshEntry r).address)) ∨
    ∃ e ∈ shown agents ssh, e.isSsh = true ∧ entryIp e = ipOf (sshEntry r).address := by
  cases htwin : twin agents r.name with
  | some a =>
    have hfind : ssh.find r.name = some r := Table.find_eq_some.mpr ⟨hr, rfl⟩
    refine .inl ⟨_, (mem_shown_backed rfl).mpr (mem_merged_pair.mpr
      ⟨a, r, rfl, rfl, htwin, hfind⟩), ?_⟩
    simp [Entry.parts]
  | none =>
    obtain ⟨before, after, hcut⟩ := List.append_of_mem (mem_lone.mpr ⟨hr, htwin⟩)
    rcases lone_reached hcut with ⟨e, he, hssh, hip⟩ | h
    · exact .inr (.inl ⟨e, he, hssh, .inr hip⟩)
    · exact .inr (.inr h)

/-- The list is well formed exactly if no agent that stands alone has the name of an SSH record
in the list for its host id. -/
theorem well_listed_iff (agents : Agents) (ssh : SshHosts) :
    WellListed agents ssh ↔ NoNamesake agents ssh := by
  constructor
  · exact fun h => shown_ids_nodup.mp h.ids
  · intro h
    exact ⟨shown_ids_nodup.mpr h, fun _ => agents_shown_once, fun _ => ssh_covered⟩

def webAgent (hostId hostname : String) : Agent :=
  ⟨hostId, hostname, "10.0.0.7", "", false, none, false, false, false⟩

def oneRecord : SshHosts := ⟨[⟨"web-01", none, some "10.0.0.9", ""⟩], by simp⟩

theorem nodup_webAgent (hostId hostname : String) :
    ([webAgent hostId hostname].map Agent.hostId).Nodup := by simp

def twoAgents : Agents := ⟨[webAgent "a1b2" "web-01", webAgent "web-01" "db-01"], by decide⟩

/-- An agent whose host id is the name of another machine: both entries go by `web-01`. -/
theorem two_entries_share_id : ¬ WellListed twoAgents oneRecord := by
  intro h
  have hno := shown_ids_nodup.mp h.ids
  have hfind : oneRecord.find "web-01" = some ⟨"web-01", none, some "10.0.0.9", ""⟩ := by decide
  rcases hno (webAgent "web-01" "db-01") (by decide) rfl _ hfind with hpair | ⟨b, a, hcut, -⟩
  · exact absurd hpair.2 (by decide)
  · have hlone : lone twoAgents oneRecord = [] := by decide
    rw [hlone] at hcut
    simp at hcut

end MergedHosts
