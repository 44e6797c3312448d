import SysibleController.MergedHostIds
import SysibleController.ScheduledJobs

/-! The hosts a scheduled job is run on (`_run_scheduled_job`). Targets are saved as the ids
entries go by at the time, and are matched later against every name an entry goes by. -/
namespace ScheduledTargets

open MergedHosts PythonText

/-- `_entry_ids` -/
def entryIds (e : Entry) : List String :=
  [e.id, e.label] ++ match e with
    | .plain _ => []
    | .merged _ a s => [a.id, a.label, s.id, s.label]

/-- `sorted(tgt)`, joined. -/
def joined (targets : List String) : String :=
  String.intercalate ", " (targets.dedup.mergeSort (· ≤ ·))

def matching (targets : List String) (all : List Entry) : List Entry :=
  all.filter fun e => targets = [] ∨ (entryIds e).any (· ∈ targets)

/-- The note on the targets that no entry goes by. -/
def unresolved (targets : List String) (entries : List Entry) : String :=
  let missing := targets.filter fun t => t ∉ entries.flatMap entryIds
  if missing = [] then "" else s!" (unresolved targets skipped: {joined missing})"

/-- The entries that a job is dispatched to, with the note on the others; the text is the detail
of a run that ends in an error without reaching a host. -/
def runScheduledJob (action arg : String) (targets : List String) (all : Except String (List Entry)) :
    Except String (List Entry × String) :=
  match all with
  | .error text => .error s!"controller unreachable: {text}"
  | .ok all =>
    let entries := matching targets all
    if entries = [] then
      .error ("no matching target hosts — the saved targets (" ++ joined targets ++
        ") don't match any current host. A host may have been re-enrolled or had its agent/SSH" ++
        " pairing change; edit the schedule and reselect its targets.")
    else if action = "restart_service" ∧ strip arg = "" then .error "no service name configured"
    else if action = "run_command" ∧ strip arg = "" then .error "no command configured"
    else if ScheduledJobs.actions.all (·.1 ≠ action) then .error s!"unknown action {action}"
    else .ok (entries, unresolved targets entries)

/-- The same agent or the same SSH record is behind both entries. -/
def SameHost (e o : Entry) : Prop :=
  ∃ p ∈ e.parts, ∃ q ∈ o.parts, p.kind = q.kind ∧ p.id = q.id

/-- An agent or SSH record of the entry has this host id, host name or record name. -/
def Bears (e : Entry) (name : String) : Prop := ∃ p ∈ e.parts, p.id = name ∨ p.label = name

variable {agents : Option Agents} {ssh : Option SshHosts} {e : Entry} {targets : List String}

theorem listMergedHosts_eq (agents : Option Agents) (ssh : Option SshHosts) :
    listMergedHosts agents ssh false = shown (agents.getD .empty) (ssh.getD .empty) := by
  cases agents <;> cases ssh <;> rfl

theorem bears_of_mem_entryIds (he : e ∈ listMergedHosts agents ssh false) {name : String}
    (h : name ∈ entryIds e) : Bears e name := by
  rw [listMergedHosts_eq] at he
  rcases shown_cases he with ⟨a, -, -, -, rfl⟩ | ⟨r, -, -, -, rfl⟩ | ⟨label, a, r, htwin, hr, rfl⟩
  · rcases List.mem_cons.mp h with rfl | h
    · exact ⟨_, List.mem_singleton_self _, .inl rfl⟩
    · obtain rfl := List.mem_singleton.mp h
      exact ⟨_, List.mem_singleton_self _, .inr rfl⟩
  · obtain rfl : name = r.name := by simpa [entryIds, Entry.id, Entry.label] using h
    exact ⟨_, List.mem_singleton_self _, .inl rfl⟩
  · have hlabel := (twin_some htwin).2.2
    have hname : r.name = label := KeyedTable.Table.key_of_find hr
    simp only [entryIds, Entry.id, Entry.label, hlabel, sshEntry_id, sshEntry_label, hname,
      List.mem_append, List.mem_cons, List.not_mem_nil, or_false] at h
    by_cases hid : name = label
    · exact ⟨agentEntry a, by simp [Entry.parts], .inr (hlabel.trans hid.symm)⟩
    · obtain rfl : name = (agentEntry a).id := by tauto
      exact ⟨agentEntry a, by simp [Entry.parts], .inl rfl⟩

theorem mem_of_run {action arg note : String} {all entries : List Entry}
    (h : runScheduledJob action arg targets (.ok all) = .ok (entries, note)) (he : e ∈ entries) :
    e ∈ all ∧ (targets = [] ∨ ∃ name ∈ targets, name ∈ entryIds e) := by
  unfold runScheduledJob at h
  dsimp only at h
  split_ifs at h
  obtain ⟨rfl, -⟩ := Prod.mk.inj (Except.ok.inj h)
  obtain ⟨hmem, hsel⟩ := List.mem_filter.mp he
  refine ⟨hmem, ?_⟩
  rcases of_decide_eq_true hsel with hnil | hany
  · exact .inl hnil
  · obtain ⟨name, hname, ht⟩ := List.any_eq_true.mp hany
    exact .inr ⟨name, of_decide_eq_true ht, hname⟩

/-- Whatever became of the inventory since the targets were saved: a host that a job reaches has
the id that one of the selected entries went by, and is that host unless another one has taken
the name. Without targets the job reaches every host. -/
theorem dispatched_bears_target {action arg note : String} {old entries : List Entry}
    (hsaved : ∀ t ∈ targets, ∃ o ∈ old, o.id = t)
    (h : runScheduledJob action arg targets (.ok (listMergedHosts agents ssh false)) =
      .ok (entries, note)) (he : e ∈ entries) :
    targets = [] ∨ ∃ o ∈ old, o.id ∈ targets ∧ Bears e o.id ∧
      ((∀ p ∈ e.parts, p.id = o.id ∨ p.label = o.id →
        ∃ q ∈ o.parts, p.kind = q.kind ∧ p.id = q.id) → SameHost e o) := by
  obtain ⟨hlisted, hnil | ⟨name, ht, hname⟩⟩ := mem_of_run h he
  · exact .inl hnil
  · obtain ⟨o, ho, rfl⟩ := hsaved name ht
    obtain ⟨p, hp, hbears⟩ := bears_of_mem_entryIds hlisted hname
    refine .inr ⟨o, ho, ht, ⟨p, hp, hbears⟩, ?_⟩
    intro honly
    obtain ⟨q, hq, hsame⟩ := honly p hp hbears
    exact ⟨p, hp, q, hq, hsame⟩

def before : Agents := ⟨[webAgent "a1b2" "web-01"], nodup_webAgent "a1b2" "web-01"⟩

def reenrolled : Agents := ⟨[webAgent "c3d4" "web-01"], nodup_webAgent "c3d4" "web-01"⟩

theorem shown_before : shown before oneRecord =
    [.merged "web-01" (agentEntry (webAgent "a1b2" "web-01"))
      (sshEntry ⟨"web-01", none, some "10.0.0.9", ""⟩)] := by decide

theorem saved_before : ∀ t ∈ ["web-01"], ∃ o ∈ shown before oneRecord, o.id = t := by
  rw [shown_before]
  decide

/-- The job saved for the merged host `web-01`, run once another agent has that host name. -/
theorem run_reenrolled : runScheduledJob "reboot" "" ["web-01"]
    (.ok (listMergedHosts (some reenrolled) none false)) =
      .ok ([.plain (agentEntry (webAgent "c3d4" "web-01"))], "") := rfl

theorem dispatched_bears_target_sample : ["web-01"] = ([] : List String) ∨
    ∃ o ∈ shown before oneRecord, o.id ∈ ["web-01"] ∧
      Bears (.plain (agentEntry (webAgent "c3d4" "web-01"))) o.id ∧
      ((∀ p ∈ (Entry.plain (agentEntry (webAgent "c3d4" "web-01"))).parts,
        p.id = o.id ∨ p.label = o.id → ∃ q ∈ o.parts, p.kind = q.kind ∧ p.id = q.id) →
          SameHost (.plain (agentEntry (webAgent "c3d4" "web-01"))) o) :=
  dispatched_bears_target saved_before run_reenrolled (by simp)

/-- The selected host is removed, and the machine that enrols under its host name is reached. -/
theorem namesake_is_dispatched : ∃ (old later : Agents) (ssh : SshHosts) (targets : List String)
    (entries : List Entry) (note : String), (∀ t ∈ targets, ∃ o ∈ shown old ssh, o.id = t) ∧
      targets ≠ [] ∧ runScheduledJob "reboot" "" targets
        (.ok (listMergedHosts (some later) none false)) = .ok (entries, note) ∧
      ∃ e ∈ entries, ∀ o ∈ shown old ssh, ¬ SameHost e o := by
  refine ⟨before, reenrolled, oneRecord, _, _, _, saved_before, by simp, run_reenrolled, _,
    List.mem_singleton_self _, ?_⟩
  rw [shown_before]
  unfold SameHost
  decide

end ScheduledTargets
