import SysibleController.AlertLoop

/-! What an iteration of the alert loop sends (`notify`), and whether a new alert ever gets out: the
keys are stored as they fire, before the message about them is sent. -/
namespace AlertRules

/-- What a sender does when it is called: it returns that it has sent the message or that it has
not, or it raises. -/
inductive Sender where
  | sent
  | refused
  | raises
  deriving DecidableEq

inductive Channel where
  | email
  | webhook
  deriving DecidableEq

/-- An iteration, and what its senders do if they are called. One that cannot store the keys is one
that is not carried out as far as this. -/
structure Round where
  iteration : Iteration
  email : Sender
  webhook : Sender

def Round.reports (r : Round) : Bool := r.iteration.reports

/-- The channels a call of `notify` delivers on. The second one is not reached when the first
raises. -/
def Round.notify (r : Round) : List Channel :=
  (if r.iteration.cfg.email ∧ r.email = .sent then [.email] else []) ++
    if r.iteration.cfg.webhook ∧ r.webhook = .sent ∧
      ¬ (r.iteration.cfg.email ∧ r.email = .raises) then [.webhook] else []

def Round.delivers (r : Round) : Bool := r.notify ≠ []

/-- A message with the keys it reports as new and as resolved. -/
structure Message where
  newly : Finset String
  resolved : Finset String

def Message.hasLines (m : Message) : Bool := m.newly ≠ ∅ ∨ m.resolved ≠ ∅

variable (py : Python)

/-- What `diff_state` reports as new, from the keys stored before. -/
def newly (i : Iteration) (prev : Finset String) : Finset String :=
  if i.reports then nowKeys py i \ prev else ∅

def report (i : Iteration) (prev : Finset String) : Message :=
  ⟨newly py i prev, resolved py i prev⟩

/-- The line of a new key: where it fires twice, the last message counts. -/
def newLine (i : Iteration) (k : String) : Option String :=
  ((firing py i).reverse.find? fun f => f.key = k).map fun f => "NEW: " ++ f.message

/-- The messages one iteration delivers, by channel. -/
def outgoing (prev : Finset String) (r : Round) : List (Channel × Message) :=
  let m := report py r.iteration prev
  if m.hasLines then r.notify.map fun c => (c, m) else []

/-- The messages of a run of the loop, from the keys that are stored when it begins. -/
def deliveries : Finset String → List Round → List (Channel × Message)
  | _, [] => []
  | prev, r :: rest =>
    outgoing py prev r ++ deliveries (nextState py r.iteration prev) rest

/-- A message with this key as new is delivered in some iteration. -/
def NewDelivered (stored : Finset String) (run : List Round) (k : String) : Prop :=
  ∃ d ∈ deliveries py stored run, k ∈ d.2.newly

/-- The key fires whenever the loop looks. -/
def FiresThroughout (run : List Round) (k : String) : Prop :=
  ∀ r ∈ run, r.reports = true → k ∈ nowKeys py r.iteration

/-- The first iteration that looks at all delivers what it has to say. -/
def FirstDelivers (run : List Round) : Prop :=
  ∃ r, run.find? Round.reports = some r ∧ r.delivers = true

variable {py} {prev stored : Finset String} {r : Round} {run : List Round} {k : String}

theorem mem_newly : k ∈ newly py r.iteration prev ↔
    r.reports = true ∧ k ∈ nowKeys py r.iteration ∧ k ∉ prev := by
  by_cases h : r.iteration.reports = true <;> simp [newly, Round.reports, h]

/-- A key that is new has a line of its own in the message. -/
theorem newLine_of_mem (h : k ∈ newly py r.iteration prev) :
    ∃ line, newLine py r.iteration k = some line := by
  obtain ⟨-, hk, -⟩ := mem_newly.mp h
  obtain ⟨f, hf, rfl⟩ := List.mem_map.mp (List.mem_toFinset.mp hk)
  have hfind : ((firing py r.iteration).reverse.find? fun g => g.key = f.key).isSome = true := by
    rw [List.find?_isSome]
    exact ⟨f, List.mem_reverse.mpr hf, by simp⟩
  obtain ⟨g, hg⟩ := Option.isSome_iff_exists.mp hfind
  exact ⟨_, congrArg (Option.map _) hg⟩

theorem new_outgoing_iff : (∃ d ∈ outgoing py prev r, k ∈ d.2.newly) ↔
    k ∈ newly py r.iteration prev ∧ r.delivers = true := by
  constructor
  · intro ⟨d, hd, hk⟩
    simp only [outgoing] at hd
    split_ifs at hd with hlines
    · obtain ⟨c, hc, rfl⟩ := List.mem_map.mp hd
      exact ⟨hk, by simpa [Round.delivers] using List.ne_nil_of_mem hc⟩
    · exact nomatch hd
  · intro ⟨hk, hdel⟩
    have hlines : (report py r.iteration prev).hasLines = true := by
      have hne : newly py r.iteration prev ≠ ∅ := Finset.ne_empty_of_mem hk
      simp [Message.hasLines, report, hne]
    obtain ⟨c, hc⟩ := List.exists_mem_of_ne_nil r.notify (by simpa [Round.delivers] using hdel)
    refine ⟨(c, report py r.iteration prev), ?_, hk⟩
    simp only [outgoing, hlines, if_true]
    exact List.mem_map.mpr ⟨c, hc, rfl⟩

theorem new_cons_iff : NewDelivered py prev (r :: run) k ↔
    (k ∈ newly py r.iteration prev ∧ r.delivers = true) ∨
      NewDelivered py (nextState py r.iteration prev) run k := by
  rw [← new_outgoing_iff]
  simp only [NewDelivered, deliveries, List.mem_append, or_and_right, exists_or]

/-- A key that is stored and goes on firing is never new again. -/
theorem not_new_of_stored (hfires : FiresThroughout py run k) (hk : k ∈ stored) :
    ¬ NewDelivered py stored run k := by
  induction run generalizing stored with
  | nil =>
    intro ⟨d, hd, _⟩
    exact nomatch hd
  | cons r rest ih =>
    rw [new_cons_iff]
    rintro (⟨hnew, -⟩ | hlater)
    · exact (mem_newly.mp hnew).2.2 hk
    · refine ih (fun q hq => hfires q (List.mem_cons_of_mem r hq)) ?_ hlater
      by_cases hrep : r.reports = true
      · have hnow := hfires r List.mem_cons_self hrep
        simpa [nextState, show r.iteration.reports = true from hrep] using hnow
      · simpa [nextState, show r.iteration.reports = false by simpa [Round.reports] using hrep]

/-- Of a key that fires throughout, the loop delivers that it is new exactly if it was not stored
before and the first iteration that looks delivers. -/
theorem new_delivered_iff (py : Python) (stored : Finset String) (run : List Round) (k : String)
    (hfires : FiresThroughout py run k) :
    NewDelivered py stored run k ↔ k ∉ stored ∧ FirstDelivers run := by
  by_cases hk : k ∈ stored
  · exact iff_of_false (not_new_of_stored hfires hk) fun h => h.1 hk
  · induction run with
    | nil =>
      refine iff_of_false (fun h => ?_) (fun h => ?_)
      · obtain ⟨d, hd, -⟩ := h
        exact nomatch hd
      · obtain ⟨-, r, hr, -⟩ := h
        exact nomatch hr
    | cons r rest ih =>
      have hrest : FiresThroughout py rest k := fun q hq => hfires q (List.mem_cons_of_mem r hq)
      rw [new_cons_iff, mem_newly]
      by_cases hrep : r.reports = true
      · have hnow := hfires r List.mem_cons_self hrep
        have hstored : k ∈ nextState py r.iteration stored := by
          simpa [nextState, show r.iteration.reports = true from hrep] using hnow
        have hlater := not_new_of_stored hrest hstored
        have hfirst : FirstDelivers (r :: rest) ↔ r.delivers = true := by
          simp [FirstDelivers, List.find?_cons_of_pos hrep]
        simp only [hrep, hnow, hk, hlater, hfirst, not_false_eq_true, true_and, or_false]
      · have hskip : nextState py r.iteration stored = stored := by
          simp [nextState, show r.iteration.reports = false by simpa [Round.reports] using hrep]
        have hfirst : FirstDelivers (r :: rest) ↔ FirstDelivers rest := by
          simp [FirstDelivers, List.find?_cons_of_neg hrep]
        rw [hskip, ih hrest, hfirst]
        simp [hrep]

/-- The disk stays full; the mail server is away at the first iteration only. -/
def mailAway : List Round := [⟨fullDisk, .refused, .refused⟩, ⟨fullDisk, .sent, .refused⟩]

theorem mailAway_fires : FiresThroughout plainPython mailAway "a1b2|disk_critical" := by
  intro r hr _
  have hfull : r.iteration = fullDisk := by
    simp only [mailAway, List.mem_cons, List.not_mem_nil, or_false] at hr
    obtain rfl | rfl := hr <;> rfl
  rw [hfull]
  exact fullDisk_fires

theorem new_delivered_mailUp :
    NewDelivered plainPython ∅ [⟨fullDisk, .sent, .refused⟩] "a1b2|disk_critical" :=
  (new_delivered_iff plainPython ∅ [⟨fullDisk, .sent, .refused⟩] "a1b2|disk_critical"
    (fun r hr hrep => mailAway_fires r (List.mem_cons_of_mem _ hr) hrep)).mpr
    ⟨Finset.notMem_empty _, _, rfl, by decide⟩

/-- The alert that could not be sent is not sent when the mail server is back. -/
theorem failed_send_swallows_alert :
    (∀ r ∈ mailAway, r.reports = true ∧ "a1b2|disk_critical" ∈ nowKeys plainPython r.iteration) ∧
      (∃ r ∈ mailAway, r.delivers = true) ∧
      ¬ NewDelivered plainPython ∅ mailAway "a1b2|disk_critical" := by
  have hreports : ∀ r ∈ mailAway, r.reports = true := by decide
  refine ⟨fun r hr => ⟨hreports r hr, mailAway_fires r hr (hreports r hr)⟩, by decide, ?_⟩
  have hfirst : nextState plainPython fullDisk ∅ = nowKeys plainPython fullDisk :=
    if_pos (by decide)
  rw [mailAway, new_cons_iff]
  rintro (⟨-, hdel⟩ | hlater)
  · exact absurd hdel (by decide)
  · rw [hfirst] at hlater
    exact not_new_of_stored
      (fun r hr hrep => mailAway_fires r (List.mem_cons_of_mem _ hr) hrep) fullDisk_fires hlater

end AlertRules
