import SysibleController.KeyedTable
import SysibleController.CallMachine
import SysibleController.PythonStrip

/-! Silenced findings of the dashboard (`webgui/suppressions.py`). Adding replaces whatever is
stored for the same finding, listing prunes the snoozes that have run out, and each call rewrites
the JSON file whole or, when the write fails, not at all (`webgui/_jsonstore.py`). -/
namespace Suppressions

open KeyedTable TransitionSystem PastTrace PythonText

structure Suppression where
  id : String
  scope : String
  target : String
  key : String
  type : String
  reason : String
  untilTs : Option ℚ
  bootEpoch : Option ℤ
  createdBy : String
  createdTs : ℚ
  deriving DecidableEq

def Suppression.finding (r : Suppression) : String × String × String := (r.scope, r.target, r.key)

abbrev Store := Table Suppression.finding

def scopes : List String := ["host", "env"]

def types : List String := ["env_necessity", "acknowledged", "snooze", "reboot"]

def snoozeSeconds : List (String × ℚ) :=
  [("1h", 3600), ("1d", 86400), ("7d", 7 * 86400), ("30d", 30 * 86400)]

def cleanStr (v : String) (cap : ℕ) : String := String.ofList ((strip v).toList.take cap)

/-- `r.get("until")` counts only when it is true of itself. -/
def Suppression.expired (now : ℚ) (r : Suppression) : Bool :=
  r.type = "snooze" && r.untilTs.any fun u => u ≠ 0 && u ≤ now

/-- The arguments of `add`. `target`, `key`, `reason` and `snooze` come as `str` makes them, an
empty value as the empty text; `bootEpoch` is `none` where `int` refuses it. -/
structure Request where
  scope : String
  target : String
  key : String
  type : String
  createdBy : String
  reason : String
  snooze : String
  bootEpoch : Option ℤ

def Request.kind (req : Request) : String := lower (strip req.type)

/-- A snooze ends after one of the offered times; the other types have no end of their own. -/
def Request.ends (req : Request) (now : ℚ) : Except String (Option ℚ) :=
  if req.kind = "snooze" then
    match snoozeSeconds.lookup req.snooze with
    | some secs => .ok (some (now + secs))
    | none => .error "snooze must be one of ['1d', '1h', '30d', '7d']"
  else .ok none

/-- The boot time a reboot is measured from; an unknown one is 0, which any boot is past. -/
def Request.boot (req : Request) : Option ℤ :=
  if req.kind = "reboot" then some (req.bootEpoch.getD 0) else none

/-- The record of a request, or the text of its `ValueError`. -/
def record (req : Request) (id : String) (now : ℚ) : Except String Suppression :=
  let scope := lower (strip req.scope)
  let key := cleanStr req.key 64
  let target := cleanStr req.target 200
  if scope ∉ scopes then .error "scope must be one of ('host', 'env')"
  else if req.kind ∉ types then
    .error "type must be one of ('env_necessity', 'acknowledged', 'snooze', 'reboot')"
  else if target = "" then .error "target is required"
  else if key = "" then .error "finding key is required"
  else if req.kind = "reboot" ∧ scope ≠ "host" then
    .error "'remind after next reboot' only applies to a single host"
  else match req.ends now with
    | .error why => .error why
    | .ok untilTs => .ok
        { id, scope, target, key, type := req.kind, reason := cleanStr req.reason 300, untilTs,
          bootEpoch := req.boot, createdBy := req.createdBy, createdTs := now }

inductive Call where
  | add (req : Request) (id : String) (now : ℚ) (saves : Bool)
  | listAll (now : ℚ) (saves : Bool)
  | remove (id : String) (saves : Bool)

inductive Event where
  | failed
  | refused (why : String)
  | added (r : Suppression)
  | listed (now : ℚ) (rows : List Suppression)
  | removed (id : String) (found : Bool)

def act (t : Store) : Call → Event × Store
  | .add req id now saves =>
    match record req id now with
    | .error why => (.refused why, t)
    | .ok r => if saves then (.added r, t.put r) else (.failed, t)
  | .listAll now saves =>
    let kept := t.deleteWhere (Suppression.expired now)
    if kept.rows.length = t.rows.length then (.listed now kept.rows, t)
    else if saves then (.listed now kept.rows, kept) else (.failed, t)
  | .remove id saves =>
    let left := t.deleteWhere fun r => r.id = id
    if saves then (.removed id (left.rows.length ≠ t.rows.length), left) else (.failed, t)

abbrev machine : Machine Store Event := ofCalls Table.empty act

/-- What ends a suppression: its own finding suppressed anew, its removal, or a listing at a
time its snooze has run out. -/
def Ends (r : Suppression) : Event → Prop
  | .added q => q.finding = r.finding
  | .removed id _ => r.id = id
  | .listed now _ => r.expired now = true
  | .failed => False
  | .refused _ => False

/-- The checks of `add`, as a stored record has passed them. -/
structure Checked (r : Suppression) : Prop where
  scope : r.scope ∈ scopes
  type : r.type ∈ types
  target : r.target ≠ "" ∧ r.target.length ≤ 200
  key : r.key ≠ "" ∧ r.key.length ≤ 64
  reason : r.reason.length ≤ 300
  reboot : r.type = "reboot" → r.scope = "host"
  boot : r.bootEpoch.isSome ↔ r.type = "reboot"
  snooze : r.untilTs.isSome ↔ r.type = "snooze"

variable {t t' : Store} {e : Event} {es : List Event} {r : Suppression}

theorem length_cleanStr (v : String) (cap : ℕ) : (cleanStr v cap).length ≤ cap := by
  rw [← String.length_toList, cleanStr, String.toList_ofList]
  exact List.length_take_le _ _

theorem isSome_ends {req : Request} {now : ℚ} {untilTs : Option ℚ}
    (h : req.ends now = .ok untilTs) : untilTs.isSome ↔ req.kind = "snooze" := by
  unfold Request.ends at h
  split_ifs at h with hsnooze
  · split at h
    · simp [← Except.ok.inj h, hsnooze]
    · cases h
  · simp [← Except.ok.inj h, hsnooze]

theorem record_checked {req : Request} {id : String} {now : ℚ} (h : record req id now = .ok r) :
    Checked r := by
  unfold record at h
  dsimp only at h
  split_ifs at h with hscope htype htarget hkey hreboot
  cases hends : req.ends now with
  | error why => simp [hends] at h
  | ok untilTs =>
    rw [hends] at h
    obtain rfl := Except.ok.inj h
    refine ⟨hscope, htype, ⟨htarget, length_cleanStr _ _⟩,
      ⟨hkey, length_cleanStr _ _⟩, length_cleanStr _ _, fun hr => ?_, ?_, isSome_ends hends⟩
    · exact not_not.mp fun hne => hreboot ⟨hr, hne⟩
    · by_cases hb : req.kind = "reboot" <;> simp [Request.boot, hb]

theorem mem_put (t : Store) (q : Suppression) :
    r ∈ (t.put q).rows ↔ r = q ∨ r ∈ t.rows ∧ q.finding ≠ r.finding := by
  simp only [Table.put, List.mem_append, List.mem_filter, List.mem_singleton, decide_eq_true_eq]
  rw [or_comm, ne_comm]

theorem mem_deleteWhere (t : Store) (p : Suppression → Bool) :
    r ∈ (t.deleteWhere p).rows ↔ r ∈ t.rows ∧ p r = false := by
  simp [Table.deleteWhere]

/-- A pruning that drops nothing by count drops nothing. -/
theorem not_dropped {t : Store} {p : Suppression → Bool}
    (h : (t.deleteWhere p).rows.length = t.rows.length) (hr : r ∈ t.rows) : p r = false := by
  have := (List.length_filter_eq_length_iff (l := t.rows)).mp h r hr
  simpa using this

/-- A step stores the record it adds, and drops exactly the records it ends. -/
theorem mem_step (h : machine.step t e t') :
    r ∈ t'.rows ↔ e = .added r ∨ r ∈ t.rows ∧ ¬Ends r e := by
  obtain ⟨c, hc⟩ := h
  cases c with
  | add req id now saves =>
    simp only [act] at hc
    cases hrec : record req id now with
    | error why =>
      rw [hrec] at hc
      obtain ⟨rfl, rfl⟩ := Prod.mk.inj hc
      simp [Ends]
    | ok q =>
      rw [hrec] at hc
      dsimp only at hc
      split_ifs at hc
      · obtain ⟨rfl, rfl⟩ := Prod.mk.inj hc
        rw [mem_put, Event.added.injEq, eq_comm (a := r)]
        rfl
      · obtain ⟨rfl, rfl⟩ := Prod.mk.inj hc
        simp [Ends]
  | listAll now saves =>
    simp only [act] at hc
    split_ifs at hc with hsame
    · obtain ⟨rfl, rfl⟩ := Prod.mk.inj hc
      simp only [Ends, reduceCtorEq, false_or, Bool.not_eq_true]
      exact ⟨fun hr => ⟨hr, not_dropped hsame hr⟩, And.left⟩
    · obtain ⟨rfl, rfl⟩ := Prod.mk.inj hc
      simp [mem_deleteWhere, Ends]
    · obtain ⟨rfl, rfl⟩ := Prod.mk.inj hc
      simp [Ends]
  | remove id saves =>
    simp only [act] at hc
    split_ifs at hc
    · obtain ⟨rfl, rfl⟩ := Prod.mk.inj hc
      simp [mem_deleteWhere, Ends]
    · obtain ⟨rfl, rfl⟩ := Prod.mk.inj hc
      simp [Ends]

theorem checked_of_added (h : machine.step t (.added r) t') : Checked r := by
  obtain ⟨c, hc⟩ := h
  cases c with
  | add req id now saves =>
    simp only [act] at hc
    cases hrec : record req id now with
    | error why => simp [hrec] at hc
    | ok q =>
      rw [hrec] at hc
      dsimp only at hc
      split_ifs at hc
      · obtain ⟨hq, -⟩ := Prod.mk.inj hc
        exact Event.added.inj hq ▸ record_checked hrec
      · simp at hc
  | listAll now saves =>
    simp only [act] at hc
    split_ifs at hc <;> simp at hc
  | remove id saves =>
    simp only [act] at hc
    split_ifs at hc <;> simp at hc

theorem mem_iff_since (h : machine.Run Table.empty es t) (r : Suppression) :
    r ∈ t.rows ↔ Since (fun e => ¬Ends r e) (fun e => e = .added r) es := by
  induction h with
  | nil => simp [Table.empty, Since]
  | snoc run st ih => rw [since_snoc, mem_step st, ih]

/-- In every run a record is in the store exactly when it has been added and nothing that ends
it has come since; whatever is stored has passed the checks of `add`. -/
theorem stored_iff_since (h : machine.Run Table.empty es t) (r : Suppression) :
    (r ∈ t.rows ↔ Since (fun e => ¬Ends r e) (fun e => e = .added r) es) ∧
      (r ∈ t.rows → Checked r) := by
  refine ⟨mem_iff_since h r, ?_⟩
  induction h with
  | nil => simp [Table.empty]
  | snoc run st ih =>
    intro hr
    rcases (mem_step st).mp hr with rfl | ⟨hr, -⟩
    · exact checked_of_added st
    · exact ih hr

/-- A snooze of an hour, a second finding silenced for good, and a listing a day later. -/
def quietDay : List Call :=
  [.add ⟨"host", "web", "failed_units", "snooze", "ada", "", "1h", none⟩ "s1" 0 true,
   .add ⟨" Env ", "prod", "eol_os", "acknowledged", "ada", "known", "", none⟩ "s2" 10 true,
   .listAll 86400 true]

theorem stored_iff_since_day :
    (perform act Table.empty quietDay).2.rows.map Suppression.id = ["s2"] ∧
    ∀ r, (r ∈ (perform act Table.empty quietDay).2.rows ↔
        Since (fun e => ¬Ends r e) (fun e => e = .added r)
          (perform act Table.empty quietDay).1) ∧
      (r ∈ (perform act Table.empty quietDay).2.rows → Checked r) :=
  ⟨by decide +kernel, fun r => stored_iff_since (perform_run _ act Table.empty quietDay) r⟩

/-- What a listing answers: the stored records whose snooze has not run out, at most one for
each finding, all of them checked. -/
theorem listed_live (h : machine.Run Table.empty es t) :
    AtEach (fun past e => ∀ now rows, e = .listed now rows →
      (rows.map Suppression.finding).Nodup ∧
      ∀ r, r ∈ rows ↔ Since (fun e => ¬Ends r e) (fun e => e = .added r) past ∧
        r.expired now = false) es := by
  refine ofCalls_atEach _ h fun past t c run now rows he => ?_
  have hrows : rows = (t.deleteWhere (Suppression.expired now)).rows := by
    cases c with
    | add req id now saves =>
      simp only [act] at he
      cases hrec : record req id now with
      | error why => simp [hrec] at he
      | ok q =>
        rw [hrec] at he
        dsimp only at he
        split_ifs at he
    | listAll now' saves =>
      simp only [act] at he
      split_ifs at he <;> simp at he
      · rw [← he.1, ← he.2]
      · rw [← he.1, ← he.2]
    | remove id saves =>
      simp only [act] at he
      split_ifs at he
  rw [hrows]
  refine ⟨(t.deleteWhere _).unique, fun r => ?_⟩
  rw [mem_deleteWhere, mem_iff_since run r]

theorem listed_live_day :
    AtEach (fun past e => ∀ now rows, e = .listed now rows →
      (rows.map Suppression.finding).Nodup ∧
      ∀ r, r ∈ rows ↔ Since (fun e => ¬Ends r e) (fun e => e = .added r) past ∧
        r.expired now = false) (perform act Table.empty quietDay).1 :=
  listed_live (perform_run _ act Table.empty quietDay)

end Suppressions
