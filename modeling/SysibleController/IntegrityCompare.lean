import SysibleController.JsonEquality
import SysibleController.EarlyExit

/-! The comparison of a reported measurement with the sealed one. Both are JSON that a host
wrote, and the code reads them with `get`, `or` and `None`: what it takes for equal is set
against what is equal as data. -/
namespace IntegrityCompare

open JsonEquality EarlyExit

variable {α ε : Type}

inductive Raised where
  | noAttribute (name : String)
  | notIterable
  | unhashable
  deriving DecidableEq

inductive Mismatch where
  | malformedMeasurement
  | versionChanged (sealed reported : Value)
  | noLongerReported (path : String)
  | hashChanged (path : String) (expected got : Value)
  | newFile (path : Value)

/-- `d.get(key)`. -/
def get (key : String) (d : Members) : Value := (d.lookup key).getD .null

/-- `v or {}`. -/
def orEmpty (v : Value) : Value := if falsy v then .object [] else v

def files (d : Members) : Value := orEmpty ((d.lookup "files").getD (.object []))

/-- A loop that only appends to a list. -/
def collect (body : α → Except ε (List Mismatch)) : List α → Except ε (List Mismatch)
  | [] => .ok []
  | x :: xs => do
    let found ← body x
    let rest ← collect body xs
    .ok (found ++ rest)

def shortened : Value → Value
  | .text s => .text (String.ofList (s.toList.take 12))
  | v => v

def checkFile (rfiles : Value) (entry : String × Value) : Except Raised (List Mismatch) :=
  match rfiles with
  | .object reported =>
    let got := get entry.1 reported
    if isNull got then .ok [.noLongerReported entry.1]
    else if equal got entry.2 then .ok []
    else .ok [.hashChanged entry.1 (shortened entry.2) (shortened got)]
  | _ => .error (.noAttribute "get")

def hashable : Value → Bool
  | .array _ => false
  | .object _ => false
  | _ => true

def checkNew (bfiles : Members) (path : Value) : Except Raised (List Mismatch) :=
  match path with
  | .text s => .ok (if s ∈ bfiles.map Prod.fst then [] else [.newFile path])
  | _ => if hashable path then .ok [.newFile path] else .error .unhashable

/-- What `for x in v` runs over. -/
def iterate : Value → Except Raised (List Value)
  | .text s => .ok (s.toList.map fun c => .text (String.ofList [c]))
  | .array items => .ok items
  | .object members => .ok (members.map fun entry => .text entry.1)
  | _ => .error .notIterable

def compareVersion (reported baseline : Members) : List Mismatch :=
  if equal (get "version" reported) (get "version" baseline) then []
  else [.versionChanged (get "version" baseline) (get "version" reported)]

def compareFiles (rfiles bfiles : Value) : Except Raised (List Mismatch) :=
  match bfiles with
  | .object expected => do
    let changed ← collect (checkFile rfiles) expected
    let paths ← iterate rfiles
    let new ← collect (checkNew expected) paths
    .ok (changed ++ new)
  | _ => .error (.noAttribute "items")

def compare (reported baseline : Value) : Except Raised (List Mismatch) :=
  match reported, baseline with
  | .object r, .object b => do
    let found ← compareFiles (files r) (files b)
    .ok (compareVersion r b ++ found)
  | _, _ => .ok [.malformedMeasurement]

/-- What a heartbeat can deliver. -/
structure Delivered where
  value : Value
  wellFormed : JsonEquality.wellFormed value = true

def sameAt : Option Value → Option Value → Bool
  | none, none => true
  | some v, some w => same v w
  | _, _ => false

/-- The files as a finite map; there are none where the member is left out. -/
def fileMap (d : Members) : Option Members :=
  match d.lookup "files" with
  | none => some []
  | some (.object m) => some m
  | some _ => none

structure Equal (reported baseline : Members) : Prop where
  version : sameAt (reported.lookup "version") (baseline.lookup "version") = true
  files : ∃ f g, fileMap reported = some f ∧ fileMap baseline = some g ∧
    ∀ path, sameAt (f.lookup path) (g.lookup path) = true

def Exact (reported baseline : Value) : Prop :=
  ∃ out, compare reported baseline = .ok out ∧
    (out = [] ↔ ∃ r b, reported = .object r ∧ baseline = .object b ∧ Equal r b)

/-- The files can be gone through. -/
def Readable (rfiles bfiles : Value) : Prop :=
  (∃ f g, rfiles = .object f ∧ bfiles = .object g) ∨
    (bfiles = .object [] ∧ ((∃ s, rfiles = .text s) ∨
      ∃ items, rfiles = .array items ∧ ∀ item ∈ items, hashable item = true))

/-- The version is not `NaN`, and no file has `null` or `NaN` for a value. -/
structure Plain (reported : Members) : Prop where
  version : isNan (get "version" reported) = false
  files : ∀ f, files reported = .object f → ∀ path v, f.lookup path = some v →
    isNull v = false ∧ isNan v = false

def looselyAt : Option Value → Option Value → Bool
  | none, none => true
  | some v, some w => agree true v w
  | _, _ => false

/-- Equal but for this: a version may be `null` in one and left out of the other, files that
count as false are as good as none, and a boolean as good as its number. -/
structure LooselyEqual (reported baseline : Members) : Prop where
  version : agree true (get "version" reported) (get "version" baseline) = true
  files : ∃ f g, files reported = .object f ∧ files baseline = .object g ∧
    ∀ path, looselyAt (f.lookup path) (g.lookup path) = true

structure ToldApart (reported baseline : Members) : Prop where
  readable : Readable (files reported) (files baseline)
  plain : Equal reported baseline → Plain reported
  equal : Plain reported → LooselyEqual reported baseline → Equal reported baseline

theorem collect_ok {body : α → Except ε (List Mismatch)} {xs : List α} {out : List Mismatch}
    (h : collect body xs = .ok out) : ∀ x ∈ xs, ∃ found, body x = .ok found := by
  induction xs generalizing out with
  | nil => simp
  | cons x xs ih =>
    obtain ⟨found, hfound, h⟩ := bind_ok h
    obtain ⟨rest, hrest, -⟩ := bind_ok h
    intro y hy
    rcases List.mem_cons.mp hy with rfl | hy
    · exact ⟨found, hfound⟩
    · exact ih hrest y hy

theorem collect_spec (body : α → Except ε (List Mismatch)) (xs : List α)
    (h : ∀ x ∈ xs, ∃ found, body x = .ok found) :
    ∃ out, collect body xs = .ok out ∧ (out = [] ↔ ∀ x ∈ xs, body x = .ok []) := by
  induction xs with
  | nil => exact ⟨[], rfl, by simp⟩
  | cons x xs ih =>
    obtain ⟨found, hfound⟩ := h x List.mem_cons_self
    obtain ⟨rest, hrest, hnil⟩ := ih fun y hy => h y (List.mem_cons_of_mem _ hy)
    refine ⟨found ++ rest, ?_, ?_⟩
    · simp only [collect, hfound, hrest]
      rfl
    · simp [hfound, hnil]

theorem checkFile_object (f : Members) (entry : String × Value) :
    ∃ found, checkFile (.object f) entry = .ok found ∧
      (found = [] ↔ ∃ v, f.lookup entry.1 = some v ∧ isNull v = false ∧
        equal v entry.2 = true) := by
  cases hv : f.lookup entry.1 with
  | none => exact ⟨[.noLongerReported entry.1], by simp [checkFile, get, hv, isNull], by simp⟩
  | some v =>
    cases hnull : isNull v
    · cases heq : equal v entry.2
      · exact ⟨[.hashChanged entry.1 (shortened entry.2) (shortened v)],
          by simp [checkFile, get, hv, hnull, heq], by simp [heq]⟩
      · exact ⟨[], by simp [checkFile, get, hv, hnull, heq], by simp [hnull, heq]⟩
    · exact ⟨[.noLongerReported entry.1], by simp [checkFile, get, hv, hnull], by simp [hnull]⟩

theorem checkNew_text (g : Members) (path : String) :
    ∃ found, checkNew g (.text path) = .ok found ∧ (found = [] ↔ path ∈ g.map Prod.fst) := by
  by_cases h : path ∈ g.map Prod.fst
  · exact ⟨[], by simp only [checkNew, if_pos h], by simp [h]⟩
  · exact ⟨[.newFile (.text path)], by simp only [checkNew, if_neg h], by simpa using h⟩

/-- What the loops over two dictionaries find nothing against. -/
def Matched (f g : Members) : Prop :=
  (∀ entry ∈ g, ∃ v, f.lookup entry.1 = some v ∧ isNull v = false ∧
    equal v entry.2 = true) ∧ ∀ path ∈ f.map Prod.fst, path ∈ g.map Prod.fst

theorem compareFiles_objects (f g : Members) :
    ∃ out, compareFiles (.object f) (.object g) = .ok out ∧ (out = [] ↔ Matched f g) := by
  obtain ⟨changed, hchanged, hnone⟩ := collect_spec (checkFile (.object f)) g
    fun entry _ => (checkFile_object f entry).imp fun _ h => h.1
  obtain ⟨new, hnew, hold⟩ := collect_spec (checkNew g)
    (f.map fun entry => .text entry.1) (by
      intro path hpath
      obtain ⟨entry, -, rfl⟩ := List.mem_map.mp hpath
      exact (checkNew_text g entry.1).imp fun _ h => h.1)
  refine ⟨changed ++ new, ?_, ?_⟩
  · simp only [compareFiles, iterate, hchanged, Except.bind, bind]
    rw [hnew]
  · rw [List.append_eq_nil_iff, hnone, hold]
    refine and_congr (forall₂_congr ?_) ?_
    · intro entry _
      obtain ⟨found, hfound, hiff⟩ := checkFile_object f entry
      rw [hfound, ← hiff]
      simp
    · rw [List.forall_mem_map, List.forall_mem_map]
      refine forall₂_congr ?_
      intro entry _
      obtain ⟨found, hfound, hiff⟩ := checkNew_text g entry.1
      rw [hfound, ← hiff]
      simp

theorem looselyAt_matched {f g : Members} (hg : (g.map Prod.fst).Nodup)
    (hplain : ∀ path v, f.lookup path = some v → isNull v = false ∧ isNan v = false) :
    Matched f g ↔ ∀ path, looselyAt (f.lookup path) (g.lookup path) = true := by
  constructor
  · rintro ⟨hchanged, hnew⟩ path
    cases hw : g.lookup path with
    | none =>
      have : f.lookup path = none :=
        lookup_eq_none.mpr fun h => lookup_eq_none.mp hw (hnew path h)
      rw [this]
      rfl
    | some w =>
      obtain ⟨v, hv, -, heq⟩ := hchanged (path, w) (mem_of_lookup hw)
      rw [show f.lookup path = some v from hv]
      exact (equal_iff (hplain path v hv).2).mp heq
  · intro h
    constructor
    · rintro ⟨path, w⟩ hmem
      have hpath := h path
      rw [lookup_of_mem hg hmem] at hpath
      cases hv : f.lookup path with
      | none => simp [hv, looselyAt] at hpath
      | some v =>
        rw [hv] at hpath
        exact ⟨v, rfl, (hplain path v hv).1, (equal_iff (hplain path v hv).2).mpr hpath⟩
    · intro path hf
      by_contra hnew
      have hpath := h path
      rw [lookup_eq_none.mpr hnew] at hpath
      cases hv : f.lookup path with
      | none => exact lookup_eq_none.mp hv hf
      | some v => simp [hv, looselyAt] at hpath

theorem matched_plain {f g : Members} (h : Matched f g) :
    ∀ path v, f.lookup path = some v → isNull v = false ∧ isNan v = false := by
  intro path v hv
  have hmem : path ∈ f.map Prod.fst := List.mem_map_of_mem (mem_of_lookup hv)
  obtain ⟨entry, hentry, rfl⟩ := List.mem_map.mp (h.2 path hmem)
  obtain ⟨w, hw, hnull, heq⟩ := h.1 entry hentry
  obtain rfl : w = v := by simpa [hw] using hv
  exact ⟨hnull, not_nan_of_equal heq⟩

theorem fileMap_files {d f : Members} (h : fileMap d = some f) : files d = .object f := by
  rw [fileMap] at h
  rw [files, orEmpty]
  cases hv : d.lookup "files" with
  | none =>
    simp only [hv, Option.some.injEq] at h
    simp [← h, falsy]
  | some v =>
    cases v with
    | object m =>
      obtain rfl : m = f := by simpa [hv] using h
      cases m <;> simp [falsy]
    | _ => simp [hv] at h

theorem sameAt_loosely {v w : Option Value} (h : sameAt v w = true) : looselyAt v w = true := by
  cases v <;> cases w <;> simp_all [sameAt, looselyAt, same_loosely]

theorem Equal.loosely {r b : Members} (h : Equal r b) : LooselyEqual r b := by
  obtain ⟨f, g, hf, hg, hfiles⟩ := h.files
  refine ⟨?_, f, g, fileMap_files hf, fileMap_files hg, fun path => sameAt_loosely (hfiles path)⟩
  have hversion := sameAt_loosely h.version
  rw [get, get]
  cases hr : r.lookup "version" with
  | none =>
    cases hb : b.lookup "version" with
    | none => rfl
    | some w => simp [hr, hb, looselyAt] at hversion
  | some v =>
    cases hb : b.lookup "version" with
    | none => simp [hr, hb, looselyAt] at hversion
    | some w => simpa [hr, hb, looselyAt] using hversion

theorem readable_of_ok {rfiles bfiles : Value} {out : List Mismatch}
    (h : compareFiles rfiles bfiles = .ok out) : Readable rfiles bfiles := by
  cases bfiles with
  | object g =>
    obtain ⟨changed, hchanged, h⟩ := bind_ok h
    obtain ⟨paths, hpaths, h⟩ := bind_ok h
    obtain ⟨new, hnew, -⟩ := bind_ok h
    cases rfiles with
    | object f => exact .inl ⟨f, g, rfl, rfl⟩
    | text s =>
      cases g with
      | nil => exact .inr ⟨rfl, .inl ⟨s, rfl⟩⟩
      | cons entry rest => cases hchanged
    | array items =>
      cases g with
      | nil =>
        refine .inr ⟨rfl, .inr ⟨items, rfl, ?_⟩⟩
        obtain rfl : items = paths := by simpa [iterate] using hpaths
        intro item hitem
        obtain ⟨found, hfound⟩ := collect_ok hnew item hitem
        cases item <;> first | rfl | cases hfound
      | cons entry rest => cases hchanged
    | _ => cases hpaths
  | _ => cases h

/-- What is no dictionary has something to iterate over, all of it new. -/
theorem compareFiles_sequence {rfiles : Value} {items : List Value} (hi : iterate rfiles = .ok items)
    (hne : items ≠ []) (hh : ∀ item ∈ items, hashable item = true) :
    ∃ out, compareFiles rfiles (.object []) = .ok out ∧ out ≠ [] := by
  have hnew : ∀ item ∈ items, ∃ found, checkNew [] item = .ok found ∧ found ≠ [] := by
    intro item hitem
    have := hh item hitem
    cases item <;> first | exact ⟨_, rfl, by simp⟩ | simp [hashable] at this
  obtain ⟨new, hout, hnil⟩ := collect_spec (checkNew []) items
    fun item hitem => (hnew item hitem).imp fun _ h => h.1
  refine ⟨new, ?_, ?_⟩
  · simp only [compareFiles, collect, hi, Except.bind, bind]
    rw [hout]
    rfl
  · rw [Ne, hnil]
    intro hall
    obtain ⟨item, hitem⟩ := List.exists_mem_of_ne_nil items hne
    obtain ⟨found, hfound, hsome⟩ := hnew item hitem
    rw [hall item hitem] at hfound
    exact hsome (by simpa using hfound.symm)

theorem not_falsy_files {d : Members} (h : ∀ m, files d ≠ .object m) : falsy (files d) = false := by
  rw [files, orEmpty] at h ⊢
  split_ifs at h ⊢ with hv
  · exact absurd rfl (h [])
  · simpa using hv

/-- The comparison finds nothing exactly between two that Python takes for equal. -/
theorem compareFiles_spec {r b : Members} (h : Readable (files r) (files b)) :
    ∃ out, compareFiles (files r) (files b) = .ok out ∧
      (out = [] ↔ ∃ f g, files r = .object f ∧ files b = .object g ∧ Matched f g) := by
  rcases h with ⟨f, g, hf, hg⟩ | ⟨hg, hsequence⟩
  · obtain ⟨out, hout, hiff⟩ := compareFiles_objects f g
    refine ⟨out, by rw [hf, hg, hout], ?_⟩
    rw [hiff]
    constructor
    · intro hm
      exact ⟨f, g, hf, hg, hm⟩
    · rintro ⟨f', g', hf', hg', hm⟩
      obtain rfl : f = f' := by simpa [hf] using hf'
      obtain rfl : g = g' := by simpa [hg] using hg'
      exact hm
  · have hno : ∀ m, files r ≠ .object m := by
      intro m hm
      rcases hsequence with ⟨s, hs⟩ | ⟨items, hs, -⟩ <;> simp [hs] at hm
    have hfalsy := not_falsy_files hno
    have hsome : ∃ out, compareFiles (files r) (.object []) = .ok out ∧ out ≠ [] := by
      rcases hsequence with ⟨s, hs⟩ | ⟨items, hs, hhash⟩
      · rw [hs] at hfalsy ⊢
        refine compareFiles_sequence rfl ?_ (by simp [hashable])
        intro hnil
        simp [falsy] at hfalsy
        exact hfalsy (by simpa using hnil)
      · rw [hs] at hfalsy ⊢
        exact compareFiles_sequence rfl (by simpa [falsy] using hfalsy) hhash
    obtain ⟨out, hout, hne⟩ := hsome
    refine ⟨out, by rw [hg, hout], ?_⟩
    constructor
    · intro hnil
      exact absurd hnil hne
    · rintro ⟨f, -, hf, -, -⟩
      exact absurd hf (hno f)

theorem nodup_files {b g : Members} (hb : wellFormed (.object b) = true)
    (hg : files b = .object g) : (g.map Prod.fst).Nodup := by
  rw [files, orEmpty] at hg
  split_ifs at hg with hfalsy
  · obtain rfl : [] = g := by simpa using hg
    simp
  · cases hv : b.lookup "files" with
    | none =>
      obtain rfl : [] = g := by simpa [hv] using hg
      simp
    | some v =>
      obtain rfl : v = .object g := by simpa [hv] using hg
      simp only [wellFormed, Bool.and_eq_true] at hb
      exact nodup_of_wellFormed (wellFormed_of_mem hb.2 (mem_of_lookup hv))

theorem matched_iff {r b : Members} (hb : wellFormed (.object b) = true) :
    (equal (get "version" r) (get "version" b) = true ∧
      ∃ f g, files r = .object f ∧ files b = .object g ∧ Matched f g) ↔
    Plain r ∧ LooselyEqual r b := by
  constructor
  · rintro ⟨hversion, f, g, hf, hg, hm⟩
    have hnan := not_nan_of_equal hversion
    refine ⟨⟨hnan, ?_⟩, (equal_iff hnan).mp hversion, f, g, hf, hg, ?_⟩
    · intro f' hf'
      obtain rfl : f = f' := by simpa [hf] using hf'
      exact matched_plain hm
    · exact (looselyAt_matched (nodup_files hb hg) (matched_plain hm)).mp hm
  · rintro ⟨hplain, hversion, f, g, hf, hg, hfiles⟩
    exact ⟨(equal_iff hplain.version).mpr hversion, f, g, hf, hg,
      (looselyAt_matched (nodup_files hb hg) (hplain.files f hf)).mpr hfiles⟩

theorem compareVersion_nil (r b : Members) :
    compareVersion r b = [] ↔ equal (get "version" r) (get "version" b) = true := by
  rw [compareVersion]
  split_ifs with h <;> simp [h]

theorem compare_objects {r b : Members} (hb : wellFormed (.object b) = true)
    (h : Readable (files r) (files b)) :
    ∃ out, compare (.object r) (.object b) = .ok out ∧
      (out = [] ↔ Plain r ∧ LooselyEqual r b) := by
  obtain ⟨found, hfound, hnil⟩ := compareFiles_spec h
  refine ⟨compareVersion r b ++ found, ?_, ?_⟩
  · rw [compare, hfound]
    rfl
  · rw [List.append_eq_nil_iff, compareVersion_nil, hnil, matched_iff hb]

theorem exact_iff_toldApart {r b : Members} (hb : wellFormed (.object b) = true) :
    Exact (.object r) (.object b) ↔ ToldApart r b := by
  have hequal : (∃ r' b', Value.object r = .object r' ∧ Value.object b = .object b' ∧
      Equal r' b') ↔ Equal r b := by
    constructor
    · rintro ⟨r', b', hr, hb', h⟩
      cases hr
      cases hb'
      exact h
    · intro h
      exact ⟨r, b, rfl, rfl, h⟩
  constructor
  · rintro ⟨out, hout, hiff⟩
    obtain ⟨found, hfound, -⟩ := bind_ok hout
    have hread := readable_of_ok hfound
    obtain ⟨out', hout', hnil⟩ := compare_objects hb hread
    obtain rfl : out = out' := by simpa [hout] using hout'
    rw [hequal, hnil] at hiff
    exact ⟨hread, fun h => (hiff.mpr h).1, fun hp hl => hiff.mp ⟨hp, hl⟩⟩
  · intro h
    obtain ⟨out, hout, hnil⟩ := compare_objects hb h.readable
    refine ⟨out, hout, ?_⟩
    rw [hequal, hnil]
    exact ⟨fun hl => h.equal hl.1 hl.2, fun he => ⟨h.plain he, he.loosely⟩⟩

/-- The comparison of two delivered values is exact if and only if, where both are objects,
what Python reads of them tells them apart. -/
theorem compare_exact_iff (reported baseline : Delivered) :
    Exact reported.value baseline.value ↔
      ∀ r b, reported.value = .object r → baseline.value = .object b → ToldApart r b := by
  constructor
  · intro h r b hr hb
    rw [hr, hb] at h
    exact (exact_iff_toldApart (hb ▸ baseline.wellFormed)).mp h
  · intro h
    by_cases hobjects : ∃ r b, reported.value = .object r ∧ baseline.value = .object b
    · obtain ⟨r, b, hr, hb⟩ := hobjects
      rw [hr, hb]
      exact (exact_iff_toldApart (hb ▸ baseline.wellFormed)).mpr (h r b hr hb)
    · refine ⟨[.malformedMeasurement], ?_, ?_⟩
      · rw [compare]
        intro r b hr hb
        exact hobjects ⟨r, b, hr, hb⟩
      · constructor
        · intro hnil
          cases hnil
        · rintro ⟨r, b, hr, hb, -⟩
          exact absurd ⟨r, b, hr, hb⟩ hobjects

def sealedMeasurement : Delivered :=
  ⟨.object [("version", .text "2.4.1"), ("files", .object [("agent.py", .text "9f2c")])], by
    decide⟩

def unreadableReport : Delivered :=
  ⟨.object [("version", .text "2.4.1"), ("files", .text "none")], by decide⟩

/-- A report whose files are a text raises in the comparison, which quarantines nothing. -/
theorem compare_not_exact : ¬Exact unreadableReport.value sealedMeasurement.value := by
  rintro ⟨out, hout, -⟩
  cases hout

end IntegrityCompare
