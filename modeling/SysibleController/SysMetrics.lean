import SysibleController.FixedGrep
import SysibleController.JumpHop
import SysibleController.PostureStream
import Mathlib.Algebra.Group.Nat.Defs

/-! The health snapshot of a host (`cmd_metrics_snapshot`) and what the console reads of its line
(`_parse_sysmetrics`). `float` is a parameter. -/
namespace SysMetrics

open PathText PythonText PythonInt Posture FixedGrep
open JumpHop (decimal)

/-- A number that the tools print. -/
abbrev Count := Fin (2 ^ 60)

/-- A line of `df -P`, of whose mount point the first word counts. -/
structure Volume where
  source : Text
  used : Count
  mount : Text
  rooted : mount.head? = some '/'

structure Memory where
  total : Count
  available : Count
  le : available ≤ total

/-- The first number of `/proc/loadavg`. -/
structure Load where
  text : Text
  ne : text ≠ []
  plain : ∀ c ∈ text, c.isDigit = true ∨ c = '.'

def unitSuffixes : List Text :=
  [".service", ".socket", ".mount", ".timer", ".target", ".path", ".scope", ".automount", ".swap",
    ".slice"].map String.toList

/-- The first field of a line that looks like a unit. -/
def unitName (line : Text) : Option Text :=
  (line.splitOnP fun c => c = ' ' || c = '\t').find? fun word =>
    unitSuffixes.any fun suffix => suffix <:+ word

def failedUnits (output : Text) : List Text := (records output).filterMap unitName

/-- What the snapshot looks at. A tool or a file that is missing gives nothing; `systemctl` prints
what it likes. -/
structure Host where
  volumes : List Volume
  memory : Option Memory
  load1 : Option Load
  nproc : Option Count
  processors : Option Count
  failedOutput : Text
  few : (failedUnits failedOutput).length < 2 ^ 60
  systemState : Text
  oom : Count
  uptime : Option Count
  qemu : Count
  virtualBox : Count
  vmware : Count
  pve : Bool
  xenControl : Bool
  kvmDevice : Bool
  libvirt : Bool

/-! ### The line -/

def pseudoSources : List Text := ["tmpfs", "devtmpfs", "overlay", "squashfs"].map String.toList

def excludedMounts : List Text :=
  ["/dev", "/proc", "/sys", "/run", "/snap", "/media", "/cdrom"].map String.toList

def Volume.counts (v : Volume) : Bool :=
  v.source ∉ pseudoSources && excludedMounts.all fun m => ¬m <+: v.mount

def worseOf (worst : ℕ × Text) (v : Volume) : ℕ × Text :=
  if v.counts && worst.1 < v.used then (v.used, v.mount) else worst

/-- The volume that is used most, `m` and `mt` in the awk program. -/
def Host.worst (h : Host) : ℕ × Text :=
  let (m, mt) := h.volumes.foldl worseOf (0, [])
  (m, if mt = [] then "/".toList else mt)

def Memory.percent (m : Memory) : ℕ :=
  if 0 < m.total.val then (m.total.val - m.available.val) * 100 / m.total.val else 0

def Host.mem (h : Host) : ℕ := (h.memory.map Memory.percent).getD 0

def Host.failed (h : Host) : List Text := failedUnits h.failedOutput

/-- `head -4` -/
def Host.units (h : Host) : List Text := h.failed.take 4

def Host.sysd (h : Host) : Text :=
  if h.systemState = [] then "unknown".toList else h.systemState

/-- `nproc || grep -c .. || echo 1`: a count of zero is printed and yet counts as a failure. -/
def Host.cores (h : Host) : Text :=
  match h.nproc, h.processors with
  | some n, _ => decimal n
  | none, none => "1".toList
  | none, some n => if n.val = 0 then "0\n1".toList else decimal n

def Host.hyp (h : Host) : String :=
  if h.pve then "proxmox"
  else if h.xenControl then "xen-dom0"
  else if 0 < h.qemu.val then if h.kvmDevice then "kvm" else "qemu"
  else if 0 < h.virtualBox.val then "virtualbox"
  else if 0 < h.vmware.val then "vmware"
  else if h.kvmDevice && h.libvirt then "kvm"
  else "none"

def Host.vms (h : Host) : ℕ := h.qemu + h.virtualBox + h.vmware

/-- The last test that holds counts. -/
def Host.verdict (h : Host) : String :=
  if 90 ≤ h.worst.1 ∨ 3 ≤ h.failed.length then "CRITICAL"
  else if 80 ≤ h.worst.1 ∨ 1 ≤ h.failed.length ∨ h.systemState = "degraded".toList ∨
      1 ≤ h.oom.val then "WARNING"
  else "OK"

def Host.unitsText (h : Host) : Text :=
  if h.units = [] then "-".toList else [','].intercalate h.units

def Host.fields (h : Host) : Section :=
  [("verdict".toList, h.verdict.toList), ("disk".toList, decimal h.worst.1),
    ("mount".toList, h.worst.2), ("mem".toList, decimal h.mem),
    ("load1".toList, (h.load1.map Load.text).getD "0".toList), ("cores".toList, h.cores),
    ("failed".toList, decimal h.failed.length),
    ("uptime".toList, decimal ((h.uptime.map Fin.val).getD 0)), ("sysd".toList, h.sysd),
    ("units".toList, h.unitsText), ("oom".toList, decimal h.oom), ("hyp".toList, h.hyp.toList),
    ("vms".toList, decimal h.vms)]

def fieldText (field : Text × Text) : Text := field.1 ++ '=' :: field.2

def front : Text := "SYSMETRICS".toList

def lineOf (fields : Section) : Text :=
  front ++ fields.flatMap fun field => '|' :: fieldText field

/-- `cmd_metrics_snapshot` -/
def Host.snapshot (h : Host) : Text := lineOf h.fields ++ ['\n']

/-! ### The console -/

structure Metrics (Φ : Type) where
  verdict : Text
  disk : Option ℤ
  mount : Text
  mem : Option ℤ
  load1 : Option Φ
  cores : ℤ
  failed : ℤ
  uptime : ℤ
  sysd : Text
  units : List Text
  oom : ℤ
  hyp : Option Text
  vms : Option ℤ
  vmNames : Text

def mark : Text := "SYSMETRICS|".toList

/-- `d[k] = v` for a part with a sign in it. -/
def putField (d : Section) (kv : Text) : Section :=
  if '=' ∈ kv then assign (kv.takeWhile (· ≠ '=')) ((kv.dropWhile (· ≠ '=')).drop 1) d else d

def fieldsOf (line : Text) : Section := ((line.splitOn '|').drop 1).foldl putField []

/-- `num(k, cast)` -/
def num {α : Type} (d : Section) (k : String) (cast : Text → Option α) : Option α :=
  (d.lookup k.toList).bind cast

/-- `n or default` -/
def orInt (n : Option ℤ) (default : ℤ) : ℤ :=
  match n with
  | none | some 0 => default
  | some n => n

variable {Φ : Type} (float : Text → Option Φ)

def readMetrics (d : Section) : Metrics Φ where
  verdict := (d.lookup "verdict".toList).getD "OK".toList
  disk := num d "disk" pyInt
  mount := (d.lookup "mount".toList).getD "/".toList
  mem := num d "mem" pyInt
  load1 := num d "load1" float
  cores := orInt (num d "cores" pyInt) 1
  failed := orInt (num d "failed" pyInt) 0
  uptime := orInt (num d "uptime" pyInt) 0
  sysd := (d.lookup "sysd".toList).getD []
  units :=
    let units := (d.lookup "units".toList).getD "-".toList
    if units ∈ ["-".toList, []] then [] else units.splitOn ','
  oom := orInt (num d "oom" pyInt) 0
  hyp := (d.lookup "hyp".toList).filter fun hyp => hyp ∉ ["none".toList, [], "-".toList]
  vms := num d "vms" pyInt
  vmNames := (d.lookup "vm_names".toList).getD []

def parseSysmetrics (text : Text) : Option (Metrics Φ) :=
  ((splitlines text).find? fun line => mark <+: line).map fun line =>
    readMetrics float (fieldsOf line)

/-! ### What the line is to say -/

def Host.coreCount (h : Host) : ℤ :=
  match h.nproc.or h.processors with
  | none => 1
  | some n => if n.val = 0 then 1 else n.val

/-- The values of the host, each in its own field. -/
def Host.metrics (h : Host) : Metrics Φ where
  verdict := h.verdict.toList
  disk := some h.worst.1
  mount := h.worst.2
  mem := some h.mem
  load1 := float ((h.load1.map Load.text).getD "0".toList)
  cores := h.coreCount
  failed := h.failed.length
  uptime := ((h.uptime.map Fin.val).getD 0 : ℕ)
  sysd := h.sysd
  units := h.units
  oom := h.oom.val
  hyp := if h.hyp = "none" then none else some h.hyp.toList
  vms := some h.vms
  vmNames := []

/-- A character that stays inside of its field. -/
def stays (c : Char) : Bool := c ≠ '|' && !isLineBoundary c

/-- The texts that are not the script's own stay in their fields, unit names apart from each other,
and the cores are one number. -/
structure Plain (h : Host) : Prop where
  mount : ∀ c ∈ h.worst.2, stays c = true
  sysd : ∀ c ∈ h.sysd, stays c = true
  units : ∀ u ∈ h.units, ∀ c ∈ u, stays c = true ∧ c ≠ ','
  cores : h.nproc = none → h.processors.map Fin.val ≠ some 0

variable {float} {fields : Section} {line rest : Text} {h : Host} {n : ℕ}

/-! ### A line of plain fields -/

theorem split_fields {x : Text} (hx : '|' ∉ x) (h : ∀ field ∈ fields, '|' ∉ fieldText field) :
    (x ++ fields.flatMap fun field => '|' :: fieldText field).splitOn '|' =
      x :: fields.map fieldText := by
  induction fields generalizing x with
  | nil => simpa using List.splitOn_eq_singleton hx
  | cons field fields ih =>
    have hfield := h field List.mem_cons_self
    rw [List.flatMap_cons, List.cons_append, List.splitOn_append_cons_self_of_not_mem hx,
      ih hfield fun x hx => h x (List.mem_cons_of_mem field hx), List.map_cons]

theorem assign_new {key v : Text} {d : Section} (h : key ∉ d.map Prod.fst) :
    assign key v d = d ++ [(key, v)] := by
  induction d with
  | nil => rfl
  | cons e d ih =>
    rw [List.map_cons, List.mem_cons, not_or] at h
    rw [assign, if_neg (Ne.symm h.1), ih h.2, List.cons_append]

theorem putField_fieldText {field : Text × Text} (h : '=' ∉ field.1) (d : Section) :
    putField d (fieldText field) = assign field.1 field.2 d := by
  have hkey : ∀ c ∈ field.1, decide (c ≠ '=') = true := by
    intro c hc
    rw [decide_eq_true_eq]
    rintro rfl
    exact h hc
  rw [putField, fieldText, if_pos (by simp), List.takeWhile_append_of_pos hkey,
    List.dropWhile_append_of_pos hkey]
  simp

theorem foldl_putField {d : Section} (hsign : ∀ field ∈ fields, '=' ∉ field.1)
    (hnodup : ((d ++ fields).map Prod.fst).Nodup) :
    (fields.map fieldText).foldl putField d = d ++ fields := by
  induction fields generalizing d with
  | nil => simp
  | cons field fields ih =>
    have hsplit : d ++ field :: fields = (d ++ [(field.1, field.2)]) ++ fields := by simp
    have hnew : field.1 ∉ d.map Prod.fst := by
      rw [List.map_append, List.nodup_append] at hnodup
      exact fun hmem => hnodup.2.2 _ hmem _ List.mem_cons_self rfl
    rw [List.map_cons, List.foldl_cons, putField_fieldText (hsign field List.mem_cons_self),
      assign_new hnew, ih (fun x hx => hsign x (List.mem_cons_of_mem field hx)) (hsplit ▸ hnodup),
      ← hsplit]

def fieldKeys : List Text :=
  ["verdict", "disk", "mount", "mem", "load1", "cores", "failed", "uptime", "sysd", "units", "oom",
    "hyp", "vms"].map String.toList

theorem fieldKeys_nodup : fieldKeys.Nodup := by decide

theorem fieldKeys_plain {key : Text} (h : key ∈ fieldKeys) :
    '=' ∉ key ∧ ∀ c ∈ key, stays c = true := by
  have hall : (fieldKeys.all fun key => key.all fun c => stays c && c ≠ '=') = true := by decide
  have hkey : ∀ c ∈ key, (stays c && decide (c ≠ '=')) = true :=
    List.all_eq_true.mp (List.all_eq_true.mp hall key h)
  refine ⟨fun hsign => ?_, fun c hc => (Bool.and_eq_true _ _ ▸ hkey c hc).1⟩
  exact absurd (hkey '=' hsign) (by decide)

theorem stays_iff {c : Char} : stays c = true ↔ c ≠ '|' ∧ isLineBoundary c = false := by
  simp [stays]

/-- What stands between the bars is read field by field. -/
theorem parse_fields (hkeys : (fields.map Prod.fst).Sublist fieldKeys)
    (hvalues : ∀ field ∈ fields, ∀ c ∈ field.2, stays c = true) (hne : fields ≠ []) :
    parseSysmetrics float (lineOf fields ++ '\n' :: rest) = some (readMetrics float fields) := by
  have hplain : ∀ field ∈ fields, '=' ∉ field.1 ∧ ∀ c ∈ fieldText field, stays c = true := by
    intro field hfield
    obtain ⟨hsign, hkey⟩ := fieldKeys_plain (hkeys.subset (List.mem_map_of_mem hfield))
    refine ⟨hsign, fun c hc => ?_⟩
    rcases List.mem_append.mp hc with hc | hc
    · exact hkey c hc
    · rcases List.mem_cons.mp hc with rfl | hc
      · decide
      · exact hvalues field hfield c hc
  have hfields : fieldsOf (lineOf fields) = fields := by
    have hbar : ∀ field ∈ fields, '|' ∉ fieldText field := fun field hfield hmem =>
      (stays_iff.mp ((hplain field hfield).2 _ hmem)).1 rfl
    have hnodup : (([] ++ fields).map Prod.fst).Nodup := fieldKeys_nodup.sublist hkeys
    have hfold := foldl_putField (fun field hfield => (hplain field hfield).1) hnodup
    rw [fieldsOf, lineOf, split_fields (by decide) hbar, List.drop_one, List.tail_cons, hfold,
      List.nil_append]
  have hline : ∀ c ∈ lineOf fields, isLineBoundary c = false := by
    have hfront : (front.all fun c => !isLineBoundary c) = true := by decide
    intro c hc
    rcases List.mem_append.mp hc with hc | hc
    · simpa using List.all_eq_true.mp hfront c hc
    · obtain ⟨field, hfield, hc⟩ := List.mem_flatMap.mp hc
      rcases List.mem_cons.mp hc with rfl | hc
      · decide
      · exact (stays_iff.mp ((hplain field hfield).2 c hc)).2
  have hmark : mark <+: lineOf fields := by
    obtain ⟨field, more, rfl⟩ := List.exists_cons_of_ne_nil hne
    have heq : mark = front ++ ['|'] := by decide
    rw [heq, lineOf, List.flatMap_cons, List.cons_append]
    exact (List.prefix_append_right_inj _).mpr (List.cons_prefix_cons.mpr ⟨rfl, List.nil_prefix⟩)
  rw [parseSysmetrics, splitlines_line hline, List.find?_cons_of_pos (by simpa using hmark),
    Option.map_some, hfields]

/-! ### The fields of a host -/

theorem stays_of_digit {c : Char} (h : c.isDigit = true ∨ c = '.') : stays c = true := by
  have hrange : 46 ≤ c.toNat ∧ c.toNat ≤ 57 := by
    rcases h with h | rfl
    · simp only [Char.isDigit, Bool.and_eq_true, decide_eq_true_eq, UInt32.le_iff_toNat_le] at h
      exact ⟨le_trans (by decide) h.1, h.2⟩
    · decide
  have hbar : c ≠ '|' := by
    rintro rfl
    exact absurd hrange.2 (by decide)
  refine stays_iff.mpr ⟨hbar, ?_⟩
  simp only [isLineBoundary, List.contains_eq_mem, List.mem_cons, List.not_mem_nil, or_false,
    Bool.or_eq_false_iff, Bool.and_eq_false_iff, decide_eq_false_iff_not]
  omega

theorem stays_decimal {c : Char} (h : c ∈ decimal n) : stays c = true :=
  stays_of_digit (.inl (JumpHop.digit_of_mem_decimal h))

theorem stays_verdict : ∀ c ∈ h.verdict.toList, stays c = true := by
  have hverdict : h.verdict ∈ ["CRITICAL", "WARNING", "OK"] := by
    rw [Host.verdict]
    split_ifs <;> simp
  have hall : (["CRITICAL", "WARNING", "OK"].all fun v => v.toList.all stays) = true := by decide
  exact List.all_eq_true.mp (List.all_eq_true.mp hall _ hverdict)

def hypervisors : List String :=
  ["proxmox", "xen-dom0", "kvm", "qemu", "virtualbox", "vmware", "none"]

theorem hyp_mem : h.hyp ∈ hypervisors := by
  rw [Host.hyp]
  split_ifs <;> decide

theorem stays_hyp : ∀ c ∈ h.hyp.toList, stays c = true := by
  have hall : (hypervisors.all fun v => v.toList.all stays) = true := by decide
  exact List.all_eq_true.mp (List.all_eq_true.mp hall _ hyp_mem)

theorem stays_load : ∀ c ∈ (h.load1.map Load.text).getD "0".toList, stays c = true := by
  cases h.load1 with
  | none => exact List.all_eq_true.mp (by decide)
  | some load => exact fun c hc => stays_of_digit (load.plain c hc)

/-- The cores are one number, unless they are counted and there are none. -/
theorem cores_eq (hcores : h.nproc = none → h.processors.map Fin.val ≠ some 0) :
    ∃ k : ℕ, k < 2 ^ 60 ∧ h.cores = decimal k ∧ h.coreCount = orInt (some k) 1 := by
  have hor (k : Count) : (if k.val = 0 then 1 else (k.val : ℤ)) = orInt (some k.val) 1 := by
    rcases Nat.eq_zero_or_pos k.val with hzero | hpos
    · rw [hzero]
      rfl
    · obtain ⟨m, hm⟩ := Nat.exists_eq_succ_of_ne_zero hpos.ne'
      rw [hm]
      rfl
  rw [Host.cores, Host.coreCount]
  cases hn : h.nproc with
  | some k => exact ⟨k, k.isLt, rfl, hor k⟩
  | none =>
    cases hp : h.processors with
    | none => exact ⟨1, by decide, by decide, rfl⟩
    | some k =>
      have hne : k.val ≠ 0 := by
        intro hzero
        apply hcores hn
        rw [hp, Option.map_some, hzero]
      exact ⟨k, k.isLt, if_neg hne, hor k⟩

theorem stays_unitsText (hunits : ∀ u ∈ h.units, ∀ c ∈ u, stays c = true ∧ c ≠ ',') :
    ∀ c ∈ h.unitsText, stays c = true := by
  intro c hc
  rw [Host.unitsText] at hc
  split_ifs at hc
  · rw [List.mem_singleton.mp hc]
    decide
  · rcases Splitting.mem_intercalate hc with rfl | ⟨u, hu, hmem⟩
    · decide
    · exact (hunits u hu c hmem).1

/-- A unit name has a point in it. -/
theorem point_mem_units {u : Text} (hu : u ∈ h.units) : '.' ∈ u := by
  obtain ⟨line, -, hline⟩ := List.mem_filterMap.mp (List.mem_of_mem_take hu)
  have hsuffix := List.find?_some hline
  obtain ⟨suffix, hmem, hends⟩ := List.any_eq_true.mp hsuffix
  have hpoint : (unitSuffixes.all fun s => '.' ∈ s) = true := by decide
  have hin := List.all_eq_true.mp hpoint suffix hmem
  exact (of_decide_eq_true hends).subset (of_decide_eq_true hin)

/-- The names come back out of the text of the field. -/
theorem read_unitsText (hunits : ∀ u ∈ h.units, ∀ c ∈ u, stays c = true ∧ c ≠ ',') :
    (if h.unitsText ∈ ["-".toList, []] then [] else h.unitsText.splitOn ',') = h.units := by
  by_cases hnil : h.units = []
  · rw [Host.unitsText, if_pos hnil, hnil]
    rfl
  have hsplit : h.unitsText.splitOn ',' = h.units := by
    rw [Host.unitsText, if_neg hnil]
    exact List.splitOn_intercalate ',' (fun u hu hcomma => (hunits u hu _ hcomma).2 rfl) hnil
  rw [if_neg, hsplit]
  intro hmem
  have hpoint : ∀ u ∈ h.unitsText.splitOn ',', '.' ∈ u := hsplit ▸ fun u hu => point_mem_units hu
  rw [List.mem_cons, List.mem_singleton] at hmem
  rcases hmem with htext | htext
  · rw [htext] at hpoint
    exact absurd (hpoint ['-'] (by decide)) (by decide)
  · rw [htext] at hpoint
    exact absurd (hpoint [] (by decide)) List.not_mem_nil

theorem worst_lt : h.worst.1 < 2 ^ 60 := by
  have hfold : ∀ (vs : List Volume) (worst : ℕ × Text), worst.1 < 2 ^ 60 →
      (vs.foldl worseOf worst).1 < 2 ^ 60 := by
    intro vs
    induction vs with
    | nil => exact fun _ hw => hw
    | cons v vs ih =>
      intro worst hw
      apply ih
      rw [worseOf]
      split_ifs
      · exact v.used.isLt
      · exact hw
  exact hfold h.volumes (0, []) (by decide)

theorem mem_lt : h.mem < 2 ^ 60 := by
  rw [Host.mem]
  cases h.memory with
  | none => decide
  | some m =>
    rw [Option.map_some, Option.getD_some, Memory.percent]
    split_ifs with htotal
    · have hle : (m.total.val - m.available.val) * 100 / m.total.val ≤ 100 :=
        Nat.div_le_of_le_mul (Nat.mul_le_mul_right 100 (Nat.sub_le _ _))
      omega
    · decide

theorem pyInt_decimal (hn : n < 2 ^ 62) : pyInt (decimal n) = some (n : ℤ) := by
  have hlen : (decimal n).length ≤ 19 :=
    (Nat.length_toDigits_le_iff (by decide) (by decide)).mpr (hn.trans (by decide))
  rw [JumpHop.pyInt_of_digits JumpHop.decimal_ne_nil (hlen.trans (by decide)) fun c =>
    JumpHop.digit_of_mem_decimal, decimal, Nat.ofDigitChars_ten_toDigits]

theorem orInt_zero (n : ℕ) : orInt (some (n : ℤ)) 0 = n := by
  rcases Nat.eq_zero_or_pos n with rfl | hpos
  · rfl
  · obtain ⟨m, rfl⟩ := Nat.exists_eq_succ_of_ne_zero hpos.ne'
    rfl

/-- The fields by themselves say what they are to say. -/
theorem read_fields (hplain : Plain h) :
    readMetrics float h.fields = Host.metrics float h := by
  obtain ⟨k, hk, hcores, hcount⟩ := cores_eq hplain.cores
  have huptime : (h.uptime.map Fin.val).getD 0 < 2 ^ 60 := by
    cases h.uptime with
    | none => decide
    | some n => exact n.isLt
  have hfailed : h.failed.length < 2 ^ 60 := h.few
  have hvms : h.vms < 2 ^ 62 := by
    have hq := h.qemu.isLt
    have hb := h.virtualBox.isLt
    have hw := h.vmware.isLt
    rw [Host.vms]
    omega
  have hhyp : (some h.hyp.toList).filter (fun hyp => hyp ∉ ["none".toList, [], "-".toList]) =
      if h.hyp = "none" then none else some h.hyp.toList := by
    have hall : ∀ v ∈ hypervisors,
        (some v.toList).filter (fun hyp => hyp ∉ ["none".toList, [], "-".toList]) =
          if v = "none" then none else some v.toList := by decide
    exact hall _ hyp_mem
  have hread : readMetrics float h.fields =
      ⟨h.verdict.toList, pyInt (decimal h.worst.1), h.worst.2, pyInt (decimal h.mem),
        float ((h.load1.map Load.text).getD "0".toList), orInt (pyInt h.cores) 1,
        orInt (pyInt (decimal h.failed.length)) 0,
        orInt (pyInt (decimal ((h.uptime.map Fin.val).getD 0))) 0, h.sysd,
        if h.unitsText ∈ ["-".toList, []] then [] else h.unitsText.splitOn ',',
        orInt (pyInt (decimal h.oom)) 0,
        (some h.hyp.toList).filter (fun hyp => hyp ∉ ["none".toList, [], "-".toList]),
        pyInt (decimal h.vms), []⟩ := rfl
  rw [hread, Host.metrics, read_unitsText hplain.units, hhyp, hcores, hcount,
    pyInt_decimal (worst_lt.trans (by decide)), pyInt_decimal (mem_lt.trans (by decide)),
    pyInt_decimal (hk.trans (by decide)), pyInt_decimal (hfailed.trans (by decide)),
    pyInt_decimal (huptime.trans (by decide)), pyInt_decimal (h.oom.isLt.trans (by decide)),
    pyInt_decimal hvms]
  simp only [orInt_zero]

theorem stays_fields (hplain : Plain h) : ∀ field ∈ h.fields, ∀ c ∈ field.2, stays c = true := by
  obtain ⟨k, -, hcores, -⟩ := cores_eq hplain.cores
  have hnumber (n : ℕ) : ∀ c ∈ decimal n, stays c = true := fun c => stays_decimal
  rw [Host.fields, hcores]
  simp only [List.forall_mem_cons]
  exact ⟨stays_verdict, hnumber _, hplain.mount, hnumber _, stays_load, hnumber _, hnumber _,
    hnumber _, hplain.sysd, stays_unitsText hplain.units, hnumber _, stays_hyp, hnumber _,
    fun _ hmem => absurd hmem List.not_mem_nil⟩

theorem keys_fields : (h.fields.map Prod.fst).Sublist fieldKeys := List.Sublist.refl _

/-- A plain host is read as it is. -/
theorem parse_snapshot (hplain : Plain h) :
    parseSysmetrics float h.snapshot = some (Host.metrics float h) := by
  rw [Host.snapshot, parse_fields keys_fields (stays_fields hplain) (List.cons_ne_nil _ _),
    read_fields hplain]

/-! ### Texts that leave their field -/

theorem mem_foldl_putField {e : Text × Text} {parts : List Text} {d : Section}
    (h : e ∈ parts.foldl putField d) : e ∈ d ∨ ∃ part ∈ parts, ∀ c ∈ e.2, c ∈ part := by
  induction parts generalizing d with
  | nil => exact .inl h
  | cons part parts ih =>
    rcases ih h with h | ⟨part', hpart', h⟩
    · rw [putField] at h
      split_ifs at h
      · rcases mem_assign h with rfl | h
        · refine .inr ⟨part, List.mem_cons_self, fun c hc => ?_⟩
          exact List.dropWhile_subset _ (List.mem_of_mem_drop hc)
        · exact .inl h
      · exact .inl h
    · exact .inr ⟨part', List.mem_cons_of_mem part hpart', h⟩

/-- What is read of a line stays in its field. -/
theorem stays_lookup {key v : Text} (hline : ∀ c ∈ line, isLineBoundary c = false)
    (h : (fieldsOf line).lookup key = some v) : ∀ c ∈ v, stays c = true := by
  obtain ⟨e, he, rfl⟩ : ∃ e ∈ fieldsOf line, v = e.2 := by
    obtain ⟨d₁, d₂, hsplit, -⟩ := List.lookup_eq_some_iff.mp h
    exact ⟨(key, v), hsplit ▸ by simp, rfl⟩
  rcases mem_foldl_putField he with he | ⟨part, hpart, hsub⟩
  · exact absurd he List.not_mem_nil
  · have hmem := List.mem_of_mem_drop hpart
    intro c hc
    refine stays_iff.mpr ⟨?_, hline c (Splitting.subset_of_mem hmem (hsub c hc))⟩
    rintro rfl
    exact Splitting.sep_notMem hmem (hsub _ hc)

theorem stays_getD {key default : Text} (hline : ∀ c ∈ line, isLineBoundary c = false)
    (hdefault : ∀ c ∈ default, stays c = true) :
    ∀ c ∈ ((fieldsOf line).lookup key).getD default, stays c = true := by
  cases hlookup : (fieldsOf line).lookup key with
  | none => exact hdefault
  | some v => exact stays_lookup hline hlookup

theorem sysd_ne_nil : h.sysd ≠ [] := by
  rw [Host.sysd]
  split_ifs with hnil
  · decide
  · exact hnil

/-- A count of zero breaks the line behind it. -/
theorem snapshot_of_zero (hnone : h.nproc = none) (hzero : h.processors.map Fin.val = some 0) :
    ∃ rest, h.snapshot =
      lineOf (h.fields.take 5 ++ [("cores".toList, "0".toList)]) ++ '\n' :: rest := by
  have hcores : h.cores = "0\n1".toList := by
    obtain ⟨k, hk, hval⟩ := Option.map_eq_some_iff.mp hzero
    rw [Host.cores, hnone, hk]
    exact if_pos hval
  refine ⟨'1' :: ((h.fields.drop 6).flatMap (fun field => '|' :: fieldText field) ++ ['\n']), ?_⟩
  simp [Host.snapshot, lineOf, Host.fields, hcores, fieldText]

theorem plain_of_parse (hparse : parseSysmetrics float h.snapshot = some (Host.metrics float h)) :
    Plain h := by
  obtain ⟨line, hfind, hread⟩ := Option.map_eq_some_iff.mp hparse
  have hline := not_boundary_of_mem (List.mem_of_find?_eq_some hfind)
  have hmount : ∀ c ∈ h.worst.2, stays c = true := by
    have heq : ((fieldsOf line).lookup "mount".toList).getD "/".toList = h.worst.2 :=
      congrArg Metrics.mount hread
    exact heq ▸ stays_getD hline (List.all_eq_true.mp (by decide))
  have hsysd : ∀ c ∈ h.sysd, stays c = true := by
    have heq : ((fieldsOf line).lookup "sysd".toList).getD [] = h.sysd :=
      congrArg Metrics.sysd hread
    exact heq ▸ stays_getD hline (List.all_eq_true.mp (by decide))
  refine ⟨hmount, hsysd, ?_, ?_⟩
  · intro u hu c hc
    have heq : (readMetrics float (fieldsOf line)).units = h.units := congrArg Metrics.units hread
    rw [← heq, readMetrics] at hu
    dsimp only at hu
    split_ifs at hu
    · exact absurd hu List.not_mem_nil
    · have hvalue := Splitting.subset_of_mem hu hc
      refine ⟨stays_getD hline (List.all_eq_true.mp (by decide)) c hvalue, ?_⟩
      rintro rfl
      exact Splitting.sep_notMem hu hc
  · intro hnone hzero
    obtain ⟨rest, hrest⟩ := snapshot_of_zero hnone hzero
    have hvalues : ∀ field ∈ h.fields.take 5 ++ [("cores".toList, "0".toList)],
        ∀ c ∈ field.2, stays c = true := by
      have hnumber (n : ℕ) : ∀ c ∈ decimal n, stays c = true := fun c => stays_decimal
      simp only [Host.fields, List.take_succ_cons, List.take_zero, List.cons_append,
        List.nil_append, List.forall_mem_cons]
      exact ⟨stays_verdict, hnumber _, hmount, hnumber _, stays_load,
        List.all_eq_true.mp (by decide),
        fun _ hmem => absurd hmem List.not_mem_nil⟩
    have hkeys : ((h.fields.take 5 ++ [("cores".toList, "0".toList)]).map Prod.fst).Sublist
        fieldKeys := List.take_sublist 6 fieldKeys
    rw [hrest, parse_fields hkeys hvalues (List.cons_ne_nil _ _)] at hparse
    have hnothing : [] = h.sysd := congrArg Metrics.sysd (Option.some.inj hparse)
    exact sysd_ne_nil hnothing.symm

/-- A host is read as it is exactly where it is plain. -/
theorem parse_snapshot_iff : parseSysmetrics float h.snapshot = some (Host.metrics float h) ↔
    Plain h := ⟨plain_of_parse, parse_snapshot⟩

/-- What the snapshots of a host print is what the console reads: of the posture where no value has
a line boundary in it, which it must not as long as no key is written twice, and of the metrics
exactly where the host is plain. -/
theorem snapshots_read_iff (calls : List Call) (hkeys : ∀ call ∈ calls, call.key ∈ probeKeys)
    (float : Text → Option Φ) (h : Host) :
    (Unbroken calls → ReadBack calls) ∧
      ((calls.map Call.key).Nodup → (ReadBack calls ↔ Unbroken calls)) ∧
      (parseSysmetrics float h.snapshot = some (Host.metrics float h) ↔ Plain h) :=
  ⟨readBack_of_unbroken hkeys,
    fun hnodup => ⟨unbroken_of_readBack hkeys hnodup, readBack_of_unbroken hkeys⟩,
    parse_snapshot_iff⟩

/-! ### Two hosts -/

def osName (value : String) : Call := ⟨"os.name".toList, value.toList⟩

def noFloat (_ : Text) : Option Unit := none

def hostWith (v : Volume) : Host where
  volumes := [v]
  memory := none
  load1 := none
  nproc := none
  processors := none
  failedOutput := []
  few := by decide
  systemState := "running".toList
  oom := 0
  uptime := none
  qemu := 0
  virtualBox := 0
  vmware := 0
  pve := false
  xenControl := false
  kvmDevice := false
  libvirt := false

def dataVolume : Volume := ⟨"/dev/sdb1".toList, 97, "/srv".toList, rfl⟩

theorem ubuntu_read : ReadBack [osName "Ubuntu 24.04 LTS"] ∧
    parseSysmetrics noFloat (hostWith dataVolume).snapshot =
      some (Host.metrics noFloat (hostWith dataVolume)) := by
  have hkeys : ∀ call ∈ [osName "Ubuntu 24.04 LTS"], call.key ∈ probeKeys := by
    intro call hcall
    rw [List.mem_singleton.mp hcall]
    decide +kernel
  have hunbroken : Unbroken [osName "Ubuntu 24.04 LTS"] := by
    have hall : ((osName "Ubuntu 24.04 LTS").written.all fun d => !isLineBoundary d) = true := by
      decide +kernel
    intro call hcall d hd
    rw [List.mem_singleton.mp hcall] at hd
    simpa using List.all_eq_true.mp hall d hd
  have hplain : Plain (hostWith dataVolume) := by
    have hmount : ((hostWith dataVolume).worst.2.all stays) = true := by decide +kernel
    have hsysd : ((hostWith dataVolume).sysd.all stays) = true := by decide +kernel
    exact ⟨List.all_eq_true.mp hmount, List.all_eq_true.mp hsysd,
      fun u hu => absurd hu List.not_mem_nil, fun _ hzero => by cases hzero⟩
  obtain ⟨hread, -, hmetrics⟩ := snapshots_read_iff _ hkeys noFloat (hostWith dataVolume)
  exact ⟨hread hunbroken, hmetrics.mpr hplain⟩

def healthyVolume : Volume := ⟨"/dev/sdb1".toList, 97, "/srv|verdict=OK|disk=1".toList, rfl⟩

/-- A line separator in the name of the system turns a firewall on, and a mount point makes the
host healthy. -/
theorem texts_leave_their_field :
    (¬∀ calls : List Call, (∀ call ∈ calls, call.key ∈ probeKeys) → ReadBack calls) ∧
      ¬∀ h : Host, parseSysmetrics noFloat h.snapshot = some (Host.metrics noFloat h) := by
  constructor
  · intro h
    have hkeys : ∀ call ∈ [osName "Ubuntu\u2028POSTURE|fw.active=1"], call.key ∈ probeKeys := by
      intro call hcall
      rw [List.mem_singleton.mp hcall]
      decide +kernel
    have hactive := h _ hkeys "fw".toList "active".toList
    have hread : readAt (emitted [osName "Ubuntu\u2028POSTURE|fw.active=1"]) "fw".toList
        "active".toList = some ['1'] := by decide +kernel
    rw [hread] at hactive
    revert hactive
    decide +kernel
  · intro h
    have hverdict := congrArg (Option.map Metrics.verdict) (h (hostWith healthyVolume))
    revert hverdict
    decide +kernel

end SysMetrics
