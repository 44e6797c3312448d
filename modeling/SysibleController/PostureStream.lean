import SysibleController.Posture
import Mathlib.Data.List.Nodup

/-! The stream of the posture probe (`p` in `_POSTURE_SH`) against what the console reads of it. -/
namespace Posture

open PathText PythonText

/-- `p key value` -/
structure Call where
  key : Text
  value : Text

/-- `tr '\r\n\t' '   '` -/
def blanked (t : Text) : Text := t.map fun c => if c ∈ "\r\n\t".toList then ' ' else c

/-- The value that `p` writes; `cut -c1-400` counts characters. -/
def Call.written (c : Call) : Text := (blanked c.value).take 400

def Call.line (c : Call) : Text := postureMark ++ (c.key ++ '=' :: c.written)

def emitted (calls : List Call) : Text := calls.flatMap fun c => c.line ++ ['\n']

/-- The keys of the script, by their category. -/
def probeSections : List (String × List String) :=
  [("os", ["distro", "name", "version", "kernel", "arch", "uptime_s", "boot_epoch"]),
    ("sub", ["rhsm", "ubuntu_pro"]),
    ("reboot", ["required"]),
    ("mac", ["selinux", "apparmor"]),
    ("sec", ["fips", "aslr", "secureboot", "auditd", "fail2ban", "usb_storage"]),
    ("fw", ["backend", "active", "enabled_at_boot", "determined", "why", "probe_uid"]),
    ("users", ["uid0", "uid0_count", "empty_pw", "empty_pw_count", "dup_uid", "dup_gid",
      "admins", "pw_max_days", "pw_min_len", "locked_count", "svc_login_shells",
      "pw_complexity"]),
    ("ssh", ["permit_root_login", "password_auth", "pubkey_auth", "max_auth_tries",
      "idle_timeout", "banner", "allow_users", "allow_groups", "x11_forwarding", "weak_ciphers",
      "weak_macs", "weak_kex", "version"]),
    ("fs", ["disk_pct", "inode_pct", "suid_sgid_count", "world_writable_count",
      "unowned_count"]),
    ("mount", ["root", "tmp", "var", "home", "dev_shm", "boot"]),
    ("time", ["synced", "ntp_service", "timezone", "source", "offset"]),
    ("log", ["rsyslog", "journald", "remote_forward", "logrotate", "var_log_mb"]),
    ("net", ["listen_count", "listen_ports", "ipv4", "ipv6", "dns", "gateway", "ip_forward",
      "ipv6_disabled", "hostname"]),
    ("cert", ["count", "expiring_30d", "self_signed", "nearest_days"]),
    ("svc", ["failed_count", "failed", "zombies"]),
    ("hw", ["mem_pct", "swap_pct", "cores", "raid", "smart"]),
    ("virt", ["type", "guest_agent", "hypervisor", "vms_running"]),
    ("cont", ["docker", "docker_running", "docker_privileged", "podman", "podman_running"]),
    ("ad", ["domain", "sssd", "kerberos"]),
    ("perf", ["load1", "oom"]),
    ("misc", ["last_login", "cron_jobs", "timers"]),
    ("meta", ["privileged"])]

def probeKeys : List Text :=
  probeSections.flatMap fun (category, names) =>
    names.map fun name => category.toList ++ '.' :: name.toList

/-- What the console has under a key. -/
def readAt (text c k : Text) : Option Text := (parsePosture text).bind fun p => reading p c k

/-- What `p` wrote last under a key. -/
def wroteAt (calls : List Call) (key : Text) : Option Text :=
  (calls.reverse.find? fun c => c.key = key).map Call.written

/-- Under each key the console reads what was written, and nothing under any other. -/
def ReadBack (calls : List Call) : Prop :=
  ∀ c k, readAt (emitted calls) c k = wroteAt calls (c ++ '.' :: k)

/-- No value holds a character at which `splitlines` breaks a line. -/
def Unbroken (calls : List Call) : Prop := ∀ c ∈ calls, ∀ d ∈ c.written, isLineBoundary d = false

/-! ### Lines -/

variable {line rest t x : Text} {calls : List Call} {c k key v : Text} {flat : Section}

theorem splitlinesFrom_append (h : ∀ d ∈ x, isLineBoundary d = false) :
    splitlinesFrom line (x ++ '\n' :: rest) = (line.reverse ++ x) :: splitlinesFrom [] rest := by
  induction x generalizing line with
  | nil => simp [splitlinesFrom, isLineBoundary]
  | cons d x ih =>
    have hd := h d List.mem_cons_self
    have hreturn : d ≠ '\r' := by
      rintro rfl
      exact absurd hd (by decide)
    rw [List.cons_append, splitlinesFrom, if_neg (by simp [hd]),
      ih fun e he => h e (List.mem_cons_of_mem d he)]
    · simp
    · exact fun _ heq _ => hreturn heq

/-- A line without a boundary in it is read as it is. -/
theorem splitlines_line (h : ∀ d ∈ x, isLineBoundary d = false) :
    splitlines (x ++ '\n' :: rest) = x :: splitlines rest := splitlinesFrom_append h

theorem not_boundary_of_mem_from (hline : ∀ d ∈ line, isLineBoundary d = false)
    (h : x ∈ splitlinesFrom line t) : ∀ d ∈ x, isLineBoundary d = false := by
  fun_induction splitlinesFrom line t with
  | case1 => cases h
  | case2 line hne =>
    rw [List.mem_singleton.mp h]
    exact fun d hd => hline d (List.mem_reverse.mp hd)
  | case3 line rest ih =>
    rcases List.mem_cons.mp h with rfl | h
    · exact fun d hd => hline d (List.mem_reverse.mp hd)
    · exact ih (fun d hd => absurd hd List.not_mem_nil) h
  | case4 line d rest _ hd ih =>
    rcases List.mem_cons.mp h with rfl | h
    · exact fun d hd => hline d (List.mem_reverse.mp hd)
    · exact ih (fun d hd => absurd hd List.not_mem_nil) h
  | case5 line d rest _ hd ih =>
    refine ih ?_ h
    intro e he
    rcases List.mem_cons.mp he with rfl | he
    · exact Bool.eq_false_iff.mpr hd
    · exact hline e he

/-- No line that is read has a boundary in it. -/
theorem not_boundary_of_mem (h : x ∈ splitlines t) : ∀ d ∈ x, isLineBoundary d = false :=
  not_boundary_of_mem_from (fun _ hd => absurd hd List.not_mem_nil) h

/-! ### What is read -/

/-- A character of a category or of a name. -/
def keyChar (d : Char) : Bool :=
  Nat.ble 97 d.toNat && Nat.ble d.toNat 122 || Nat.ble 48 d.toNat && Nat.ble d.toNat 57 ||
    Nat.beq d.toNat 95

theorem keyChar_plain {d : Char} (h : keyChar d = true) :
    isSpace d = false ∧ isLineBoundary d = false ∧ d ≠ '=' := by
  simp only [keyChar, Bool.or_eq_true, Bool.and_eq_true, Nat.ble_eq, Nat.beq_eq] at h
  refine ⟨?_, ?_, ?_⟩
  · simp only [isSpace, PythonInt.isBlank, List.contains_eq_mem, List.mem_cons,
      List.not_mem_nil, or_false, Bool.or_eq_false_iff, Bool.and_eq_false_iff,
      decide_eq_false_iff_not]
    omega
  · simp only [isLineBoundary, List.contains_eq_mem, List.mem_cons, List.not_mem_nil, or_false,
      Bool.or_eq_false_iff, Bool.and_eq_false_iff, decide_eq_false_iff_not]
    omega
  · rintro rfl
    simp at h

/-- A key has a category and a name in it, and one point. -/
structure IsKey (key a b : Text) : Prop where
  eq : key = a ++ '.' :: b
  category : '.' ∉ a
  name : '.' ∉ b
  name_ne : b ≠ []
  plain : ∀ d ∈ key, isSpace d = false ∧ isLineBoundary d = false ∧ d ≠ '='

theorem keyChar_probeSections : (probeSections.all fun (category, names) =>
    category.toList.all keyChar && names.all fun name =>
      name.toList.all keyChar && !name.toList.isEmpty) = true := by decide +kernel

theorem IsKey.of_mem (h : key ∈ probeKeys) : ∃ a b, IsKey key a b := by
  obtain ⟨⟨category, names⟩, hmem, h⟩ := List.mem_flatMap.mp h
  obtain ⟨name, hname, rfl⟩ := List.mem_map.mp h
  have hall := List.all_eq_true.mp keyChar_probeSections _ hmem
  simp only [Bool.and_eq_true, List.all_eq_true] at hall
  obtain ⟨hcategory, hnames⟩ := hall
  obtain ⟨hchars, hne⟩ := hnames name hname
  refine ⟨category.toList, name.toList, rfl, ?_, ?_, ?_, ?_⟩
  · exact fun hpoint => absurd (hcategory _ hpoint) (by decide)
  · exact fun hpoint => absurd (hchars _ hpoint) (by decide)
  · simpa using hne
  · intro d hd
    rcases List.mem_append.mp hd with hd | hd
    · exact keyChar_plain (hcategory d hd)
    · rcases List.mem_cons.mp hd with rfl | hd
      · decide
      · exact keyChar_plain (hchars d hd)

theorem IsKey.eq_iff {a b : Text} (h : IsKey key a b) : key = c ++ '.' :: k ↔ c = a ∧ k = b := by
  rw [h.eq, List.append_cons_inj_of_notMem h.category h.name]
  constructor
  · rintro ⟨rfl, -, rfl⟩
    exact ⟨rfl, rfl⟩
  · rintro ⟨rfl, rfl⟩
    exact ⟨rfl, rfl, rfl⟩

theorem reading_nest {a b : Text} (h : IsKey key a b) (p : Readings) :
    reading (nest p (key, v)) c k = if key = c ++ '.' :: k then some v else reading p c k := by
  have hcat : key.takeWhile (· ≠ '.') = a := by
    rw [h.eq, List.takeWhile_append_of_pos fun d hd => by
      simpa using fun heq : d = '.' => h.category (heq ▸ hd)]
    simp
  have hsub : (key.dropWhile (· ≠ '.')).drop 1 = b := by
    rw [h.eq, List.dropWhile_append_of_pos fun d hd => by
      simpa using fun heq : d = '.' => h.category (heq ▸ hd)]
    simp
  simp only [nest, hcat, hsub, if_neg h.name_ne, reading, lookup_assign, h.eq_iff]
  by_cases hc : c = a
  · subst hc
    rw [if_pos rfl, Option.bind_some, lookup_assign]
    by_cases hk : k = b
    · rw [if_pos hk, if_pos ⟨rfl, hk⟩]
    · rw [if_neg hk, if_neg fun hboth => hk hboth.2]
      cases p.lookup c <;> rfl
  · rw [if_neg hc, if_neg fun hboth => hc hboth.1]

/-- The sections hold what the flat dictionary holds. -/
theorem reading_foldl_nest (hkeys : ∀ e ∈ flat, ∃ a b, IsKey e.1 a b)
    (hnodup : (flat.map Prod.fst).Nodup) (p : Readings) :
    reading (flat.foldl nest p) c k =
      (flat.lookup (c ++ '.' :: k)).or (reading p c k) := by
  induction flat generalizing p with
  | nil => rfl
  | cons e flat ih =>
    obtain ⟨a, b, hkey⟩ := hkeys e List.mem_cons_self
    rw [List.map_cons, List.nodup_cons] at hnodup
    rw [List.foldl_cons, ih (fun e he => hkeys e (List.mem_cons_of_mem _ he)) hnodup.2,
      reading_nest hkey, lookup_cons]
    by_cases heq : e.1 = c ++ '.' :: k
    · have hnone : flat.lookup (c ++ '.' :: k) = none := by
        rw [List.lookup_eq_none_iff]
        intro e' he'
        rw [bne_iff_ne, ← heq]
        intro hsame
        exact hnodup.1 (hsame ▸ List.mem_map_of_mem he')
      rw [if_pos heq, if_pos heq.symm, hnone]
      rfl
    · rw [if_neg heq, if_neg (Ne.symm heq)]

theorem readAt_eq (text : Text) : readAt text c k =
    reading (((splitlines text).foldl readLine []).foldl nest []) c k := by
  rw [readAt, parsePosture]
  split_ifs with hnil
  · rw [hnil]
    rfl
  · rfl

/-! ### Values without a boundary -/

theorem mem_assign {α : Type} {e : Text × α} {w : α} {d : List (Text × α)}
    (h : e ∈ assign key w d) : e = (key, w) ∨ e ∈ d := by
  induction d with
  | nil => exact .inl (List.mem_singleton.mp h)
  | cons e' d ih =>
    rw [assign] at h
    split_ifs at h
    · rcases List.mem_cons.mp h with h | h
      · exact .inl h
      · exact .inr (List.mem_cons_of_mem e' h)
    · rcases List.mem_cons.mp h with h | h
      · exact .inr (h ▸ List.mem_cons_self)
      · exact (ih h).imp_right (List.mem_cons_of_mem e')

theorem nodup_assign {α : Type} {w : α} {d : List (Text × α)} (h : (d.map Prod.fst).Nodup) :
    ((assign key w d).map Prod.fst).Nodup := by
  induction d with
  | nil => exact List.nodup_singleton key
  | cons e d ih =>
    rw [List.map_cons, List.nodup_cons] at h
    rw [assign]
    split_ifs with heq
    · rw [List.map_cons, List.nodup_cons, ← heq]
      exact h
    · rw [List.map_cons, List.nodup_cons]
      refine ⟨?_, ih h.2⟩
      intro hmem
      obtain ⟨e', he', hfst⟩ := List.mem_map.mp hmem
      rcases mem_assign he' with rfl | he'
      · exact heq hfst.symm
      · exact h.1 (hfst ▸ List.mem_map_of_mem he')

theorem readLine_line {call : Call} {a b : Text} (h : IsKey call.key a b) (flat : Section) :
    readLine flat call.line = assign call.key call.written flat := by
  have hkey : ∀ d ∈ call.key, decide (d ≠ '=') = true := fun d hd =>
    decide_eq_true (h.plain d hd).2.2
  have hprefix : postureMark <+: call.line := List.prefix_append _ _
  have hbody : call.line.drop postureMark.length = call.key ++ '=' :: call.written :=
    List.drop_left
  rw [readLine, if_pos hprefix, hbody, if_pos (by simp), List.takeWhile_append_of_pos hkey,
    List.dropWhile_append_of_pos hkey]
  simp [stripText_of_all fun d hd => (h.plain d hd).1]

theorem line_unbroken {call : Call} {a b : Text} (h : IsKey call.key a b)
    (hvalue : ∀ d ∈ call.written, isLineBoundary d = false) :
    ∀ d ∈ call.line, isLineBoundary d = false := by
  have hmark : (postureMark.all fun d => !isLineBoundary d) = true := by decide
  intro d hd
  rcases List.mem_append.mp hd with hd | hd
  · simpa using List.all_eq_true.mp hmark d hd
  · rcases List.mem_append.mp hd with hd | hd
    · exact (h.plain d hd).2.1
    · rcases List.mem_cons.mp hd with rfl | hd
      · decide
      · exact hvalue d hd

theorem splitlines_emitted (hkeys : ∀ call ∈ calls, call.key ∈ probeKeys)
    (h : Unbroken calls) : splitlines (emitted calls) = calls.map Call.line := by
  induction calls with
  | nil => rfl
  | cons call calls ih =>
    obtain ⟨a, b, hkey⟩ := IsKey.of_mem (hkeys call List.mem_cons_self)
    have hline := line_unbroken hkey (h call List.mem_cons_self)
    have hrest := ih (fun x hx => hkeys x (List.mem_cons_of_mem call hx))
      fun x hx => h x (List.mem_cons_of_mem call hx)
    rw [emitted, List.flatMap_cons, List.append_assoc, List.singleton_append,
      splitlines_line hline, List.map_cons, ← hrest, emitted]

/-- The dictionary of the calls. -/
def recorded (flat : Section) (calls : List Call) : Section :=
  calls.foldl (fun d call => assign call.key call.written d) flat

theorem foldl_readLine (hkeys : ∀ call ∈ calls, call.key ∈ probeKeys) (flat : Section) :
    (calls.map Call.line).foldl readLine flat = recorded flat calls := by
  induction calls generalizing flat with
  | nil => rfl
  | cons call calls ih =>
    obtain ⟨a, b, hkey⟩ := IsKey.of_mem (hkeys call List.mem_cons_self)
    rw [List.map_cons, List.foldl_cons, readLine_line hkey,
      ih fun x hx => hkeys x (List.mem_cons_of_mem call hx)]
    rfl

theorem wroteAt_append (calls after : List Call) :
    wroteAt (calls ++ after) key = (wroteAt after key).or (wroteAt calls key) := by
  rw [wroteAt, List.reverse_append, List.find?_append, wroteAt, wroteAt]
  cases after.reverse.find? fun c => c.key = key <;> rfl

theorem wroteAt_of_notMem (h : ∀ c ∈ calls, c.key ≠ key) : wroteAt calls key = none := by
  rw [wroteAt, Option.map_eq_none_iff, List.find?_eq_none]
  intro c hc
  simpa using h c (List.mem_reverse.mp hc)

theorem wroteAt_cons (call : Call) (calls : List Call) : wroteAt (call :: calls) key =
    (wroteAt calls key).or (if call.key = key then some call.written else none) := by
  rw [← List.singleton_append, wroteAt_append]
  by_cases h : call.key = key
  · simp [wroteAt, h]
  · have hnone : wroteAt [call] key = none := wroteAt_of_notMem (by simpa using h)
    rw [if_neg h, hnone]

theorem lookup_recorded (flat : Section) :
    (recorded flat calls).lookup key = (wroteAt calls key).or (flat.lookup key) := by
  induction calls generalizing flat with
  | nil => rfl
  | cons call calls ih =>
    have hrest := ih (assign call.key call.written flat)
    rw [recorded, List.foldl_cons, ← recorded, hrest, lookup_assign, wroteAt_cons,
      Option.or_assoc]
    by_cases h : call.key = key
    · rw [if_pos h, if_pos h.symm, Option.some_or]
    · rw [if_neg h, if_neg (Ne.symm h), Option.none_or]

/-- Every entry has a key of the script, and no key has two. -/
structure Proper (flat : Section) : Prop where
  keys : ∀ e ∈ flat, ∃ a b, IsKey e.1 a b
  nodup : (flat.map Prod.fst).Nodup

theorem proper_recorded (hkeys : ∀ call ∈ calls, call.key ∈ probeKeys) (h : Proper flat) :
    Proper (recorded flat calls) := by
  induction calls generalizing flat with
  | nil => exact h
  | cons call calls ih =>
    refine ih (fun x hx => hkeys x (List.mem_cons_of_mem call hx)) ⟨?_, nodup_assign h.nodup⟩
    intro e he
    rcases mem_assign he with rfl | he
    · exact IsKey.of_mem (hkeys call List.mem_cons_self)
    · exact h.keys e he

theorem readBack_of_unbroken (hkeys : ∀ call ∈ calls, call.key ∈ probeKeys)
    (h : Unbroken calls) : ReadBack calls := by
  intro c k
  have hproper : Proper (recorded [] calls) :=
    proper_recorded hkeys ⟨fun e he => absurd he List.not_mem_nil, List.nodup_nil⟩
  rw [readAt_eq, splitlines_emitted hkeys h, foldl_readLine hkeys,
    reading_foldl_nest hproper.keys hproper.nodup, lookup_recorded, List.lookup_nil,
    Option.or_none]
  exact Option.or_none

/-! ### Values with a boundary -/

theorem mem_of_reading_nest {e : Text × Text} {p : Readings}
    (h : reading (nest p e) c k = some v) : v = e.2 ∨ reading p c k = some v := by
  rw [nest, reading, lookup_assign] at h
  by_cases hc : c = e.1.takeWhile (· ≠ '.')
  · rw [if_pos hc, Option.bind_some, lookup_assign, ite_eq_iff] at h
    rcases h with ⟨-, h⟩ | ⟨-, h⟩
    · exact .inl (Option.some.inj h).symm
    · refine .inr ?_
      rw [reading, hc]
      cases hsection : p.lookup (e.1.takeWhile (· ≠ '.')) with
      | none =>
        rw [hsection] at h
        exact absurd h (by simp)
      | some section' =>
        rw [hsection] at h
        exact h
  · rw [if_neg hc] at h
    exact .inr h

theorem mem_of_reading_foldl {p : Readings} (h : reading (flat.foldl nest p) c k = some v) :
    (∃ e ∈ flat, v = e.2) ∨ reading p c k = some v := by
  induction flat generalizing p with
  | nil => exact .inr h
  | cons e flat ih =>
    rcases ih h with ⟨e', he', hv⟩ | h
    · exact .inl ⟨e', List.mem_cons_of_mem e he', hv⟩
    · rcases mem_of_reading_nest h with hv | h
      · exact .inl ⟨e, List.mem_cons_self, hv⟩
      · exact .inr h

theorem mem_readLine {e : Text × Text} (h : e ∈ readLine flat x) :
    e ∈ flat ∨ ∀ d ∈ e.2, d ∈ x := by
  rw [readLine] at h
  split_ifs at h
  · dsimp only at h
    split_ifs at h
    · rcases mem_assign h with rfl | h
      · refine .inr fun d hd => ?_
        exact List.mem_of_mem_drop (List.dropWhile_subset _ (List.mem_of_mem_drop hd))
      · exact .inl h
    · exact .inl h
  · exact .inl h

theorem mem_foldl_readLine {e : Text × Text} {ls : List Text} (h : e ∈ ls.foldl readLine flat) :
    e ∈ flat ∨ ∃ l ∈ ls, ∀ d ∈ e.2, d ∈ l := by
  induction ls generalizing flat with
  | nil => exact .inl h
  | cons l ls ih =>
    rcases ih h with h | ⟨l', hl', h⟩
    · exact (mem_readLine h).imp_right fun h => ⟨l, List.mem_cons_self, h⟩
    · exact .inr ⟨l', List.mem_cons_of_mem l hl', h⟩

/-- What is read has no boundary in it. -/
theorem not_boundary_of_readAt {text : Text} (h : readAt text c k = some v) :
    ∀ d ∈ v, isLineBoundary d = false := by
  rw [readAt_eq] at h
  rcases mem_of_reading_foldl h with ⟨e, he, rfl⟩ | h
  · rcases mem_foldl_readLine he with he | ⟨l, hl, hsub⟩
    · exact absurd he List.not_mem_nil
    · exact fun d hd => not_boundary_of_mem hl d (hsub d hd)
  · cases h

theorem wroteAt_of_mem {call : Call} (hnodup : (calls.map Call.key).Nodup) (h : call ∈ calls) :
    wroteAt calls call.key = some call.written := by
  have hfind : (calls.reverse.find? fun c => c.key = call.key) = some call := by
    obtain ⟨found, hfound⟩ : ∃ found,
        (calls.reverse.find? fun c => c.key = call.key) = some found := by
      rw [← Option.isSome_iff_exists, List.find?_isSome]
      exact ⟨call, List.mem_reverse.mpr h, by simp⟩
    have hmem := List.mem_reverse.mp (List.mem_of_find?_eq_some hfound)
    have hkey : found.key = call.key := by simpa using List.find?_some hfound
    rw [hfound, List.inj_on_of_nodup_map hnodup hmem h hkey]
  rw [wroteAt, hfind, Option.map_some]

theorem unbroken_of_readBack (hkeys : ∀ call ∈ calls, call.key ∈ probeKeys)
    (hnodup : (calls.map Call.key).Nodup) (h : ReadBack calls) : Unbroken calls := by
  intro call hcall
  obtain ⟨a, b, hkey⟩ := IsKey.of_mem (hkeys call hcall)
  apply not_boundary_of_readAt
  rw [h a b, ← hkey.eq, wroteAt_of_mem hnodup hcall]

end Posture
