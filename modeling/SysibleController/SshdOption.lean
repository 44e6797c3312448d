import SysibleController.AuthorizedKeys
import SysibleController.SshdConfig

/-! Setting an option of `sshd`: every line for its keyword is deleted from the main file and the
drop-ins, one is appended to the main file, and all is put back if `sshd -t` rejects it. -/
namespace SshdOption

open PathText TextLines FixedGrep PythonText EarlyExit SshdConfig

/-- `[[:space:]]`. -/
def isSpaceClass (c : Char) : Bool := " \t\n\x0b\x0c\r".toList.contains c

/-- `/^[[:space:]]*{key}[[:space:]]/I`, for a key without signs of a pattern. -/
def strips (key l : Text) : Bool :=
  let rest := l.dropWhile isSpaceClass
  decide (fold key <+: fold rest) && rest[key.length]?.any isSpaceClass

/-- What is left of a last line without a line break. -/
def remainder (key c : Text) : Text := if strips key (unended c) then [] else unended c

/-- `sed -i -E '/^[[:space:]]*{key}[[:space:]]/Id'`. -/
def strip (key c : Text) : Text :=
  terminated ((lines c).dropLast.filter fun l => !strips key l) ++ remainder key c

/-- The main file, and the other files by their paths. -/
structure Etc where
  main : Text
  file : Text → Option Text

def dropDir : Text := "/etc/ssh/sshd_config.d/".toList

def inDropDir (p : Text) : Bool := decide (dropDir <+: p)

/-- `"$dropd"/*.conf`. -/
def isDropIn (p : Text) : Bool :=
  let name := p.drop dropDir.length
  inDropDir p && !name.contains '/' && decide (name.head? ≠ some '.') &&
    decide (".conf".toList <:+ name)

def Etc.stripped (key : Text) (etc : Etc) : Etc where
  main := strip key etc.main
  file p := if isDropIn p then (etc.file p).map (strip key) else etc.file p

/-- What `sshd -t` says, and whether the reload succeeds, are given to a script. -/
abbrev Script := Bool → Bool → Etc → Etc × Except Text Text

def onOk (key value : Text) (reload reloads : Bool) : Text :=
  let done := "sshd_config: ".toList ++ key ++ " set to ".toList ++ value
  if reload then
    if reloads then done ++ ", and sshd reloaded.\n".toList
    else
      done ++ ", but the sshd reload FAILED - use the Reload sshd button to apply.\n".toList
  else done ++ ". Reload sshd to apply.\n".toList

def buildSshdSetOptionScript (key value : Text) (reload : Bool) : Script :=
  fun valid reloads etc =>
    -- cp {cfg} {cfg}.bak; cp -a "$dropd"/. "$bakd"/
    let bak := etc.main
    let bakd := fun p => if inDropDir p then etc.file p else none
    -- {strip} {cfg}; for f in "$dropd"/*.conf; do [ -e "$f" ] && {strip} "$f"; done
    let etc := etc.stripped key
    -- printf '%s %s\n' {key} "$v" >> {cfg}
    let etc := { etc with main := etc.main ++ (key ++ ' ' :: value) ++ ['\n'] }
    if valid then (etc, .ok (onOk key value reload reloads))
    else
      -- cp {cfg}.bak {cfg}; rm -f "$dropd"/*.conf; cp -a "$bakd"/. "$dropd"/
      let file := fun p => if isDropIn p then none else etc.file p
      ({ main := bak, file := fun p => (bakd p).or (file p) },
        .error "New config failed validation - restoring previous sshd_config.\n".toList)

def validateIdentifier (isAlnum : Char → Bool) (value label : Text) : Except String Text :=
  let value := stripText value
  if value = [] then .error (String.ofList label ++ " is required.")
  else if value.any fun c => !(isAlnum c || c = '_' || c = '-') then
    .error (String.ofList label ++ " may only contain letters, numbers, dashes, and underscores.")
  else .ok value

def cmdSshdSetOption (isAlnum : Char → Bool) (key value : Text) : Except String Script := do
  let key ← validateIdentifier isAlnum key "Directive".toList
  let value ← AuthorizedKeys.validateNonemptyLine value "Value".toList
  return buildSshdSetOptionScript key value false

def rootLoginModes : List Text := ["no".toList, "yes".toList, "prohibit-password".toList]

def cmdSetRootLoginMode (mode : Text) : Except String Script :=
  let m := fold (stripText mode)
  if m ∈ rootLoginModes then .ok (buildSshdSetOptionScript "PermitRootLogin".toList m true)
  else .error "root login mode must be one of: no, prohibit-password, yes"

def cmdSetRootLogin (allow : Bool) : Except String Script :=
  cmdSetRootLoginMode (if allow then "yes".toList else "no".toList)

def yesNo (enabled : Bool) : Text := if enabled then "yes".toList else "no".toList

def cmdSetPubkeyAuth (enabled : Bool) : Except String Script :=
  .ok (buildSshdSetOptionScript "PubkeyAuthentication".toList (yesNo enabled) true)

def cmdSetPasswordAuth (enabled : Bool) : Except String Script :=
  .ok (buildSshdSetOptionScript "PasswordAuthentication".toList (yesNo enabled) true)

inductive Request where
  | option (key value : Text)
  | rootLoginMode (mode : Text)
  | rootLogin (allow : Bool)
  | pubkeyAuth (enabled : Bool)
  | passwordAuth (enabled : Bool)

def Request.build (isAlnum : Char → Bool) : Request → Except String Script
  | option key value => cmdSshdSetOption isAlnum key value
  | rootLoginMode mode => cmdSetRootLoginMode mode
  | rootLogin allow => cmdSetRootLogin allow
  | pubkeyAuth enabled => cmdSetPubkeyAuth enabled
  | passwordAuth enabled => cmdSetPasswordAuth enabled

/-- The option that is asked for. -/
def Request.key : Request → Text
  | option key _ => stripText key
  | rootLoginMode _ | rootLogin _ => "PermitRootLogin".toList
  | pubkeyAuth _ => "PubkeyAuthentication".toList
  | passwordAuth _ => "PasswordAuthentication".toList

def Request.value : Request → Text
  | option _ value => stripText value
  | rootLoginMode mode => fold (stripText mode)
  | rootLogin enabled | pubkeyAuth enabled | passwordAuth enabled => yesNo enabled

/-! ### What is in force -/

def Etc.at (etc : Etc) (p : Text) : File := ⟨(etc.file p).getD [], isDropIn p⟩

/-- What an `Include` brings in; `sshd` follows them down to a depth of 16. -/
def Etc.included (expand : Text → List Text) (etc : Etc) : Text → List Occurrence :=
  SshdConfig.included expand etc.at 16

def Etc.options (expand : Text → List Text) (etc : Etc) : List Occurrence :=
  scan (etc.included expand) true false (lines etc.main)

/-- The option has the value, and each other keyword the value that it had. -/
def InForce (expand : Text → List Text) (key v : Text) (before after : Etc) : Prop :=
  value (fold key) (after.options expand) = some v ∧
    ∀ k, IsKeyword k → k ≠ fold key →
      value k (after.options expand) = value k (before.options expand)

/-- A success puts the option in force; a failure changes no file. -/
def Kept (expand : Text → List Text) (key v : Text) (before : Etc)
    (r : Etc × Except Text Text) : Prop :=
  (∀ out, r.2 = .ok out → InForce expand key v before r.1) ∧
    ∀ out, r.2 = .error out → r.1 = before

/-- The files as they are before the verdict of `sshd -t`. -/
def Etc.changed (key v : Text) (etc : Etc) : Etc :=
  { etc.stripped key with main := strip key etc.main ++ (key ++ ' ' :: v) ++ ['\n'] }

/-- The deletion leaves the line. -/
def survives (key : Text) (o : Occurrence) : Bool := !(o.edited && strips key o.line)

/-- What the last line of the main file stands under. -/
def Etc.inMatch (etc : Etc) : Bool := (lines etc.main).dropLast.foldl matched false

/-- The options that are left by the deletion, up to the last line of the main file. -/
def Etc.left (expand : Text → List Text) (key : Text) (etc : Etc) : List Occurrence :=
  (scan (etc.included expand) true false (lines etc.main).dropLast).filter (survives key)

/-- The options that a line sets in place of the last one of the main file. -/
def Etc.lastly (expand : Text → List Text) (key : Text) (etc : Etc) (l : Text) :
    List Occurrence :=
  SshdConfig.options (fun a => (etc.included expand a).filter (survives key)) true etc.inMatch l

/-- The main file ends with a line break, or in blanks, and outside each `Match`, and no line that
is left sets another value. Else the value is the one in force already. -/
def Ready (expand : Text → List Text) (key v : Text) (etc : Etc) : Prop :=
  fold key ≠ matchWord ∧ fold key ≠ includeWord ∧
    if (remainder key etc.main).all isBlank then
      value (fold key) (etc.left expand key) = some v ∨
        value (fold key) (etc.left expand key) = none ∧ etc.inMatch = false ∧ v.head? ≠ some '='
    else
      let joined := etc.lastly expand key (remainder key etc.main ++ (key ++ ' ' :: v))
      value (fold key) (etc.left expand key ++ joined) = some v ∧
        ∀ k, IsKeyword k → k ≠ fold key → value k (etc.left expand key) = none →
          value k joined = value k (etc.lastly expand key (remainder key etc.main))

/-! ### The deleted lines -/

variable {key v l w x a : Text} {c : Char} {o : Occurrence} {incl : Text → List Occurrence}
  {edited b : Bool} {ls : List Text} {expand : Text → List Text} {etc : Etc} {k : Text}

theorem spaceClass_cases (h : isSpaceClass c = true) :
    c = ' ' ∨ c = '\t' ∨ c = '\n' ∨ c = '\x0b' ∨ c = '\x0c' ∨ c = '\r' := by
  simpa [isSpaceClass] using h

theorem not_alphanum_of_space (h : isSpaceClass c = true) : c.isAlphanum = false := by
  rcases spaceClass_cases h with rfl | rfl | rfl | rfl | rfl | rfl <;> decide

theorem not_delimiter_of_space (h : isSpaceClass c = true) (hb : isBlank c = false) :
    isDelimiter c = false := by
  rcases spaceClass_cases h with rfl | rfl | rfl | rfl | rfl | rfl <;> first
    | exact absurd hb (by decide)
    | decide

theorem toLower_space (h : isSpaceClass c = true) : isSpaceClass c.toLower = true := by
  rcases spaceClass_cases h with rfl | rfl | rfl | rfl | rfl | rfl <;> decide

/-- A line that is deleted is one of the keyword, or one whose word has a blank in it that is none
to `sshd`. -/
theorem directive_of_strips (hk : Plain key) (h : strips key l = true)
    (hdir : directive l = some (w, a)) : w = fold key ∨ ∃ c ∈ w, isSpaceClass c = true := by
  obtain ⟨hpre, hnext⟩ : fold key <+: fold (l.dropWhile isSpaceClass) ∧
      (l.dropWhile isSpaceClass)[key.length]?.any isSpaceClass = true := by
    simpa [strips] using h
  have hsplit := List.takeWhile_append_dropWhile (p := isSpaceClass) (l := l)
  have hlead : ∀ c ∈ l.takeWhile isSpaceClass, isSpaceClass c = true := fun c hc =>
    List.mem_takeWhile_imp hc
  generalize l.takeWhile isSpaceClass = lead at hsplit hlead
  generalize l.dropWhile isSpaceClass = r at hsplit hpre hnext
  obtain ⟨d, hd, hspace⟩ := (Option.any_eq_true _ _).mp hnext
  obtain ⟨hlt, rfl⟩ := List.getElem?_eq_some_iff.mp hd
  have hr : r = r.take key.length ++ r[key.length] :: r.drop (key.length + 1) := by
    rw [← List.drop_eq_getElem_cons hlt, List.take_append_drop]
  have hfold : fold (r.take key.length) = fold key := by
    have htake := List.prefix_iff_eq_take.mp hpre
    rw [fold, List.length_map, fold, ← List.map_take] at htake
    exact htake.symm
  generalize r[key.length] = d at hr hspace
  generalize r.drop (key.length + 1) = rest at hr
  generalize r.take key.length = x at hr hfold
  have hx : Plain x := ⟨fun hnil => hk.nonempty (by simpa [hnil, fold] using hfold.symm),
    not_delimiter_of_fold hk.delimiter hfold, notMem_of_fold (by decide) hk.hash hfold⟩
  subst hr hsplit
  by_cases hblank : lead.all isBlank = true
  · by_cases hd : isBlank d = true
    · rw [directive_eq hx hblank hd] at hdir
      exact .inl ((Prod.mk.inj (Option.some.inj hdir)).1 ▸ hfold)
    · have hdelim := not_delimiter_of_space hspace (Bool.not_eq_true _ ▸ hd)
      obtain ⟨c, cs, rfl⟩ := List.exists_cons_of_ne_nil hx.nonempty
      exact .inr ⟨d.toLower, mem_keyword hdir hdelim hx.delimiter
        (separator_eq hblank (hx.delimiter c List.mem_cons_self)), toLower_space hspace⟩
  · have hfirst := List.takeWhile_append_dropWhile (p := isBlank) (l := lead)
    cases hrest : lead.dropWhile isBlank with
    | nil => exact absurd (List.all_eq_true.mpr (List.dropWhile_eq_nil_iff.mp hrest)) hblank
    | cons e es =>
      have he : isBlank e = false := by
        simpa [hrest] using List.head?_dropWhile_not isBlank lead
      have hmem : e ∈ lead := by
        rw [← hfirst, hrest]
        simp
      have hdelim := not_delimiter_of_space (hlead e hmem) he
      have hsep : separator (lead ++ (x ++ d :: rest)) = [] ++ e :: (es ++ (x ++ d :: rest)) := by
        rw [← hfirst, hrest, List.append_assoc, List.cons_append]
        exact separator_eq (List.all_eq_true.mpr fun c hc => List.mem_takeWhile_imp hc) hdelim
      exact .inr ⟨e.toLower, mem_keyword hdir hdelim (by simp) hsep, toLower_space (hlead e hmem)⟩

/-- The keyword is neither `Match` nor `Include`. -/
def Settable (key : Text) : Prop := fold key ≠ matchWord ∧ fold key ≠ includeWord

theorem word_ne {w' : Text} (h : w'.any isSpaceClass = false) (hc : c ∈ w)
    (hspace : isSpaceClass c = true) : w ≠ w' := by
  rintro rfl
  rw [List.any_eq_true.mpr ⟨c, hc, hspace⟩] at h
  cases h

theorem word_of_strips (hk : Plain key) (hset : Settable key) (h : strips key l = true)
    (hdir : directive l = some (w, a)) : w ≠ matchWord ∧ w ≠ includeWord := by
  rcases directive_of_strips hk h hdir with rfl | ⟨c, hc, hspace⟩
  · exact hset
  · exact ⟨word_ne (by decide) hc hspace, word_ne (by decide) hc hspace⟩

theorem matched_of_strips (hk : Plain key) (hset : Settable key) (h : strips key l = true) :
    matched b l = b := by
  cases hdir : directive l with
  | none => exact matched_of_none hdir
  | some y =>
    have hne := (word_of_strips hk hset h hdir).1
    simp [matched, keyword, hdir, hne]

/-- A deleted line set no option but one that does not survive. -/
theorem options_of_strips (hk : Plain key) (hset : Settable key) (h : strips key l = true) :
    (SshdConfig.options incl true b l).filter (survives key) = [] := by
  unfold SshdConfig.options
  cases hdir : directive l with
  | none => rfl
  | some y =>
    have hne := (word_of_strips hk hset h hdir).2
    simp only [if_neg hne]
    split_ifs
    · rfl
    · simp [survives, h]

theorem options_filter (h : (edited && strips key l) = false) :
    (SshdConfig.options incl edited b l).filter (survives key) =
      SshdConfig.options (fun a => (incl a).filter (survives key)) edited b l := by
  unfold SshdConfig.options
  cases directive l with
  | none => rfl
  | some y =>
    simp only
    split_ifs
    · rfl
    · rfl
    · simp [survives, h]

/-- What survives of the options of an edited file is what the lines that are left set. -/
theorem scan_strips (hk : Plain key) (hset : Settable key) :
    (scan incl true b ls).filter (survives key) =
        scan (fun a => (incl a).filter (survives key)) true b (ls.filter fun l => !strips key l) ∧
      ls.foldl matched b = (ls.filter fun l => !strips key l).foldl matched b := by
  induction ls generalizing b with
  | nil => exact ⟨rfl, rfl⟩
  | cons l rest ih =>
    rw [scan, List.filter_append, List.foldl_cons]
    cases h : strips key l with
    | true =>
      rw [options_of_strips hk hset h, matched_of_strips hk hset h, List.nil_append,
        List.filter_cons_of_neg (by simp [h])]
      exact ih
    | false =>
      rw [options_filter (by simp [h]), List.filter_cons_of_pos (by simp [h]), scan,
        List.foldl_cons, ih.1, ← ih.2]
      exact ⟨rfl, rfl⟩

theorem scan_filter : (scan incl false b ls).filter (survives key) =
    scan (fun a => (incl a).filter (survives key)) false b ls := by
  induction ls generalizing b with
  | nil => rfl
  | cons l rest ih =>
    rw [scan, scan, List.filter_append, options_filter (by simp), ih]

theorem lines_split (c : Text) : lines c = (lines c).dropLast ++ [unended c] :=
  (List.dropLast_concat_getLast (lines_ne_nil c)).symm

theorem newline_remainder : '\n' ∉ remainder key x := by
  unfold remainder
  split_ifs
  · simp
  · exact newline_unended

theorem newline_filter (c : Text) :
    ∀ l ∈ (lines c).dropLast.filter (fun l => !strips key l), '\n' ∉ l := fun _ hl =>
  newline_dropLast _ (List.mem_of_mem_filter hl)

theorem lines_strip (c : Text) : lines (strip key c) =
    (lines c).dropLast.filter (fun l => !strips key l) ++ [remainder key c] := by
  rw [strip, lines_terminated (newline_filter c), lines_plain newline_remainder]

/-- A last line that is deleted leaves a blank one, which sets no option. -/
theorem options_remainder (hk : Plain key) (hset : Settable key) (c : Text) :
    (SshdConfig.options incl true b (unended c)).filter (survives key) =
      SshdConfig.options (fun a => (incl a).filter (survives key)) true b (remainder key c) := by
  unfold remainder
  split_ifs with h
  · rw [options_of_strips hk hset h, options_of_none (directive_blank rfl)]
  · exact options_filter (by simp [h])

theorem scan_strip (hk : Plain key) (hset : Settable key) (c : Text) :
    (scan incl true b (lines c)).filter (survives key) =
      scan (fun a => (incl a).filter (survives key)) true b (lines (strip key c)) := by
  obtain ⟨hscan, hfold⟩ := @scan_strips key incl b (lines c).dropLast hk hset
  calc (scan incl true b (lines c)).filter (survives key)
      = (scan incl true b ((lines c).dropLast ++ [unended c])).filter (survives key) := by
        rw [← lines_split]
    _ = _ := by
        rw [scan_append, List.filter_append, hscan, hfold, scan, scan, List.append_nil,
          options_remainder hk hset, lines_strip, scan_append, scan, scan, List.append_nil]

/-! ### The files -/

theorem strip_nil : strip key [] = [] := by
  have hend : unended ([] : Text) = [] := rfl
  have hlines : (lines ([] : Text)).dropLast = [] := rfl
  rw [strip, remainder, hend, hlines, ite_self]
  rfl

theorem at_stripped (p : Text) : (etc.stripped key).at p =
    if isDropIn p then ⟨strip key (etc.at p).text, true⟩ else etc.at p := by
  unfold Etc.at Etc.stripped
  cases hin : isDropIn p with
  | false => simp [hin]
  | true =>
    cases hfile : etc.file p with
    | none => simp [hin, hfile, strip_nil]
    | some text => simp [hin, hfile]

theorem included_filter (hk : Plain key) (hset : Settable key) {n : ℕ} : ∀ a,
    SshdConfig.included expand (etc.stripped key).at n a =
      (SshdConfig.included expand etc.at n a).filter (survives key) := by
  induction n with
  | zero => exact fun a => rfl
  | succ n ih =>
    intro a
    rw [SshdConfig.included, SshdConfig.included, List.filter_flatMap]
    refine List.flatMap_congr fun p _ => ?_
    rw [funext ih, at_stripped]
    cases hin : isDropIn p with
    | true =>
      have hedited : (etc.at p).edited = true := hin
      rw [if_pos rfl, hedited, scan_strip hk hset]
    | false =>
      have hedited : (etc.at p).edited = false := hin
      rw [if_neg (by simp), hedited, scan_filter]

/-- The options of the edited files: those that are left, and what the last line has become. -/
theorem options_edited (hk : Plain key) (hset : Settable key) (hkey : '\n' ∉ key)
    (hv : '\n' ∉ v) : (etc.changed key v).options expand =
      etc.left expand key ++
        etc.lastly expand key (remainder key etc.main ++ (key ++ ' ' :: v)) := by
  have hjoined : '\n' ∉ remainder key etc.main ++ (key ++ ' ' :: v) := by
    simp [newline_remainder, hkey, hv]
  have hlines : lines (strip key etc.main ++ (key ++ ' ' :: v) ++ ['\n']) =
      (lines etc.main).dropLast.filter (fun l => !strips key l) ++
        [remainder key etc.main ++ (key ++ ' ' :: v), []] := by
    rw [strip, List.append_assoc, List.append_assoc, lines_terminated (newline_filter _),
      ← List.append_assoc (remainder key etc.main), lines_append, lines_plain hjoined]
    rfl
  have hincl : (etc.changed key v).included expand =
      fun a => (etc.included expand a).filter (survives key) :=
    funext (included_filter hk hset)
  have hblank : directive [] = none := directive_blank rfl
  obtain ⟨hscan, hfold⟩ :=
    @scan_strips key (etc.included expand) false (lines etc.main).dropLast hk hset
  rw [Etc.options, hincl, Etc.changed, hlines, scan_append, ← hscan, ← hfold, scan, scan, scan,
    options_of_none hblank, List.append_nil, List.append_nil, Etc.left, Etc.lastly,
    Etc.inMatch]

theorem filter_options (hk : Plain key) (hset : Settable key) :
    (etc.options expand).filter (survives key) =
      etc.left expand key ++ etc.lastly expand key (remainder key etc.main) := by
  rw [Etc.options, lines_split etc.main, scan_append, List.filter_append, Etc.left, Etc.lastly,
    Etc.inMatch, ← options_remainder hk hset, scan, scan, List.append_nil]

theorem value_survives (hk : Plain key) (hkw : IsKeyword k) (hne : k ≠ fold key)
    (os : List Occurrence) : value k (os.filter (survives key)) = value k os := by
  refine value_filter fun o _ hsurvives heq => ?_
  obtain ⟨-, hstrips⟩ : o.edited = true ∧ strips key o.line = true := by
    simpa [survives] using hsurvives
  obtain ⟨⟨w, a⟩, hdir, rfl⟩ := Option.map_eq_some_iff.mp heq
  rcases directive_of_strips hk hstrips hdir with rfl | ⟨c, hc, hspace⟩
  · exact hne rfl
  · have halnum := hkw c hc
    rw [not_alphanum_of_space hspace] at halnum
    exact absurd halnum (by decide)

/-! ### The option is in force -/

/-- What stands behind a keyword as it is asked for. -/
structure Written (v : Text) : Prop where
  newline : '\n' ∉ v
  first : ∀ c, v.head? = some c → isBlank c = false
  last : ∀ c, v.getLast? = some c → (isBlank c || c = '\x0c') = false

/-- In a line of its own the option is read as it was asked for, but for a sign of equality at its
start. -/
theorem directive_appended (hk : Plain key) (hv : Written v) (hb : x.all isBlank = true) :
    ∃ w, directive (x ++ (key ++ ' ' :: v)) = some (fold key, w) ∧
      (w = v ↔ v.head? ≠ some '=') := by
  refine ⟨_, directive_eq hk hb rfl, ?_⟩
  have hdrop : (' ' :: v).dropWhile isBlank = v := by
    cases v with
    | nil => rfl
    | cons c rest =>
      rw [List.dropWhile_cons_of_pos rfl, List.dropWhile_cons_of_neg (by simp [hv.first c rfl])]
  rw [separator, hdrop]
  by_cases hequals : v.head? = some '='
  · obtain ⟨rest, rfl⟩ := List.head?_eq_some_iff.mp hequals
    have hpre := List.rdropWhile_prefix (fun c => isBlank c || c = '\x0c')
      (rest.dropWhile isBlank)
    have hlen := hpre.length_le.trans (List.dropWhile_sublist _).length_le
    simp only [hequals, if_true, List.tail_cons, not_true_eq_false, iff_false, ne_eq]
    intro heq
    rw [heq, List.length_cons] at hlen
    omega
  · have hlast : v.rdropWhile (fun c => isBlank c || c = '\x0c') = v := by
      rw [List.rdropWhile_eq_self_iff]
      intro hne
      simpa using hv.last _ (List.getLast?_eq_some_getLast hne)
    simp [hequals, hlast]

theorem lastly_of_none (h : directive l = none) : etc.lastly expand key l = [] := by
  rw [Etc.lastly, options_of_none h]

theorem value_changed (hk : Plain key) (hset : Settable key) (hkey : '\n' ∉ key) (hv : '\n' ∉ v)
    (k : Text) : value k ((etc.changed key v).options expand) = (value k (etc.left expand key)).or
      (value k (etc.lastly expand key (remainder key etc.main ++ (key ++ ' ' :: v)))) := by
  rw [options_edited hk hset hkey hv, value_append]

theorem value_before (hk : Plain key) (hset : Settable key) (hkw : IsKeyword k)
    (hne : k ≠ fold key) : value k (etc.options expand) = (value k (etc.left expand key)).or
      (value k (etc.lastly expand key (remainder key etc.main))) := by
  rw [← value_survives hk hkw hne, filter_options hk hset, value_append]

theorem value_of_not_settable (h : ¬ Settable key) :
    value (fold key) (etc.options expand) = none := by
  refine value_eq_none (fun o ho => proper_of_mem_scan proper_of_mem_included ho) ?_
  simpa [Settable, or_iff_not_imp_left] using h

/-- The appended line stands by itself. -/
theorem lastly_appended (hk : Plain key) (hset : Settable key) (hv : Written v)
    (hb : (remainder key etc.main).all isBlank = true) (k : Text) :
    (k ≠ fold key →
      value k (etc.lastly expand key (remainder key etc.main ++ (key ++ ' ' :: v))) = none) ∧
    (value (fold key) (etc.lastly expand key (remainder key etc.main ++ (key ++ ' ' :: v))) =
      some v ↔ etc.inMatch = false ∧ v.head? ≠ some '=') := by
  obtain ⟨w, hdir, hw⟩ := directive_appended hk hv hb
  have hmatched : matched etc.inMatch (remainder key etc.main ++ (key ++ ' ' :: v)) =
      etc.inMatch := by
    simp [matched, keyword, hdir, hset.1]
  rw [Etc.lastly, SshdConfig.options, hdir]
  simp only [hmatched, if_neg hset.2]
  cases etc.inMatch with
  | true => simp [value_nil]
  | false =>
    refine ⟨fun hne => value_singleton_ne hdir hne.symm, ?_⟩
    simp only [Bool.false_eq_true, if_false, value_singleton hdir, Option.some.injEq, true_and]
    exact hw

theorem inForce_iff (hk : Plain key) (hkey : '\n' ∉ key) (hv : Written v) :
    InForce expand key v etc (etc.changed key v) ↔ Ready expand key v etc := by
  by_cases hset : Settable key
  · have hsettable : Ready expand key v etc ↔ _ := ⟨fun h => h.2.2, fun h => ⟨hset.1, hset.2, h⟩⟩
    rw [hsettable, InForce]
    simp only [value_changed hk hset hkey hv.newline]
    split_ifs with hb
    · have hown : value (fold key) (etc.lastly expand key
          (remainder key etc.main ++ (key ++ ' ' :: v))) = some v ↔
            etc.inMatch = false ∧ v.head? ≠ some '=' :=
        (lastly_appended hk hset hv hb key).2
      have hothers : ∀ k, IsKeyword k → k ≠ fold key → (value k (etc.left expand key)).or
          (value k (etc.lastly expand key (remainder key etc.main ++ (key ++ ' ' :: v)))) =
            value k (etc.options expand) := by
        intro k hkw hne
        rw [value_before hk hset hkw hne, (lastly_appended hk hset hv hb k).1 hne,
          lastly_of_none (directive_blank hb), value_nil]
      rw [and_iff_left hothers]
      cases value (fold key) (etc.left expand key) with
      | none => simpa using hown
      | some u => simp
    · rw [value_append]
      refine and_congr_right fun _ => forall_congr' fun k => forall_congr' fun hkw =>
        forall_congr' fun hne => ?_
      rw [value_before hk hset hkw hne]
      cases value k (etc.left expand key) with
      | none => simp
      | some u => simp
  · refine iff_of_false (fun h => ?_) fun h => hset ⟨h.1, h.2.1⟩
    rw [InForce, value_of_not_settable hset] at h
    cases h.1

/-! ### What is asked for -/

variable {isAlnum : Char → Bool} {r : Request} {script : Script} {label mode : Text}

/-- On the characters of ASCII `str.isalnum` is what it is elsewhere. -/
def Ascii (isAlnum : Char → Bool) : Prop := ∀ c : Char, c.toNat < 128 → isAlnum c = c.isAlphanum

theorem plain_identifier (ha : Ascii isAlnum)
    (h : validateIdentifier isAlnum x label = .ok key) :
    key = stripText x ∧ Plain key ∧ '\n' ∉ key := by
  rw [validateIdentifier] at h
  obtain ⟨hne, h⟩ := guard_ok h
  obtain ⟨hall, h⟩ := guard_ok h
  obtain rfl := Except.ok.inj h
  have hchar : ∀ c ∈ stripText x, isAlnum c = true ∨ c = '_' ∨ c = '-' := by
    intro c hc
    by_contra hno
    refine hall (List.any_eq_true.mpr ⟨c, hc, ?_⟩)
    simpa [and_assoc] using hno
  have hnot : ∀ d : Char, d.toNat < 128 → d.isAlphanum = false → d ≠ '_' → d ≠ '-' →
      d ∉ stripText x := by
    intro d hd halnum h1 h2 hmem
    rcases hchar d hmem with h | h | h
    · rw [ha d hd, halnum] at h
      cases h
    · exact h1 h
    · exact h2 h
  refine ⟨rfl, ⟨hne, fun c hc => ?_, ?_⟩, ?_⟩
  · by_contra hdelim
    rw [Bool.not_eq_false] at hdelim
    simp only [isDelimiter, isBlank, Bool.or_eq_true, decide_eq_true_eq] at hdelim
    rcases hdelim with (((rfl | rfl) | rfl) | rfl) | rfl
    all_goals exact hnot _ (by decide) (by decide) (by decide) (by decide) hc
  · exact hnot _ (by decide) (by decide) (by decide) (by decide)
  · exact hnot _ (by decide) (by decide) (by decide) (by decide)

theorem blank_of_space (h : PythonText.isSpace c = false) :
    (isBlank c || c = '\x0c') = false := by
  by_contra hblank
  rw [Bool.not_eq_false] at hblank
  simp only [isBlank, Bool.or_eq_true, decide_eq_true_eq] at hblank
  rcases hblank with ((rfl | rfl) | rfl) | rfl
  all_goals exact absurd h (by decide)

theorem written_strip (h : '\n' ∉ stripText x) : Written (stripText x) where
  newline := h
  first c hc := by
    have hblank := blank_of_space (FstabPersist.head_stripText hc)
    rw [Bool.or_eq_false_iff] at hblank
    exact hblank.1
  last c hc := blank_of_space (FstabPersist.last_stripText hc)

theorem written_of_safe (h : ∀ c ∈ v, (isBlank c || c = '\x0c' || c = '\n') = false) :
    Written v := by
  simp only [Bool.or_eq_false_iff, decide_eq_false_iff_not] at h
  refine ⟨fun hmem => (h _ hmem).2 rfl, fun c hc => ?_, fun c hc => ?_⟩
  · exact (h c (List.mem_of_mem_head? hc)).1.1
  · have hmem := h c (List.mem_of_getLast? hc)
    simp [hmem.1]

theorem written_yesNo (enabled : Bool) : Written (yesNo enabled) := by
  cases enabled with
  | false => exact written_of_safe (List.forall_iff_forall_mem.mp (by decide))
  | true => exact written_of_safe (List.forall_iff_forall_mem.mp (by decide))

theorem plain_of_all (hne : key ≠ [])
    (h : key.all (fun c => !isDelimiter c && c ≠ '#' && c ≠ '\n') = true) :
    Plain key ∧ '\n' ∉ key := by
  rw [List.all_eq_true] at h
  refine ⟨⟨hne, fun c hc => ?_, fun hmem => ?_⟩, fun hmem => ?_⟩
  · simpa using (Bool.and_eq_true_iff.mp (Bool.and_eq_true_iff.mp (h c hc)).1).1
  · exact absurd (h _ hmem) (by decide)
  · exact absurd (h _ hmem) (by decide)

theorem rootLoginMode_ok (h : cmdSetRootLoginMode mode = .ok script) :
    script = buildSshdSetOptionScript "PermitRootLogin".toList (fold (stripText mode)) true ∧
      Written (fold (stripText mode)) := by
  rw [cmdSetRootLoginMode] at h
  split_ifs at h with hmode
  refine ⟨(Except.ok.inj h).symm, ?_⟩
  generalize fold (stripText mode) = m at hmode
  have hall : ∀ m ∈ rootLoginModes,
      m.all (fun c => !(isBlank c || c = '\x0c' || c = '\n')) = true := by decide
  refine written_of_safe fun c hc => ?_
  simpa using List.all_eq_true.mp (hall m hmode) c hc

theorem build_ok (ha : Ascii isAlnum) (h : r.build isAlnum = .ok script) :
    (∃ reload, script = buildSshdSetOptionScript r.key r.value reload) ∧ Plain r.key ∧
      '\n' ∉ r.key ∧ Written r.value := by
  cases r with
  | option key value =>
    rw [Request.build, cmdSshdSetOption] at h
    obtain ⟨k, hk, h⟩ := bind_ok h
    obtain ⟨v, hv, h⟩ := bind_ok h
    obtain ⟨hkey, hplain, hnewline⟩ := plain_identifier ha hk
    obtain ⟨hvalue, -, hline⟩ := AuthorizedKeys.validateNonemptyLine_ok hv
    rw [hkey] at h hplain hnewline
    rw [hvalue] at h
    exact ⟨⟨false, (Except.ok.inj h).symm⟩, hplain, hnewline, written_strip hline⟩
  | rootLoginMode mode =>
    rw [Request.build] at h
    obtain ⟨rfl, hwritten⟩ := rootLoginMode_ok h
    have hkey := @plain_of_all "PermitRootLogin".toList (by decide) (by decide)
    exact ⟨⟨true, rfl⟩, hkey.1, hkey.2, hwritten⟩
  | rootLogin allow =>
    rw [Request.build, cmdSetRootLogin] at h
    have hmode : fold (stripText (yesNo allow)) = yesNo allow := by cases allow <;> decide
    have hkey := @plain_of_all "PermitRootLogin".toList (by decide) (by decide)
    obtain ⟨hscript, -⟩ := rootLoginMode_ok h
    refine ⟨⟨true, ?_⟩, hkey.1, hkey.2, written_yesNo allow⟩
    rw [hscript]
    exact congrArg (buildSshdSetOptionScript _ · true) hmode
  | pubkeyAuth enabled =>
    have hkey := @plain_of_all "PubkeyAuthentication".toList (by decide) (by decide)
    exact ⟨⟨true, (Except.ok.inj h).symm⟩, hkey.1, hkey.2, written_yesNo enabled⟩
  | passwordAuth enabled =>
    have hkey := @plain_of_all "PasswordAuthentication".toList (by decide) (by decide)
    exact ⟨⟨true, (Except.ok.inj h).symm⟩, hkey.1, hkey.2, written_yesNo enabled⟩

theorem inDropDir_of_isDropIn {p : Text} (h : isDropIn p = true) : inDropDir p = true := by
  simp only [isDropIn, Bool.and_eq_true] at h
  exact h.1.1.1

/-- A rejected edit is undone in every file. -/
theorem restored (key v : Text) (reload reloads : Bool) (etc : Etc) :
    (buildSshdSetOptionScript key v reload false reloads etc).1 = etc := by
  have hfile : ∀ p, (if inDropDir p then etc.file p else none).or
      (if isDropIn p then none else
        if isDropIn p then (etc.file p).map (strip key) else etc.file p) = etc.file p := by
    intro p
    cases hin : isDropIn p with
    | true => simp [inDropDir_of_isDropIn hin]
    | false =>
      cases inDropDir p with
      | true => simp
      | false => simp
  rw [buildSshdSetOptionScript, if_neg (by simp)]
  simp only [Etc.stripped, hfile]

/-- A change of an option keeps what it promises exactly if `sshd -t` rejects it or the files were
ready for it. -/
theorem sshd_option_iff (ha : Ascii isAlnum) (h : r.build isAlnum = .ok script)
    (expand : Text → List Text) (valid reloads : Bool) (etc : Etc) :
    Kept expand r.key r.value etc (script valid reloads etc) ↔
      (valid = true → Ready expand r.key r.value etc) := by
  obtain ⟨⟨reload, rfl⟩, hkey, hnewline, hvalue⟩ := build_ok ha h
  cases valid with
  | false =>
    refine iff_of_true ⟨fun out hout => ?_, fun _ _ => restored _ _ _ _ _⟩ nofun
    rw [buildSshdSetOptionScript, if_neg (by simp)] at hout
    cases hout
  | true =>
    rw [forall_prop_of_true rfl, ← inForce_iff hkey hnewline hvalue, Kept,
      buildSshdSetOptionScript, if_pos rfl]
    constructor
    · exact fun hkept => hkept.1 _ rfl
    · exact fun hforce => ⟨fun _ _ => hforce, nofun⟩

/-- The one drop-in of a cloud image. -/
def cloudInit : Text := dropDir ++ "50-cloud-init.conf".toList

def cloudImage : Etc where
  main := "Include x\nPasswordAuthentication yes\n".toList
  file p := if p = cloudInit then some "passwordauthentication yes\n".toList else none

theorem ascii_isAlphanum : Ascii Char.isAlphanum := fun _ _ => rfl

theorem cloud_image_set : InForce (fun _ => [cloudInit]) "PasswordAuthentication".toList
    "no".toList cloudImage
    (cloudImage.changed "PasswordAuthentication".toList "no".toList) := by
  have hready : Ready (fun _ => [cloudInit]) (Request.passwordAuth false).key
      (Request.passwordAuth false).value cloudImage :=
    ⟨by decide, by decide, by
      rw [if_pos (by decide)]
      exact .inr (by decide)⟩
  exact ((sshd_option_iff ascii_isAlphanum (r := .passwordAuth false) rfl _ true true
    cloudImage).mpr fun _ => hready).1 _ rfl

/-- The main file ends within a `Match`. -/
def gitHost : Etc where
  main := "PasswordAuthentication yes\nMatch User git\nX11Forwarding no\n".toList
  file _ := none

/-- The option is set for the user of the `Match` alone. -/
theorem set_within_match : ∃ script,
    (Request.passwordAuth false).build Char.isAlphanum = .ok script ∧
      ¬ Kept (fun _ => []) "PasswordAuthentication".toList "no".toList gitHost
        (script true true gitHost) := by
  refine ⟨_, rfl, fun h => ?_⟩
  exact absurd (h.1 _ rfl).1 (by decide)

end SshdOption
