import SysibleController.PythonStrip
import SysibleController.PathText

/-! One hop of an `ssh` proxy jump: the form that `backend/relay.py` accepts (`_JUMP_HOP_RE`,
`valid_jump`), and what `_parse_jump_hop` splits it into. -/
namespace JumpHop

open PathText PythonText PythonInt

/-- `[A-Za-z0-9._%+\-]` -/
def userChar (c : Char) : Bool := c.isAlphanum || ['.', '_', '%', '+', '-'].contains c

/-- `[A-Za-z0-9._\-]` -/
def hostChar (c : Char) : Bool := c.isAlphanum || ['.', '_', '-'].contains c

/-- `[0-9A-Fa-f:]` -/
def literalChar (c : Char) : Bool :=
  c.isDigit || ('A' ≤ c && c ≤ 'F') || ('a' ≤ c && c ≤ 'f') || c = ':'

/-- `(?::[0-9]{1,5})?$` -/
def matchesPort : Text → Bool
  | [] => true
  | c :: digits => c = ':' && (1 ≤ digits.length && digits.length ≤ 5) && digits.all Char.isDigit

/-- A host and an optional port. No class contains the character that ends it, so that a match
takes as much as it can. -/
def matchesHost : Text → Bool
  | '[' :: rest =>
    rest.takeWhile literalChar ≠ [] &&
      match rest.dropWhile literalChar with
      | ']' :: port => matchesPort port
      | _ => false
  | text => text.takeWhile hostChar ≠ [] && matchesPort (text.dropWhile hostChar)

def matchesHop (text : Text) : Bool :=
  match text.takeWhile userChar, text.dropWhile userChar with
  | _ :: _, '@' :: rest => matchesHost rest
  | _, _ => matchesHost text

/-- `_JUMP_HOP_RE.match`: the `$` also matches before a last newline. -/
def jumpHopRe (text : Text) : Bool :=
  matchesHop (if text.getLast? = some '\n' then text.dropLast else text)

/-- The text after the last colon. -/
def afterColon (text : Text) : Text := text.rtakeWhile (· ≠ ':')

/-- The digits that `isdigit` is asked about here have passed the expression. -/
def validJump (jump : Text) : Bool :=
  jump ≠ [] && jump.head? ≠ some '-' && jumpHopRe jump &&
    !(':' ∈ jump && (afterColon jump ≠ [] && (afterColon jump).all Char.isDigit) &&
      !(pyInt (afterColon jump)).any fun n => 1 ≤ n ∧ n ≤ 65535)

def parseHostPort (user : Option Text) (hop : Text) : Option (Option Text × Text × ℤ) :=
  match hop with
  | '[' :: literal =>
    let host := literal.takeWhile (· ≠ ']')
    match (literal.dropWhile (· ≠ ']')).drop 1 with
    | ':' :: port => (pyInt port).map fun n => (user, host, n)
    | _ => some (user, host, 22)
  | _ =>
    if ':' ∈ hop then (pyInt (afterColon hop)).map fun n =>
      (user, (hop.rdropWhile (· ≠ ':')).dropLast, n)
    else some (user, hop, 22)

/-- The user, the host and the port; `none` is the `ValueError` of `int`. -/
def parseJumpHop (hop : Text) : Option (Option Text × Text × ℤ) :=
  if '@' ∈ hop then
    parseHostPort (some (hop.takeWhile (· ≠ '@'))) ((hop.dropWhile (· ≠ '@')).drop 1)
  else parseHostPort none hop

/-- The decimal text of a number. -/
def decimal (n : ℕ) : Text := Nat.toDigits 10 n

/-- The hop for a user, a host and a port. -/
def jumpOf (user host : Text) (port : ℕ) : Text :=
  let jump := user ++ '@' :: host
  if port ≠ 22 then jump ++ ':' :: decimal port else jump

/-- The text names a host without a port after it. -/
def NoPort (host : Text) : Prop := ':' ∉ host ∨ host.getLast? = some ']'

instance (host : Text) : Decidable (NoPort host) := inferInstanceAs (Decidable (_ ∨ _))

/-- The host of a hop is given as `name`, or in brackets. -/
def Names (host name : Text) : Prop := host = name ∨ host = '[' :: (name ++ [']'])

variable {c : Char} {user host name jump rest port digits : Text} {n : ℕ}

/-! ### Numbers -/

theorem digitValue_of_digit (h : c.isDigit = true) : digitValue c = some (c.toNat - '0'.toNat) := by
  obtain ⟨hlow, hhigh⟩ : 48 ≤ c.toNat ∧ c.toNat ≤ 57 := by
    simpa [Char.isDigit, UInt32.le_iff_toNat_le] using h
  have hfind : digitZeros.find? (fun start => start ≤ c.toNat && c.toNat < start + 10) =
      some 0x30 := by
    rw [digitZeros, List.find?_cons_of_pos]
    simp only [Bool.and_eq_true, decide_eq_true_eq]
    omega
  rw [digitValue, hfind]
  rfl

theorem digitValues_of_digits (hne : digits ≠ [])
    (h : ∀ c ∈ digits, c.isDigit = true) :
    digitValues digits = some (digits.map fun c => c.toNat - '0'.toNat) := by
  induction digits with
  | nil => exact absurd rfl hne
  | cons c rest ih =>
    have hc := digitValue_of_digit (h c List.mem_cons_self)
    cases rest with
    | nil => simp [digitValues, hc]
    | cons d more =>
      have hd : d ≠ '_' := by
        rintro rfl
        exact absurd (h '_' (by simp)) (by decide)
      have hrest := ih (by simp) fun c hc => h c (List.mem_cons_of_mem _ hc)
      rw [digitValues]
      · simp [hc, hrest]
      · simp
      · exact fun more' heq => hd (List.cons.inj heq).1

theorem isBlank_of_digit (h : c.isDigit = true) : isBlank c = false := by
  obtain ⟨hlow, hhigh⟩ : 48 ≤ c.toNat ∧ c.toNat ≤ 57 := by
    simpa [Char.isDigit, UInt32.le_iff_toNat_le] using h
  simp only [isBlank, List.contains_eq_mem, List.mem_cons, List.not_mem_nil, or_false,
    Bool.or_eq_false_iff, Bool.and_eq_false_iff, decide_eq_false_iff_not]
  omega

theorem pyInt_of_digits (hne : digits ≠ []) (hlen : digits.length ≤ 4300)
    (h : ∀ c ∈ digits, c.isDigit = true) :
    pyInt digits = some (Nat.ofDigitChars 10 digits 0 : ℤ) := by
  have hfront : digits.dropWhile isBlank = digits := by
    rw [List.dropWhile_eq_self_iff]
    intro hpos
    simp [isBlank_of_digit (h _ (List.getElem_mem hpos))]
  have hback : digits.rdropWhile isBlank = digits := by
    rw [List.rdropWhile_eq_self_iff]
    intro hl
    simp [isBlank_of_digit (h _ (List.getLast_mem hl))]
  have hmagnitude : magnitude digits = some (Nat.ofDigitChars 10 digits 0) := by
    rw [magnitude, digitValues_of_digits hne h]
    simp [maxStrDigits, hlen, Nat.ofDigitChars_eq_foldl, List.foldl_map]
  rw [pyInt, hfront, hback]
  split
  · exact absurd (h '-' (by simp)) (by decide)
  · exact absurd (h '+' (by simp)) (by decide)
  · simp [hmagnitude]

theorem digit_of_mem_decimal (h : c ∈ decimal n) : c.isDigit = true :=
  Nat.isDigit_of_mem_toDigits (by decide) (by decide) h

theorem decimal_ne_nil : decimal n ≠ [] := Nat.toDigits_ne_nil

theorem length_decimal (h : n ≤ 65535) : (decimal n).length ≤ 5 := by
  rw [decimal, Nat.length_toDigits_le_iff (by decide) (by decide)]
  omega

theorem pyInt_decimal (h : n ≤ 65535) : pyInt (decimal n) = some (n : ℤ) := by
  have hlen := length_decimal h
  rw [pyInt_of_digits decimal_ne_nil (by omega) fun c => digit_of_mem_decimal, decimal,
    Nat.ofDigitChars_ten_toDigits]

/-! ### Hosts and ports -/

/-- What stands before the port in a hop that matches. -/
inductive HostForm : Text → Text → Prop where
  | name {text : Text} (ne : text ≠ []) (chars : ∀ c ∈ text, hostChar c = true) :
      HostForm text text
  | literal {text : Text} (chars : ∀ c ∈ text, literalChar c = true) :
      HostForm ('[' :: (text ++ [']'])) text

inductive PortForm : Text → ℤ → Prop where
  | absent : PortForm [] 22
  | given {text : Text} (ne : text ≠ []) (short : text.length ≤ 5)
      (digit : ∀ c ∈ text, c.isDigit = true) :
      PortForm (':' :: text) (Nat.ofDigitChars 10 text 0)

theorem HostForm.names (h : HostForm host name) : Names host name := by
  cases h with
  | name => exact .inl rfl
  | literal => exact .inr rfl

theorem colon_not_mem_digits (h : ∀ c ∈ digits, c.isDigit = true) : ':' ∉ digits := fun hc =>
  absurd (h ':' hc) (by decide)

theorem HostForm.noPort (h : HostForm host name) : NoPort host := by
  cases h with
  | name _ chars => exact .inl fun hc => absurd (chars ':' hc) (by decide)
  | literal =>
    refine .inr ?_
    rw [← List.cons_append, List.getLast?_concat]

theorem portForm_of_matches (h : matchesPort port = true) : ∃ z, PortForm port z := by
  cases port with
  | nil => exact ⟨22, .absent⟩
  | cons c digits =>
    simp only [matchesPort, Bool.and_eq_true, decide_eq_true_eq, List.all_eq_true] at h
    obtain ⟨⟨rfl, hpos, hshort⟩, hdigit⟩ := h
    exact ⟨_, .given (List.ne_nil_of_length_pos hpos) hshort hdigit⟩

theorem hostForm_of_matches (h : matchesHost rest = true) :
    ∃ host name port z, rest = host ++ port ∧ HostForm host name ∧ PortForm port z := by
  unfold matchesHost at h
  split at h
  · rename_i text
    simp only [Bool.and_eq_true, decide_eq_true_eq] at h
    obtain ⟨-, h⟩ := h
    have hsplit := @List.takeWhile_append_dropWhile _ literalChar text
    generalize text.dropWhile literalChar = after at h hsplit
    split at h
    · rename_i port
      obtain ⟨z, hport⟩ := portForm_of_matches h
      refine ⟨_, text.takeWhile literalChar, port, z, ?_,
        .literal (fun c => List.mem_takeWhile_imp), hport⟩
      simp [hsplit]
    · exact nomatch h
  · simp only [Bool.and_eq_true, decide_eq_true_eq] at h
    obtain ⟨z, hport⟩ := portForm_of_matches h.2
    exact ⟨_, _, _, z, List.takeWhile_append_dropWhile.symm,
      .name h.1 (fun c => List.mem_takeWhile_imp), hport⟩

theorem afterColon_append (h : ':' ∉ digits) : afterColon (host ++ ':' :: digits) = digits ∧
    (host ++ ':' :: digits).rdropWhile (· ≠ ':') = host ++ [':'] := by
  have hall : ∀ c ∈ digits.reverse, decide (c ≠ ':') = true := by
    intro c hc
    rw [decide_eq_true_eq]
    rintro rfl
    exact h (List.mem_reverse.mp hc)
  have hrev : (host ++ ':' :: digits).reverse = digits.reverse ++ ':' :: host.reverse := by simp
  rw [afterColon, List.rtakeWhile, List.rdropWhile, hrev, List.takeWhile_append_of_pos hall,
    List.dropWhile_append_of_pos hall]
  simp

theorem parseHostPort_eq {u : Option Text} {z : ℤ} (hh : HostForm host name)
    (hp : PortForm port z) : parseHostPort u (host ++ port) = some (u, name, z) := by
  have hint : ∀ ds : Text, ds ≠ [] → ds.length ≤ 5 → (∀ c ∈ ds, c.isDigit = true) →
      pyInt ds = some (Nat.ofDigitChars 10 ds 0 : ℤ) := fun ds hne hlen hd =>
    pyInt_of_digits hne (by omega) hd
  cases hh with
  | literal chars =>
    have hall : ∀ c ∈ name, decide (c ≠ ']') = true := by
      intro c hc
      rw [decide_eq_true_eq]
      rintro rfl
      exact absurd (chars ']' hc) (by decide)
    simp only [parseHostPort, List.cons_append, List.append_assoc, List.nil_append]
    rw [List.takeWhile_append_of_pos hall, List.dropWhile_append_of_pos hall]
    cases hp with
    | absent => simp
    | given ne short digit => simp [hint _ ne short digit]
  | name ne chars =>
    have hcolon : ':' ∉ host := fun hc => absurd (chars ':' hc) (by decide)
    unfold parseHostPort
    split
    · rename_i literal heq
      obtain ⟨c, rest, rfl⟩ := List.exists_cons_of_ne_nil ne
      obtain ⟨rfl, -⟩ := List.cons.inj heq
      exact absurd (chars '[' List.mem_cons_self) (by decide)
    · cases hp with
      | absent => simp [hcolon]
      | given ne short digit =>
        obtain ⟨hafter, hbefore⟩ := @afterColon_append host _ (colon_not_mem_digits digit)
        rw [if_pos (by simp), hafter, hbefore, hint _ ne short digit]
        simp

/-! ### Whole hops -/

theorem HostForm.at_not_mem (h : HostForm host name) : '@' ∉ host := by
  cases h with
  | name _ chars => exact fun hc => absurd (chars '@' hc) (by decide)
  | literal chars =>
    intro hc
    simp only [List.mem_cons, List.mem_append, List.not_mem_nil, or_false] at hc
    rcases hc with heq | hmem | heq
    · exact absurd heq (by decide)
    · exact absurd (chars '@' hmem) (by decide)
    · exact absurd heq (by decide)

theorem PortForm.at_not_mem {z : ℤ} (h : PortForm port z) : '@' ∉ port := by
  cases h with
  | absent => exact List.not_mem_nil
  | given _ _ digit =>
    intro hc
    rcases List.mem_cons.mp hc with heq | hmem
    · exact absurd heq (by decide)
    · exact absurd (digit '@' hmem) (by decide)

theorem at_not_mem_of_matches (h : matchesHost rest = true) : '@' ∉ rest := by
  obtain ⟨host, name, port, z, rfl, hhost, hport⟩ := hostForm_of_matches h
  intro hc
  rcases List.mem_append.mp hc with hc | hc
  · exact hhost.at_not_mem hc
  · exact hport.at_not_mem hc

/-- The user of a hop that matches ends at its only `@`. -/
theorem matchesHop_user (h : matchesHop (user ++ '@' :: rest) = true) :
    '@' ∉ user ∧ matchesHost rest = true := by
  have hwhole : matchesHost (user ++ '@' :: rest) = true → False := fun hm =>
    at_not_mem_of_matches hm (by simp)
  unfold matchesHop at h
  have hsplit := @List.takeWhile_append_dropWhile _ userChar (user ++ '@' :: rest)
  have hchars : '@' ∉ (user ++ '@' :: rest).takeWhile userChar := fun hc =>
    absurd (List.mem_takeWhile_imp hc) (by decide)
  generalize (user ++ '@' :: rest).takeWhile userChar = before at h hsplit hchars
  generalize (user ++ '@' :: rest).dropWhile userChar = after at h hsplit
  split at h
  · rename_i c more rest'
    have hrest : '@' ∉ rest' := at_not_mem_of_matches h
    obtain ⟨hbefore, -, hafter⟩ := (List.append_cons_inj_of_notMem hchars hrest).mp hsplit
    exact ⟨hbefore ▸ hchars, hafter ▸ h⟩
  · exact (hwhole h).elim

theorem parseJumpHop_user (h : '@' ∉ user) :
    parseJumpHop (user ++ '@' :: rest) = parseHostPort (some user) rest := by
  have hall : ∀ c ∈ user, decide (c ≠ '@') = true := by
    intro c hc
    rw [decide_eq_true_eq]
    rintro rfl
    exact h hc
  rw [parseJumpHop, if_pos (by simp), List.takeWhile_append_of_pos hall,
    List.dropWhile_append_of_pos hall]
  simp

/-- The text of a port that is not the usual one. -/
def portSuffix (port : ℕ) : Text := if port ≠ 22 then ':' :: decimal port else []

theorem jumpOf_eq (user host : Text) (port : ℕ) :
    jumpOf user host port = user ++ '@' :: (host ++ portSuffix port) := by
  unfold jumpOf portSuffix
  split_ifs <;> simp

theorem portForm_suffix (h : n ≤ 65535) : PortForm (portSuffix n) n := by
  unfold portSuffix
  split_ifs with h22
  · have hgiven := PortForm.given decimal_ne_nil (length_decimal h) fun c => digit_of_mem_decimal
    rwa [decimal, Nat.ofDigitChars_ten_toDigits] at hgiven
  · rw [not_not] at h22
    subst h22
    exact .absent

theorem last_of_digits (hne : digits ≠ []) (h : ∀ c ∈ digits, c.isDigit = true) :
    (host ++ ':' :: digits).getLast? ≠ some ']' := by
  intro hlast
  rw [List.getLast?_append_of_ne_nil _ (by simp), List.getLast?_cons,
    List.getLast?_eq_some_getLast hne] at hlast
  have hmem := h _ (List.getLast_mem hne)
  simp only [Option.getD_some, Option.some.injEq] at hlast
  rw [hlast] at hmem
  exact absurd hmem (by decide)

/-- Digits after a colon are a port, whatever the host is. -/
theorem not_noPort (hne : digits ≠ []) (h : ∀ c ∈ digits, c.isDigit = true) :
    ¬NoPort (host ++ ':' :: digits) := by
  rintro (hcolon | hlast)
  · exact hcolon (by simp)
  · exact last_of_digits hne h hlast

/-- A hop that matches and that was given a port of its own has it from there. -/
theorem host_of_suffix {given : Text} {z : ℤ} (h22 : n ≠ 22) (hhost : HostForm given name)
    (hport : PortForm port z) (h : host ++ portSuffix n = given ++ port) :
    host = given ∧ port = portSuffix n := by
  have hdigits : ∀ c ∈ decimal n, c.isDigit = true := fun c => digit_of_mem_decimal
  rw [portSuffix, if_pos h22] at h ⊢
  cases hport with
  | absent =>
    rw [List.append_nil] at h
    exact absurd (h ▸ hhost.noPort) (not_noPort decimal_ne_nil hdigits)
  | given _ _ digit =>
    obtain ⟨hafter, hbefore⟩ := @afterColon_append host _ (colon_not_mem_digits hdigits)
    obtain ⟨hafter', hbefore'⟩ := @afterColon_append given _ (colon_not_mem_digits digit)
    rw [h] at hafter hbefore
    rw [hafter'] at hafter
    rw [hbefore'] at hbefore
    exact ⟨(List.append_cancel_right hbefore).symm, by rw [hafter]⟩

/-- What a hop that matches is split into, and that this is the host that it was made of exactly
where that names no port. -/
theorem parse_jumpOf (hn : n ≤ 65535) (h : matchesHop (jumpOf user host n) = true) :
    ∃ given name z, HostForm given name ∧
      parseJumpHop (jumpOf user host n) = some (some user, name, z) ∧
      (NoPort host → host = given ∧ z = n) ∧ (¬NoPort host → ¬Names host name) := by
  rw [jumpOf_eq] at h ⊢
  obtain ⟨huser, hrest⟩ := matchesHop_user h
  obtain ⟨given, name, port, z, hsplit, hhost, hport⟩ := hostForm_of_matches hrest
  have hparse := parseHostPort_eq (u := some user) hhost hport
  rw [parseJumpHop_user huser, hsplit]
  by_cases h22 : n = 22
  · rw [portSuffix, if_neg (by simpa using h22), List.append_nil] at hsplit
    cases hport with
    | absent =>
      rw [List.append_nil] at hsplit
      subst hsplit
      exact ⟨_, _, _, hhost, hparse, fun _ => ⟨rfl, by simp [h22]⟩,
        fun hno => absurd hhost.noPort hno⟩
    | given ne _ digit =>
      refine ⟨_, _, _, hhost, hparse, fun hno => absurd (hsplit ▸ hno) (not_noPort ne digit), ?_⟩
      rintro - (hname | hname)
      · have hlong := congrArg List.length (hname.symm.trans hsplit)
        cases hhost with
        | name => simp at hlong
        | literal =>
          simp at hlong
          omega
      · refine @last_of_digits given _ ne digit ?_
        rw [← hsplit, hname, ← List.cons_append, List.getLast?_concat]
  · obtain ⟨rfl, rfl⟩ := host_of_suffix h22 hhost hport hsplit
    have hz : z = n := by
      have hexact := parseHostPort_eq (u := some user) hhost (portForm_suffix hn)
      rw [hparse] at hexact
      simpa using hexact
    exact ⟨_, _, _, hhost, hparse, fun _ => ⟨rfl, hz⟩, fun hno => absurd hhost.noPort hno⟩

end JumpHop
