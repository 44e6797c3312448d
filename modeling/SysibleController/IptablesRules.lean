import SysibleController.Getopt
import SysibleController.PythonRepr
import SysibleController.PythonStrip
import SysibleController.ShellArgv

/-! Adding and deleting rules of iptables (`cmd_iptables_add_rule`, `cmd_iptables_delete_rule`): the
words of a rule are checked one at a time, and iptables then reads all of them as options. -/
namespace IptablesRules

open PathText PythonText PythonRepr ShellQuote ShellReader Getopt

/-- What `str` knows of characters beyond ASCII. -/
structure Unicode where
  alnum : Char → Bool
  digit : Char → Bool
  printable : Char → Bool

/-! ### `shlex.split` -/

inductive Lex where
  | between
  | word
  | quoted (mark : Char)
  | escape (mark : Option Char)

def isBlank (c : Char) : Bool := " \t\r\n".toList.contains c

def isMark (c : Char) : Bool := c = '\'' || c = '"'

/-- The words of a text, with the one that is being read; the errors are those of `ValueError`. -/
def lexFrom : Lex → Text → Text → Except String (List Text)
  | .between, _, [] => .ok []
  | .word, cur, [] => .ok [cur]
  | .quoted _, _, [] => .error "No closing quotation"
  | .escape _, _, [] => .error "No escaped character"
  | .between, _, c :: rest =>
    if isBlank c then lexFrom .between [] rest
    else if c = '\\' then lexFrom (.escape none) [] rest
    else if isMark c then lexFrom (.quoted c) [] rest
    else lexFrom .word [c] rest
  | .word, cur, c :: rest =>
    if isBlank c then (lexFrom .between [] rest).map (cur :: ·)
    else if isMark c then lexFrom (.quoted c) cur rest
    else if c = '\\' then lexFrom (.escape none) cur rest
    else lexFrom .word (cur ++ [c]) rest
  | .quoted mark, cur, c :: rest =>
    if c = mark then lexFrom .word cur rest
    else if c = '\\' ∧ mark = '"' then lexFrom (.escape (some mark)) cur rest
    else lexFrom (.quoted mark) (cur ++ [c]) rest
  | .escape none, cur, c :: rest => lexFrom .word (cur ++ [c]) rest
  | .escape (some mark), cur, c :: rest =>
    lexFrom (.quoted mark) (cur ++ if c ≠ '\\' ∧ c ≠ mark then ['\\', c] else [c]) rest

def shlexSplit (value : Text) : Except String (List Text) := lexFrom .between [] value

/-! ### The words of a rule -/

/-- The general options of a tool that a rule may not hold, and its short options without an
argument. -/
structure Blocked where
  short : List Char
  long : List Text
  noArgument : List Char

def iptablesBlocked : Blocked :=
  ⟨['M', 't'], ["--modprobe".toList, "--table".toList], ['4', '6', 'n', 'v', 'f', 'x']⟩

variable (unicode : Unicode)

def mayNotContain (label : String) (option : Text) : String :=
  s!"{label} may not contain the {String.ofList option} option: it is an iptables/nft " ++
    "option rather than part of a rule, and it changes what the command does. Remove it."

/-- `_reject_tool_options` -/
def rejectToolOptions (label : String) (blocked : Blocked) (token : Text) : Except String Unit :=
  match shape token with
  | .operand | .last => .ok ()
  | .long text =>
    let name := '-' :: '-' :: longName text
    if name ∈ blocked.long then .error (mayNotContain label name) else .ok ()
  | .short c more =>
    if c ∈ blocked.short then .error (mayNotContain label ['-', c])
    else if c ∈ blocked.noArgument ∧ more ≠ [] then
      .error <| s!"{label} may not bundle short options (" ++
        String.ofList (repr unicode.printable token) ++
        "): write each one as its own word, e.g. '-4 -p tcp', so nothing can hide inside another."
    else .ok ()

/-- The words of a rule, when none of them is refused. -/
def ruleWords (label : String) (blocked : Blocked) (value : Text) : Except String (List Text) :=
  if stripText value = [] then .error s!"{label} is required."
  else
    match shlexSplit (stripText value) with
    | .error e => .error s!"{label} could not be parsed ({e}). Check for unbalanced quotes."
    | .ok tokens =>
      if tokens = [] then .error s!"{label} is required."
      else (tokens.forM (rejectToolOptions unicode label blocked)).map fun _ => tokens

def joined (tokens : List Text) : Text := [' '].intercalate (tokens.map quote)

def resplitIptables (label : String) (value : Text) : Except String Text :=
  (ruleWords unicode label iptablesBlocked value).map joined

def validTables : List Text := ["filter", "mangle", "nat", "raw", "security"].map String.toList

/-- `str.lower` on ASCII, to which no other letter of these names goes. -/
def validateIptablesTable (value : Text) : Except String Text :=
  let table := (stripText (if value = [] then "filter".toList else value)).map Char.toLower
  if table ∈ validTables then .ok table
  else .error "Table must be one of: filter, mangle, nat, raw, security"

def isAlnum (c : Char) : Bool := c.isAlphanum || (128 ≤ c.toNat && unicode.alnum c)

def isDigit (c : Char) : Bool := c.isDigit || (128 ≤ c.toNat && unicode.digit c)

def validateChainName (label : String) (value : Text) : Except String Text :=
  let chain := stripText value
  if chain = [] then .error s!"{label} is required."
  else if chain.all fun c => isAlnum unicode c || c = '_' || c = '-' then .ok chain
  else .error s!"{label} may only contain letters, numbers, dashes, and underscores."

/-! ### The commands -/

def iptablesMissing : Text :=
  text ["if ! command -v iptables >/dev/null 2>&1; then ",
    "echo 'iptables is not installed on this host (package: iptables).' >&2; exit 1; fi; "]

def ruleText (flag table chain target past : Text) : Text :=
  iptablesMissing ++ "iptables -t ".toList ++ (table ++ ' ' :: (flag ++ ' ' :: (quote chain ++
    ' ' :: (target ++ ' ' :: ("2>".toList ++ ("&1 && echo 'Rule ".toList ++ past ++ " ".toList ++
      chain ++ " (".toList ++ table ++ ").'".toList))))))

def cmdIptablesAddRule (table chain ruleSpec : Text) (append : Bool) : Except String Text := do
  let table ← validateIptablesTable table
  let chain ← validateChainName unicode "Chain" chain
  let rule ← resplitIptables unicode "Rule" ruleSpec
  return ruleText (if append then "-A".toList else "-I".toList) table chain rule
    (if append then "appended to".toList else "inserted into".toList)

def cmdIptablesDeleteRule (table chain ruleSpecOrNumber : Text) : Except String Text := do
  let table ← validateIptablesTable table
  let chain ← validateChainName unicode "Chain" chain
  let value := stripText ruleSpecOrNumber
  if value = [] then throw "Rule spec or line number is required."
  let target ← if value.all (isDigit unicode) then pure value
    else resplitIptables unicode "Rule" value
  return ruleText "-D".toList table chain target "removed from".toList

inductive Call where
  | add (table chain rule : Text) (append : Bool)
  | delete (table chain rule : Text)

def Call.build : Call → Except String Text
  | .add table chain rule append => cmdIptablesAddRule unicode table chain rule append
  | .delete table chain rule => cmdIptablesDeleteRule unicode table chain rule

def Call.table : Call → Text
  | .add table _ _ _ | .delete table _ _ => table

def Call.chain : Call → Text
  | .add _ chain _ _ | .delete _ chain _ => chain

def Call.flag : Call → Char
  | .add _ _ _ append => if append then 'A' else 'I'
  | .delete _ _ _ => 'D'

/-- The words of the rule, or the number of a line. -/
def Call.words : Call → Except String (List Text)
  | .add _ _ rule _ => ruleWords unicode "Rule" iptablesBlocked rule
  | .delete _ _ rule =>
    if (stripText rule).all (isDigit unicode) then .ok [stripText rule]
    else ruleWords unicode "Rule" iptablesBlocked (stripText rule)

/-! ### What iptables receives -/

/-- The options that choose the table and the program that loads modules. -/
def general (o : Opt) : Bool := o.code = 't' || o.code = 'M'

/-- A word of the rule in the form that the check does not look into: a long option by another
name than the two that are refused, or a short option that it does not know the arity of. -/
def Unchecked (token : Text) : Prop :=
  match shape token with
  | .operand | .last => False
  | .long text => '-' :: '-' :: longName text ∉ iptablesBlocked.long
  | .short c _ => c ∉ iptablesBlocked.short ∧ c ∉ iptablesBlocked.noArgument

/-- Such a word brings a general option. -/
def Smuggles (tool : Tool) (v : Visit) : Prop :=
  Unchecked v.element ∧ ∃ o ∈ v.gains tool, general o = true

/-- The options that the builders use take an argument each. -/
structure TakesArguments (tool : Tool) : Prop where
  table : tool.short 't' = some .required
  append : tool.short 'A' = some .required
  insert : tool.short 'I' = some .required
  delete : tool.short 'D' = some .required

variable {unicode} {tool : Tool} {label : String} {value table chain target past flag cmd : Text}
  {tokens : List Text}

theorem forM_ok {f : Text → Except String Unit} (h : tokens.forM f = .ok ()) :
    ∀ t ∈ tokens, f t = .ok () := by
  induction tokens with
  | nil => exact fun t ht => nomatch ht
  | cons t rest ih =>
    change (f t >>= fun _ => rest.forM f) = _ at h
    cases hf : f t with
    | error e => simp [hf, bind, Except.bind] at h
    | ok u =>
      have hrest : rest.forM f = .ok () := by simpa [hf, bind, Except.bind] using h
      intro t' ht'
      rcases List.mem_cons.mp ht' with rfl | hmem
      · exact hf
      · exact ih hrest t' hmem

theorem ruleWords_ok {blocked : Blocked} (h : ruleWords unicode label blocked value = .ok tokens) :
    tokens ≠ [] ∧ ∀ t ∈ tokens, rejectToolOptions unicode label blocked t = .ok () := by
  unfold ruleWords at h
  split_ifs at h
  split at h
  · exact nomatch h
  · rename_i ts _
    split_ifs at h with hne
    cases hall : ts.forM (rejectToolOptions unicode label blocked) with
    | error e => simp [hall, Except.map] at h
    | ok u =>
      obtain rfl : ts = tokens := by simpa [hall, Except.map] using h
      exact ⟨hne, forM_ok hall⟩

/-- A word that the check lets pass brings a general option only in a form it does not look into. -/
theorem unchecked_of_general {v : Visit} {o : Opt}
    (h : rejectToolOptions unicode label iptablesBlocked v.element = .ok ())
    (ho : o ∈ v.gains tool) (hg : general o = true) : Unchecked v.element := by
  simp only [Visit.gains, take] at ho
  simp only [rejectToolOptions] at h
  unfold Unchecked
  cases hs : shape v.element with
  | operand => simp [hs] at ho
  | last => simp [hs] at ho
  | long text =>
    simp only [hs] at h ⊢
    intro hmem
    rw [if_pos hmem] at h
    cases h
  | short c more =>
    simp only [hs] at h ho ⊢
    refine ⟨fun hmem => ?_, fun hmem => ?_⟩
    · rw [if_pos hmem] at h
      cases h
    · have hnil : more = [] := by
        by_contra hne
        split_ifs at h with hshort hbundle
        exact hbundle ⟨hmem, hne⟩
      subst hnil
      have hcode : o.code = c := by
        simp only [takeShort] at ho
        split at ho
        · simp at ho
        · simpa using congrArg Opt.code (List.mem_singleton.mp (by simpa using ho))
        · simpa using congrArg Opt.code (List.mem_singleton.mp (by simpa using ho))
        · rw [if_neg (by simp)] at ho
          split at ho
          · simp at ho
          · simpa using congrArg Opt.code (List.mem_singleton.mp (by simpa using ho))
      rw [general, hcode] at hg
      have hplain : (iptablesBlocked.noArgument.all fun d => !(d = 't' || d = 'M')) = true := by
        decide
      have hc := List.all_eq_true.mp hplain c hmem
      rw [hg] at hc
      exact absurd hc (by decide)

/-! ### The arguments of the command -/

/-- The text is read as these words. -/
def Reads (target : Text) (tokens : List Text) : Prop := ∀ words tail,
  commandsFrom words none (read start (target ++ ' ' :: tail)).2 =
    commandsFrom (words ++ tokens) none (read start tail).2

theorem reads_joined (hne : tokens ≠ []) : Reads (joined tokens) tokens := by
  intro words tail
  have hsplit : joined tokens ++ ' ' :: tail =
      (tokens.flatMap fun t => quote t ++ [' ']) ++ tail := by
    induction tokens with
    | nil => exact absurd rfl hne
    | cons t rest ih =>
      cases rest with
      | nil => simp [joined]
      | cons u more =>
        have hcons : joined (t :: u :: more) = quote t ++ ' ' :: joined (u :: more) := by
          simp [joined]
        rw [hcons, List.append_assoc, List.cons_append, ih (by simp)]
        simp
  rw [hsplit, commandsFrom_words]

theorem ordinary_of_isDigit {c : Char} (h : isDigit unicode c = true) : ordinary c = true := by
  simp only [isDigit, Bool.or_eq_true, Bool.and_eq_true, decide_eq_true_eq] at h
  rcases h with hdigit | ⟨hlarge, -⟩
  · exact ordinary_of_safe (by simp [safe, Char.isAlphanum, hdigit])
  · by_contra hno
    have hsmall : (" \t;&|<>()\n'\"\\#$\x60".toList.all fun d => d.toNat < 128) = true := by decide
    have hmem := special_of_not_ordinary hno
    have hlt := List.all_eq_true.mp hsmall c hmem
    rw [decide_eq_true_eq] at hlt
    omega

theorem reads_number (hne : value ≠ []) (h : value.all (isDigit unicode) = true) :
    Reads value [value] := by
  intro words tail
  exact commandsFrom_word (spells_ordinary hne fun c hc =>
    ordinary_of_isDigit (List.all_eq_true.mp h c hc)) words tail

theorem spells_of_all (h : (value ≠ [] && value.all ordinary) = true) : Spells value value := by
  simp only [Bool.and_eq_true, decide_eq_true_eq, List.all_eq_true] at h
  exact spells_ordinary h.1 h.2

theorem spells_table (h : table ∈ validTables) : Spells table table := by
  simp only [validTables, List.map_cons, List.map_nil, List.mem_cons, List.not_mem_nil,
    or_false] at h
  rcases h with rfl | rfl | rfl | rfl | rfl <;> exact spells_of_all (by decide)

def iptables : Text := "iptables".toList

/-- Before its options nothing is called that is iptables. -/
theorem read_missing : (read start (iptablesMissing ++ "iptables -t ".toList)).1 = start ∧
    (progress [] none (read start (iptablesMissing ++ "iptables -t ".toList)).2).2 =
      ([iptables, "-t".toList], none) ∧
    ((progress [] none (read start (iptablesMissing ++ "iptables -t ".toList)).2).1.all
      fun ws => ws.head? ≠ some iptables) = true :=
  text_of_bytes (P := fun t => (read start (t ++ "iptables -t ".toList)).1 = start ∧
    (progress [] none (read start (t ++ "iptables -t ".toList)).2).2 =
      ([iptables, "-t".toList], none) ∧
    ((progress [] none (read start (t ++ "iptables -t ".toList)).2).1.all
      fun ws => ws.head? ≠ some iptables) = true) (by decide +kernel)

/-- What iptables gets from a command: the options of the builder, then the words of the rule. -/
theorem argvOf_ruleText (htable : table ∈ validTables) (hflag : Spells flag flag)
    (htarget : Reads target tokens) : argvOf iptables (ruleText flag table chain target past) =
      some ("-t".toList :: table :: flag :: chain :: tokens) := by
  obtain ⟨hstate, hwords, hbefore⟩ := read_missing
  have hend : ∀ ws rest, ∃ more, commandsFrom ws none (read start ("2>".toList ++ rest)).2 =
      ws :: more := by
    intro ws rest
    have hread : read start "2>".toList = (⟨.blank, [], []⟩, [.char '2', .sym '>']) := by decide
    refine ⟨commandsFrom [] none (read ⟨.blank, [], []⟩ rest).2, ?_⟩
    rw [read_append, hread]
    rfl
  obtain ⟨more, hmore⟩ := hend ([iptables, "-t".toList] ++ [table] ++ [flag] ++ [chain] ++ tokens)
    ("&1 && echo 'Rule ".toList ++ past ++ " ".toList ++ chain ++ " (".toList ++ table ++
      ").'".toList)
  refine @argvOf_of_progress _ _ _ more _ hbefore ?_
  rw [commands, ruleText, read_append, hstate, commandsFrom_append, hwords]
  dsimp only
  rw [commandsFrom_word (spells_table htable), commandsFrom_word hflag,
    commandsFrom_word (spells_quote chain), htarget, hmore]
  rfl

/-! ### Whole calls -/

theorem validTable_of_ok (h : validateIptablesTable value = .ok table) : table ∈ validTables := by
  simp only [validateIptablesTable] at h
  generalize (stripText (if value = [] then "filter".toList else value)).map Char.toLower = t at h
  split_ifs at h with hmem
  exact Except.ok.inj h ▸ hmem

theorem resplit_ok (h : resplitIptables unicode label value = .ok target) :
    ∃ tokens, ruleWords unicode label iptablesBlocked value = .ok tokens ∧ Reads target tokens ∧
      ∀ t ∈ tokens, rejectToolOptions unicode label iptablesBlocked t = .ok () := by
  unfold resplitIptables at h
  cases hw : ruleWords unicode label iptablesBlocked value with
  | error e => simp [hw, Except.map] at h
  | ok tokens =>
    obtain ⟨hne, hall⟩ := ruleWords_ok hw
    simp only [hw, Except.map, Except.ok.injEq] at h
    exact ⟨tokens, rfl, h ▸ reads_joined hne, hall⟩

theorem reject_number (hne : value ≠ []) (h : value.all (isDigit unicode) = true) :
    rejectToolOptions unicode label iptablesBlocked value = .ok () := by
  obtain ⟨c, rest, rfl⟩ := List.exists_cons_of_ne_nil hne
  have hc : c ≠ '-' := by
    rintro rfl
    have hdash := List.all_eq_true.mp h '-' List.mem_cons_self
    have hno : isDigit unicode '-' = false := rfl
    exact absurd (hno.symm.trans hdash) (by decide)
  have hshape : shape (c :: rest) = .operand := by
    unfold shape
    split <;> simp_all
  simp only [rejectToolOptions, hshape]

theorem spells_flag (call : Call) : Spells ['-', call.flag] ['-', call.flag] := by
  have hflag : call.flag = 'A' ∨ call.flag = 'I' ∨ call.flag = 'D' := by
    cases call with
    | add _ _ _ append =>
      cases append
      · exact .inr (.inl rfl)
      · exact .inl rfl
    | delete => exact .inr (.inr rfl)
  rcases hflag with h | h | h <;> rw [h] <;> exact spells_of_all (by decide)

/-- What an accepted call asks for, and the arguments that its command gives to iptables. -/
theorem build_cases {call : Call} (h : call.build unicode = .ok cmd) : ∃ table chain tokens,
    validateIptablesTable call.table = .ok table ∧
      validateChainName unicode "Chain" call.chain = .ok chain ∧
      call.words unicode = .ok tokens ∧
      argvOf iptables cmd = some ("-t".toList :: table :: ['-', call.flag] :: chain :: tokens) ∧
      ∀ t ∈ tokens, rejectToolOptions unicode "Rule" iptablesBlocked t = .ok () := by
  cases call with
  | add t c rule append =>
    simp only [Call.build, cmdIptablesAddRule] at h
    cases ht : validateIptablesTable t with
    | error e => simp [ht, bind, Except.bind] at h
    | ok table =>
      cases hc : validateChainName unicode "Chain" c with
      | error e => simp [ht, hc, bind, Except.bind] at h
      | ok chain =>
        cases hr : resplitIptables unicode "Rule" rule with
        | error e => simp [ht, hc, hr, bind, Except.bind] at h
        | ok target =>
          simp only [ht, hc, hr, bind, Except.bind, pure, Except.pure, Except.ok.injEq] at h
          obtain ⟨tokens, hwords, hreads, hall⟩ := resplit_ok hr
          have hflag : (if append = true then "-A".toList else "-I".toList) =
              ['-', (Call.add t c rule append).flag] := by cases append <;> rfl
          rw [hflag] at h
          refine ⟨table, chain, tokens, ht, hc, hwords, ?_, hall⟩
          rw [← h]
          exact argvOf_ruleText (validTable_of_ok ht) (spells_flag _) hreads
  | delete t c rule =>
    simp only [Call.build, cmdIptablesDeleteRule] at h
    cases ht : validateIptablesTable t with
    | error e => simp [ht, bind, Except.bind] at h
    | ok table =>
      cases hc : validateChainName unicode "Chain" c with
      | error e => simp [ht, hc, bind, Except.bind] at h
      | ok chain =>
        by_cases hne : stripText rule = []
        · simp [ht, hc, hne, bind, Except.bind, throw, throwThe, MonadExceptOf.throw] at h
        · by_cases hdigits : (stripText rule).all (isDigit unicode) = true
          · simp only [ht, hc, hne, hdigits, bind, Except.bind, pure, Except.pure, if_false, if_true,
              Except.ok.injEq] at h
            refine ⟨table, chain, [stripText rule], ht, hc, ?_, ?_, ?_⟩
            · rw [Call.words, if_pos hdigits]
            · rw [← h]
              exact argvOf_ruleText (validTable_of_ok ht) (spells_flag (.delete t c rule))
                (reads_number hne hdigits)
            · intro token htoken
              rw [List.mem_singleton.mp htoken]
              exact reject_number hne hdigits
          · cases hr : resplitIptables unicode "Rule" (stripText rule) with
            | error e => simp [ht, hc, hne, hdigits, hr, bind, Except.bind] at h
            | ok target =>
              simp only [ht, hc, hne, hdigits, hr, bind, Except.bind, pure, Except.pure, if_false,
                Bool.false_eq_true, Except.ok.injEq] at h
              obtain ⟨tokens, hwords, hreads, hall⟩ := resplit_ok hr
              refine ⟨table, chain, tokens, ht, hc, ?_, ?_, hall⟩
              · rw [Call.words, if_neg hdigits]
                exact hwords
              · rw [← h]
                exact argvOf_ruleText (validTable_of_ok ht) (spells_flag (.delete t c rule)) hreads

/-- Of the general options, iptables receives the validated table and no other. -/
def OnlyOwnTable (tool : Tool) (call : Call) (cmd : Text) : Prop :=
  ∃ args table, argvOf iptables cmd = some args ∧ validateIptablesTable call.table = .ok table ∧
    (receive tool [] args).filter general = [⟨'t', some table⟩]

/-- No word that iptables takes for an option brings a general one in an unchecked form. -/
def PlainRule (unicode : Unicode) (tool : Tool) (call : Call) : Prop :=
  ∀ table chain tokens, validateIptablesTable call.table = .ok table →
    validateChainName unicode "Chain" call.chain = .ok chain → call.words unicode = .ok tokens →
    ∀ v ∈ visits tool [⟨'t', some table⟩, ⟨call.flag, some chain⟩] tokens, ¬Smuggles tool v

theorem flag_takes (htool : TakesArguments tool) (call : Call) :
    tool.short call.flag = some .required ∧ shape ['-', call.flag] = .short call.flag [] ∧
      ∀ arg, general ⟨call.flag, arg⟩ = false := by
  cases call with
  | add _ _ _ append =>
    cases append with
    | true => exact ⟨htool.append, rfl, fun _ => rfl⟩
    | false => exact ⟨htool.insert, rfl, fun _ => rfl⟩
  | delete => exact ⟨htool.delete, rfl, fun _ => rfl⟩

/-- A rule cannot become a general option, but for words in a form that is not checked. -/
theorem rule_no_option_iff (htool : TakesArguments tool) (call : Call)
    (h : call.build unicode = .ok cmd) :
    OnlyOwnTable tool call cmd ↔ PlainRule unicode tool call := by
  obtain ⟨table, chain, tokens, htable, hchain, hwords, hargv, hall⟩ := build_cases h
  obtain ⟨hflag, hshape, hplain⟩ := flag_takes htool call
  have hreceive : receive tool [] ("-t".toList :: table :: ['-', call.flag] :: chain :: tokens) =
      receive tool [⟨'t', some table⟩, ⟨call.flag, some chain⟩] tokens := by
    rw [receive_short_arg rfl htool.table, receive_short_arg hshape hflag]
    rfl
  have hown : [(⟨'t', some table⟩ : Opt), ⟨call.flag, some chain⟩].filter general =
      [⟨'t', some table⟩] := by
    rw [List.filter_cons_of_pos rfl, List.filter_cons_of_neg (by simp [hplain])]
    rfl
  have hvisits : OnlyOwnTable tool call cmd ↔
      ∀ v ∈ visits tool [⟨'t', some table⟩, ⟨call.flag, some chain⟩] tokens,
        ∀ o ∈ v.gains tool, general o = false := by
    have hfilter : (receive tool [] ("-t".toList :: table :: ['-', call.flag] :: chain ::
        tokens)).filter general = [⟨'t', some table⟩] ↔
        ∀ v ∈ visits tool [⟨'t', some table⟩, ⟨call.flag, some chain⟩] tokens,
          ∀ o ∈ v.gains tool, general o = false := by
      rw [hreceive, filter_receive, hown, List.append_right_eq_self, List.flatMap_eq_nil_iff]
      simp only [List.filter_eq_nil_iff, Bool.not_eq_true]
    rw [← hfilter]
    constructor
    · intro ⟨args, t, hargs, ht, hreceived⟩
      obtain rfl := Option.some.inj (hargv.symm.trans hargs)
      obtain rfl := Except.ok.inj (htable.symm.trans ht)
      exact hreceived
    · exact fun hreceived => ⟨_, table, hargv, htable, hreceived⟩
  rw [hvisits]
  constructor
  · intro hnone t c ts ht hc hts v hv ⟨_, o, ho, hg⟩
    obtain rfl := Except.ok.inj (htable.symm.trans ht)
    obtain rfl := Except.ok.inj (hchain.symm.trans hc)
    obtain rfl := Except.ok.inj (hwords.symm.trans hts)
    exact absurd (hnone v hv o ho) (by simp [hg])
  · intro hrule v hv o ho
    by_contra hg
    rw [Bool.not_eq_false] at hg
    have haccepted := hall v.element (mem_of_mem_visits hv)
    exact hrule table chain tokens htable hchain hwords v hv
      ⟨unchecked_of_general haccepted ho hg, o, ho, hg⟩

/-- iptables before it loads an extension: the options of its manual. -/
def iptablesTool : Tool where
  short c :=
    if "tACDIREPNposdijmcgM".toList.contains c then some .required
    else if "LSFZXhW".toList.contains c then some .optional
    else if "46nvfxbVw".toList.contains c then some .none
    else none
  longs _ := [⟨"table".toList, .required, 't'⟩, ⟨"modprobe".toList, .required, 'M'⟩,
    ⟨"match".toList, .required, 'm'⟩, ⟨"jump".toList, .required, 'j'⟩,
    ⟨"protocol".toList, .required, 'p'⟩, ⟨"append".toList, .required, 'A'⟩]

def ascii : Unicode := ⟨fun _ => false, fun _ => false, fun _ => false⟩

theorem accept_rule_only_own_table : ∃ cmd,
    (Call.add "filter".toList "INPUT".toList "-j ACCEPT".toList true).build ascii = .ok cmd ∧
      OnlyOwnTable iptablesTool (.add "filter".toList "INPUT".toList "-j ACCEPT".toList true)
        cmd := by
  have htool : TakesArguments iptablesTool := ⟨rfl, rfl, rfl, rfl⟩
  have hbuild : (Call.add "filter".toList "INPUT".toList "-j ACCEPT".toList true).build ascii =
      .ok (ruleText "-A".toList "filter".toList "INPUT".toList "-j ACCEPT".toList
        "appended to".toList) := by decide +kernel
  refine ⟨_, hbuild, (rule_no_option_iff htool _ hbuild).mpr ?_⟩
  intro table chain tokens htable hchain hwords
  have hown : validateIptablesTable "filter".toList = .ok "filter".toList := by decide +kernel
  have hinput : validateChainName ascii "Chain" "INPUT".toList = .ok "INPUT".toList := by
    decide +kernel
  have hsplit : ruleWords ascii "Rule" iptablesBlocked "-j ACCEPT".toList =
      .ok ["-j".toList, "ACCEPT".toList] := by decide +kernel
  obtain rfl := Except.ok.inj (hown.symm.trans htable)
  obtain rfl := Except.ok.inj (hinput.symm.trans hchain)
  obtain rfl := Except.ok.inj (hsplit.symm.trans hwords)
  have hgains : ((visits iptablesTool [⟨'t', some "filter".toList⟩, ⟨'A', some "INPUT".toList⟩]
      ["-j".toList, "ACCEPT".toList]).all fun v =>
        (v.gains iptablesTool).all fun o => !general o) = true := by decide +kernel
  rintro v hv ⟨_, o, ho, hg⟩
  have hno := List.all_eq_true.mp (List.all_eq_true.mp hgains v hv) o ho
  rw [hg] at hno
  exact absurd hno (by decide)

/-- An abbreviation of `--table` puts the rule into another table. -/
theorem abbreviated_table_is_received : ∃ cmd args,
    (Call.add "filter".toList "INPUT".toList "--tab=nat -j ACCEPT".toList true).build ascii =
        .ok cmd ∧
      argvOf iptables cmd = some args ∧
      (receive iptablesTool [] args).filter general =
        [⟨'t', some "filter".toList⟩, ⟨'t', some "nat".toList⟩] :=
  ⟨ruleText "-A".toList "filter".toList "INPUT".toList "--tab=nat -j ACCEPT".toList
      "appended to".toList,
    ["-t".toList, "filter".toList, "-A".toList, "INPUT".toList, "--tab=nat".toList, "-j".toList,
      "ACCEPT".toList],
    by decide +kernel,
    argvOf_ruleText (by decide) (spells_of_all (by decide))
      (@reads_joined ["--tab=nat".toList, "-j".toList, "ACCEPT".toList] (List.cons_ne_nil _ _)),
    by decide +kernel⟩

end IptablesRules
