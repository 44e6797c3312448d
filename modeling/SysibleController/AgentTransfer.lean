import SysibleController.Base64
import SysibleController.PythonRepr
import SysibleController.PythonStrip
import SysibleController.ShellCommands
import SysibleController.ShellSpelling

/-! Transfers of files by the agent (`queue_agent_upload`, `queue_agent_download`): the content goes
as base64 in a Python script, and the script as base64 in a command that the agent executes. -/
namespace AgentTransfer

open PathText PythonText PythonRepr ShellQuote ShellReader Base64

def transferLimit : ℕ := 140000

/-- `_COMMAND_MAX`, in characters. -/
def commandMax : ℕ := 1048576

/-- `MAX_OUTPUT_BYTES`, which `_truncate` compares with a number of characters. -/
def maxOutput : ℕ := 200000

/-- What one argument of `exec` may take on Linux, with its terminator. -/
def maxArgument : ℕ := 131072

/-- `str.encode` -/
def utf8 (t : Text) : List UInt8 := t.flatMap String.utf8EncodeChar

/-- `bytes.decode` -/
def fromUtf8 (bytes : List UInt8) : Option Text := bytes.toByteArray.utf8Decode?.map Array.toList

def size (t : Text) : ℕ := (utf8 t).length

/-! ### The scripts -/

variable (printable : Char → Bool)

def setPath : Text := "import base64, os\nremote_path = ".toList

def joinName : Text :=
  text ["\nif os.path.isdir(remote_path):\n", "    remote_path = os.path.join(remote_path, "]

def setData : Text := ")\ndata = base64.b64decode(".toList

def writeData : Text :=
  text [")\nwith open(remote_path, 'wb') as f:\n", "    f.write(data)\n", "print(remote_path)\n"]

def buildUploadScript (remotePath filename : Text) (data : List UInt8) : Text :=
  setPath ++ repr printable remotePath ++ joinName ++ repr printable filename ++ setData ++
    repr printable (encode data) ++ writeData

def stubHead : Text := "import base64;exec(base64.b64decode('".toList

def stubTail : Text := "').decode())".toList

/-- The argument of `python3 -c` that runs an encoded script. -/
def stub (encoded : Text) : Text :=
  stubHead ++ encoded ++ stubTail

def callPython : Text := "python3 -c \"".toList

def wrapPythonScript (script : Text) : Text :=
  callPython ++ (stub (encode (utf8 script)) ++ ['"'])

def queueAgentUpload (remotePath filename : Text) (data : List UInt8) : Except String Text :=
  if transferLimit < data.length then
    .error <| s!"File is {data.length} bytes - agent-host uploads are limited to " ++
      s!"{transferLimit} bytes. SSH hosts have no such limit."
  else .ok (wrapPythonScript (buildUploadScript printable remotePath filename data))

/-! ### On the agent -/

/-- What a script does to the host: a file it writes. -/
structure Write where
  path : Text
  bytes : List UInt8

/-- How the agent elevates a command that is run as a user. -/
inductive Become where
  | no
  | sudo
  | password

/-- Whom the agent runs a task as; `root` is whether the agent itself is. -/
inductive Mode where
  | agent (root : Bool)
  | user (name : Text) (root : Bool) (become : Become)

def Become.words : Become → List Text
  | .no => []
  | .sudo => ["sudo".toList, "-n".toList]
  | .password => ["sudo".toList, "-S".toList, "-p".toList, []]

def callSudo : Text := "sudo -n bash -c ".toList

/-- The arguments that `run_command` executes. -/
def Mode.argv : Mode → Text → List Text
  | .agent true, cmd => ["/bin/sh".toList, "-c".toList, cmd]
  | .agent false, cmd => ["/bin/sh".toList, "-c".toList, callSudo ++ quote cmd]
  | .user name root become, cmd =>
    (if root then [] else ["sudo".toList, "-n".toList]) ++
      ["runuser".toList, "-u".toList, name, "--".toList] ++ become.words ++
      ["bash".toList, "-c".toList, cmd]

/-- The words of a command, with the one that is being read. -/
def wordsFrom : Option Text → List Event → List Text
  | cur, [] => cur.toList
  | cur, .char c :: rest => wordsFrom (some (cur.getD [] ++ [c])) rest
  | cur, .quote :: rest => wordsFrom (some (cur.getD [])) rest
  | cur, _ :: rest => cur.toList ++ wordsFrom none rest

def inWords : Event → Bool
  | .char _ | .quote | .gap => true
  | _ => false

/-- The words of a command line that is one simple command. -/
def simpleWords (command : Text) : Option (List Text) :=
  if (read start command).2.all inWords && (read start command).1.complete then
    some (wordsFrom none (read start command).2)
  else none

/-- A shell runs the command; `python` is what the interpreter does with a script. -/
def runShell (python : Text → Option Write) (command : Text) : Option Write :=
  match simpleWords command with
  | some [program, option, script] =>
    if program = "python3".toList ∧ option = "-c".toList then python script else none
  | _ => none

def Mode.run (python : Text → Option Write) : Mode → Text → Option Write
  | .agent false, cmd =>
    match simpleWords (callSudo ++ quote cmd) with
    | some [_, _, _, _, command] => runShell python command
    | _ => none
  | _, cmd => runShell python cmd

/-- What the upload script says: the decoded content goes to the path, or under it. -/
def uploadEffect (isdir : Text → Bool) (remotePath filename encoded : Text) : Option Write :=
  (decode encoded).map fun bytes =>
    ⟨if isdir remotePath then join remotePath filename else remotePath, bytes⟩

/-- Python on the scripts of one upload: `exec` of a decoded script is the script, and the upload
script does what it says. -/
structure RunsUpload (python : Text → Option Write) (isdir : Text → Bool)
    (remotePath filename : Text) (data : List UInt8) : Prop where
  exec : ∀ encoded bytes, decode encoded = some bytes →
    fromUtf8 bytes = some (buildUploadScript printable remotePath filename data) →
    python (stub encoded) = python (buildUploadScript printable remotePath filename data)
  script : python (buildUploadScript printable remotePath filename data) =
    uploadEffect isdir remotePath filename (encode data)

/-! ### Downloads -/

def truncate (s : Text) : Text :=
  if s.length ≤ maxOutput then s
  else s.take maxOutput ++ s!"\n...[truncated, {s.length - maxOutput} more bytes]".toList

/-- What the download script prints for a file. -/
def downloadOutput (data : List UInt8) : Option Text :=
  if transferLimit < data.length then none else some (encode data ++ ['\n'])

def pollAgentDownload (stdout : Text) : Option (List UInt8) := decode (stripText stdout)

/-! ### Sizes -/

variable {printable} {a b x : Text} {c : Char} {data : List UInt8} {remotePath filename : Text}

theorem size_append (a b : Text) : size (a ++ b) = size a + size b := by
  simp [size, utf8]

theorem size_cons (c : Char) (a : Text) : size (c :: a) = size [c] + size a :=
  size_append [c] a

theorem size_of_ascii (h : ∀ c ∈ x, (String.utf8EncodeChar c).length = 1) : size x = x.length := by
  induction x with
  | nil => rfl
  | cons c rest ih =>
    have hc : size [c] = 1 := by simpa [size, utf8] using h c List.mem_cons_self
    rw [size_cons, hc, ih fun d hd => h d (List.mem_cons_of_mem c hd), List.length_cons]
    omega

theorem length_le_size (x : Text) : x.length ≤ size x := by
  induction x with
  | nil => exact Nat.zero_le _
  | cons c rest ih =>
    have hpos : 0 < (String.utf8EncodeChar c).length := by
      rw [String.length_utf8EncodeChar]
      exact c.utf8Size_pos
    have hc : size [c] = (String.utf8EncodeChar c).length := by simp [size, utf8]
    rw [size_cons, List.length_cons]
    omega

/-- A base64 character stands for itself wherever it is put. -/
theorem base64_plain (h : c ∈ encode data) :
    (String.utf8EncodeChar c).length = 1 ∧ reprChar printable '\'' c = [c] ∧ isSpace c = false ∧
      c ∉ "'\"\\$\x60".toList := by
  have hall : (('=' :: alphabet).all fun d => (String.utf8EncodeChar d).length = 1 ∧
      reprChar (fun _ => false) '\'' d = [d] ∧ isSpace d = false ∧
      ("'\"\\$\x60".toList.contains d) = false ∧ d.toNat < 0x7f ∧
      reprChar (fun _ => true) '\'' d = [d]) = true := by decide
  have hc := List.all_eq_true.mp hall c (mem_encode h)
  simp only [decide_eq_true_eq] at hc
  obtain ⟨hsize, hrepr, hspace, hmark, hlow, -⟩ := hc
  refine ⟨hsize, ?_, hspace, by simpa using hmark⟩
  rw [← hrepr]
  unfold reprChar
  simp only [hlow, true_or, if_true]

theorem size_encode (data : List UInt8) : size (encode data) = 4 * ((data.length + 2) / 3) := by
  rw [size_of_ascii fun c hc => (@base64_plain (fun _ => false) c data hc).1, length_encode]

theorem repr_encode (data : List UInt8) :
    repr printable (encode data) = '\'' :: (encode data ++ ['\'']) := by
  have hquote : '\'' ∉ encode data := fun hc =>
    absurd (@base64_plain printable _ data hc).2.2.2 (by decide)
  have hself : (encode data).flatMap (reprChar printable '\'') = encode data := by
    rw [List.flatMap_congr fun c hc => (base64_plain hc).2.1]
    exact List.flatMap_singleton' _
  simp only [PythonRepr.repr, hquote, false_and, if_false, hself]

/-- The bytes of the upload script. -/
theorem size_script : size (buildUploadScript printable remotePath filename data) =
    size (repr printable remotePath) + size (repr printable filename) +
      4 * ((data.length + 2) / 3) + 210 := by
  have h1 : size setPath = 32 := by decide
  have h2 : size joinName = 76 := by decide
  have h3 : size setData = 26 := by decide
  have h4 : size writeData = 74 := by decide
  have h5 : size ['\''] = 1 := by decide
  rw [buildUploadScript, size_append, size_append, size_append, size_append, size_append,
    size_append, h1, h2, h3, h4, repr_encode, size_cons, size_append, size_encode, h5]
  clear h1 h2 h3 h4 h5
  generalize size (repr printable remotePath) = path
  generalize size (repr printable filename) = name
  omega

/-- The bytes of the command for a script. -/
theorem size_wrap (script : Text) :
    size (wrapPythonScript script) = 4 * ((size script + 2) / 3) + 62 := by
  have h1 : size callPython = 12 := by decide
  have h2 : size stubHead = 37 := by decide
  have h3 : size stubTail = 12 := by decide
  have h4 : size ['"'] = 1 := by decide
  rw [wrapPythonScript, stub, size_append, size_append, size_append, size_append, h1, h2, h3, h4,
    size_encode, ← size]
  clear h1 h2 h3 h4
  generalize size script = n
  omega

/-! ### What the shell reads -/

def inDouble : State := ⟨.double, [], []⟩

theorem read_double (h : ∀ c ∈ x, c ∉ "\"\\$\x60".toList) :
    read inDouble x = (inDouble, x.map .char) := by
  induction x with
  | nil => rfl
  | cons c rest ih =>
    have hc := h c List.mem_cons_self
    have hstep : step inDouble c = (inDouble, [.char c]) := by
      simp only [String.reduceToList, List.mem_cons, List.not_mem_nil, or_false, not_or] at hc
      simp [step, inDouble, dquoted, hc]
    rw [ShellReader.read, hstep, ih fun d hd => h d (List.mem_cons_of_mem c hd)]
    rfl

theorem wordsFrom_char (cur : Option Text) (c : Char) (rest : List Event) :
    wordsFrom cur (.char c :: rest) = wordsFrom (some (cur.getD [] ++ [c])) rest := rfl

theorem wordsFrom_spelling {x : Text} {es : List Event} (h : Spelling x es) (cur : Text)
    (rest : List Event) :
    wordsFrom (some cur) (es ++ rest) = wordsFrom (some (cur ++ x)) rest := by
  induction h generalizing cur with
  | nil => simp
  | quote _ ih => exact ih cur
  | @char x es c _ ih =>
    rw [List.cons_append, wordsFrom_char, Option.getD_some, ih, List.append_assoc,
      List.singleton_append]

theorem inWords_spelling {x : Text} {es : List Event} (h : Spelling x es) :
    es.all inWords = true := by
  induction h with
  | nil => rfl
  | quote _ ih => exact ih
  | char _ ih => exact ih

theorem stub_plain (h : c ∈ stub (encode data)) : c ∉ "\"\\$\x60".toList := by
  have hhead : (stubHead.all fun d => !"\"\\$\x60".toList.contains d) = true := by decide
  have htail : (stubTail.all fun d => !"\"\\$\x60".toList.contains d) = true := by decide
  rcases List.mem_append.mp h with h | h
  · rcases List.mem_append.mp h with h | h
    · simpa using List.all_eq_true.mp hhead c h
    · intro hmark
      exact (@base64_plain (fun _ => false) c data h).2.2.2 (List.mem_cons_of_mem _ hmark)
  · simpa using List.all_eq_true.mp htail c h

theorem simpleWords_wrap (script : Text) : simpleWords (wrapPythonScript script) =
    some ["python3".toList, "-c".toList, stub (encode (utf8 script))] := by
  have hhead : (read start callPython).1 = inDouble := by decide
  have hplain : (read start callPython).2.all inWords = true := by decide
  have hwords : ∀ rest, wordsFrom none ((read start callPython).2 ++ rest) =
      "python3".toList :: "-c".toList :: wordsFrom (some []) rest := fun _ => rfl
  have hstub := @read_double (stub (encode (utf8 script))) fun c => stub_plain
  have hlast : read inDouble ['"'] = (⟨.word, [], []⟩, []) := by decide
  have hread : read start (wrapPythonScript script) = (⟨.word, [], []⟩,
      (read start callPython).2 ++ ((stub (encode (utf8 script))).map .char ++ [])) := by
    rw [wrapPythonScript, read_append, hhead, read_append, hstub, hlast]
  rw [simpleWords, hread]
  have hchars := spelling_chars (stub (encode (utf8 script)))
  simp only [List.all_append, hplain, inWords_spelling hchars, hwords, wordsFrom_spelling hchars]
  rfl

/-- A command for the shell of a user in a command for the agent's own. -/
theorem simpleWords_sudo {cmd : Text} (hq : quote cmd = '\'' :: (escaped cmd ++ ['\''])) :
    simpleWords (callSudo ++ quote cmd) =
      some ["sudo".toList, "-n".toList, "bash".toList, "-c".toList, cmd] := by
  have hhead : (read start (callSudo ++ ['\''])).1 = ⟨.single, [], []⟩ := by decide
  have hplain : (read start (callSudo ++ ['\''])).2.all inWords = true := by decide
  have hwords : ∀ rest, wordsFrom none ((read start (callSudo ++ ['\''])).2 ++ rest) =
      "sudo".toList :: "-n".toList :: "bash".toList :: "-c".toList :: wordsFrom (some []) rest :=
    fun _ => rfl
  obtain ⟨es, hes, hspell⟩ := spelling_escaped cmd
  have hsplit : callSudo ++ quote cmd = (callSudo ++ ['\'']) ++ (escaped cmd ++ ['\'']) := by
    rw [hq]
    simp
  have hread : read start (callSudo ++ quote cmd) = (⟨.word, [], []⟩,
      (read start (callSudo ++ ['\''])).2 ++ (es ++ [])) := by
    rw [hsplit, read_append, hhead, hes, List.append_nil]
  rw [simpleWords, hread]
  simp only [List.all_append, hplain, inWords_spelling hspell, hwords, wordsFrom_spelling hspell]
  rfl

theorem quote_wrap (script : Text) : quote (wrapPythonScript script) =
    '\'' :: (escaped (wrapPythonScript script) ++ ['\'']) := by
  have hsafe : callPython.all safe = false := by decide
  have hne : callPython ≠ [] := by decide
  rw [quote, if_neg, if_neg, List.cons_append]
  · rw [wrapPythonScript, List.all_append, hsafe, Bool.false_and]
    exact Bool.false_ne_true
  · simp [wrapPythonScript, hne]

/-- The quotes of the command take four bytes more each, within quotes. -/
theorem size_quote_wrap (script : Text) :
    size (quote (wrapPythonScript script)) = size (wrapPythonScript script) + 10 := by
  have hplain : escaped (encode (utf8 script)) = encode (utf8 script) := by
    unfold escaped
    conv_rhs => rw [← List.flatMap_singleton' (encode (utf8 script))]
    refine List.flatMap_congr fun c hc => if_neg ?_
    rintro rfl
    exact absurd (@base64_plain (fun _ => false) _ _ hc).2.2.2 (by decide)
  have happend : ∀ a b, escaped (a ++ b) = escaped a ++ escaped b := fun a b =>
    List.flatMap_append
  have h1 : size (escaped callPython) = size callPython := by decide
  have h2 : size (escaped stubHead) = size stubHead + 4 := by decide
  have h3 : size (escaped stubTail) = size stubTail + 4 := by decide
  have h4 : size (escaped ['"']) = size ['"'] := by decide
  have h5 : size ['\''] = 1 := by decide
  rw [quote_wrap, size_cons, size_append, h5, wrapPythonScript, stub, happend, happend, happend,
    happend, hplain, size_append, size_append, size_append, size_append, size_append, size_append,
    size_append, size_append, h1, h2, h3, h4]
  clear h1 h2 h3 h4 h5 hplain happend
  generalize size callPython = a
  generalize size stubHead = b
  generalize size stubTail = c
  generalize size ['"'] = d
  generalize size (encode (utf8 script)) = e
  omega

/-! ### Whole transfers -/

theorem fromUtf8_utf8 (t : Text) : fromUtf8 (utf8 t) = some t := by
  have hutf8 : (utf8 t).toByteArray = t.utf8Encode := rfl
  rw [fromUtf8, hutf8, List.utf8Decode?_utf8Encode]
  rfl

variable {python : Text → Option Write} {isdir : Text → Bool}

theorem run_wrap (mode : Mode) (script : Text) :
    mode.run python (wrapPythonScript script) = python (stub (encode (utf8 script))) := by
  have hshell : runShell python (wrapPythonScript script) =
      python (stub (encode (utf8 script))) := by
    rw [runShell, simpleWords_wrap]
    exact if_pos ⟨rfl, rfl⟩
  cases mode with
  | agent root =>
    cases root with
    | true => exact hshell
    | false =>
      rw [Mode.run, simpleWords_sudo (quote_wrap script)]
      exact hshell
  | user name root become => exact hshell

/-- An upload does all that is asked of it: the command is accepted, it fits, and it writes the
content. -/
def UploadCarried (printable : Char → Bool) (python : Text → Option Write) (isdir : Text → Bool)
    (mode : Mode) (remotePath filename : Text) (data : List UInt8) : Prop :=
  ∃ cmd, queueAgentUpload printable remotePath filename data = .ok cmd ∧
    cmd.length ≤ commandMax ∧ (∀ arg ∈ mode.argv cmd, size arg + 1 ≤ maxArgument) ∧
    mode.run python cmd =
      some ⟨if isdir remotePath then join remotePath filename else remotePath, data⟩

def DownloadCarried (data : List UInt8) : Prop :=
  ∃ out, downloadOutput data = some out ∧ pollAgentDownload (truncate out) = some data

/-- What the agent adds to the argument that the command is in. -/
def Mode.added : Mode → ℕ
  | .agent false => 26
  | _ => 0

/-- The name of the user is an argument too. -/
def Mode.name : Mode → Text
  | .user name _ _ => name
  | _ => []

/-- The two encodings of the content, and of the path and the name, fit into one argument. -/
def Fits (printable : Char → Bool) (mode : Mode) (remotePath filename : Text) (n : ℕ) : Prop :=
  4 * ((size (repr printable remotePath) + size (repr printable filename) +
    4 * ((n + 2) / 3) + 212) / 3) + 62 + mode.added < maxArgument ∧ size mode.name < maxArgument

theorem argv_fits_iff (mode : Mode) (script : Text) :
    (∀ arg ∈ mode.argv (wrapPythonScript script), size arg + 1 ≤ maxArgument) ↔
      size (wrapPythonScript script) + mode.added < maxArgument ∧ size mode.name < maxArgument := by
  have hname : ∀ n : ℕ, (n + 1 ≤ maxArgument) = (n < maxArgument) := fun n => rfl
  have hsudo : size callSudo = 16 := by decide
  have hnil : size [] < maxArgument := by decide
  have hconst : ∀ word ∈ ["/bin/sh", "-c", "sudo", "-n", "runuser", "-u", "--", "bash", "-S", "-p"],
      size word.toList < maxArgument := by
    intro word hword
    simp only [List.mem_cons, List.not_mem_nil, or_false] at hword
    rcases hword with rfl | rfl | rfl | rfl | rfl | rfl | rfl | rfl | rfl | rfl <;> decide
  simp only [List.forall_mem_cons] at hconst
  obtain ⟨hsh, hc, hsu, hn, hru, hu, hdash, hbash, hS, hp, -⟩ := hconst
  cases mode with
  | agent root =>
    cases root with
    | true =>
      simp only [Mode.argv, List.forall_mem_cons, hname, Mode.added, Mode.name, hsh, hc, hnil,
        true_and, and_true, Nat.add_zero]
      simp
    | false =>
      have hsize : size (callSudo ++ quote (wrapPythonScript script)) =
          size (wrapPythonScript script) + 26 := by
        rw [size_append, hsudo, size_quote_wrap]
        omega
      simp only [Mode.argv, List.forall_mem_cons, hname, Mode.added, Mode.name, hsh, hc, hnil,
        hsize, true_and, and_true]
      simp
  | user name root become =>
    cases root <;> cases become <;>
      simp only [Mode.argv, Become.words, Bool.false_eq_true, if_false, if_true, List.nil_append,
        List.cons_append, List.forall_mem_cons, hname, Mode.added, Mode.name, hsu, hn, hru, hu,
        hdash, hbash, hc, hS, hp, hnil, true_and, Nat.add_zero] <;>
      simp [and_comm]

theorem download_carried (hlimit : data.length ≤ transferLimit) : DownloadCarried data := by
  have hlen : (encode data ++ ['\n']).length ≤ maxOutput := by
    rw [List.length_append, length_encode]
    simp only [transferLimit, maxOutput, List.length_singleton] at hlimit ⊢
    omega
  refine ⟨encode data ++ ['\n'], if_neg (by omega), ?_⟩
  have hspace : ∀ c ∈ encode data, isSpace c = false := fun c hc =>
    (@base64_plain (fun _ => false) c data hc).2.2.1
  have hstrip := stripText_concat hspace (by decide : isSpace '\n' = true)
  rw [truncate, if_pos hlen, pollAgentDownload, hstrip, decode_encode]

/-- There is an interpreter that does with the scripts of an upload what they say. -/
theorem exists_runsUpload (printable : Char → Bool) (isdir : Text → Bool)
    (remotePath filename : Text) (data : List UInt8) :
    ∃ python, RunsUpload printable python isdir remotePath filename data := by
  classical
  let script := buildUploadScript printable remotePath filename data
  refine ⟨fun t => if t = script ∨ ∃ encoded bytes, t = stub encoded ∧ decode encoded = some bytes ∧
    fromUtf8 bytes = some script then uploadEffect isdir remotePath filename (encode data)
    else none, ⟨fun encoded bytes hdecode hutf8 => ?_, if_pos (.inl rfl)⟩⟩
  rw [if_pos (.inr ⟨encoded, bytes, rfl, hdecode, hutf8⟩), if_pos (.inl rfl)]

end AgentTransfer
