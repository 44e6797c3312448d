import SysibleController.PathText

/-! GNU `getopt_long`: the options that a tool receives from its arguments, wherever they stand
among the others. -/
namespace Getopt

open PathText

inductive Arity where
  | none
  | required
  | optional
  deriving DecidableEq

/-- A long option; its code is that of the short option it stands for. -/
structure LongOption where
  name : Text
  arity : Arity
  code : Char
  deriving DecidableEq

/-- An option that a tool has received. -/
structure Opt where
  code : Char
  arg : Option Text
  deriving DecidableEq

/-- The options of a tool. Its long options may depend on what it has received: a tool can load an
extension that brings more of them. -/
structure Tool where
  short : Char → Option Arity
  longs : List Opt → List LongOption

/-- What follows an element: the tool gives up, it goes on with the next element, or with the one
after that. -/
inductive Next where
  | stop
  | go
  | skip
  deriving DecidableEq

/-- A name in full, or one that begins the names of one option only. -/
def resolve (longs : List LongOption) (name : Text) : Option LongOption :=
  match longs.find? (·.name = name) with
  | some o => some o
  | none =>
    match longs.filter fun o => name <+: o.name with
    | [] => none
    | o :: more => if more.all fun p => p.arity = o.arity ∧ p.code = o.code then some o else none

/-- How an element of the arguments looks: an operand, the end of the options, a long option or
short ones. -/
inductive Shape where
  | operand
  | last
  | long (text : Text)
  | short (c : Char) (more : Text)
  deriving DecidableEq

def shape : Text → Shape
  | ['-', '-'] => .last
  | '-' :: '-' :: text => .long text
  | '-' :: c :: more => .short c more
  | _ => .operand

variable (tool : Tool)

/-- The short options of one element; `next` is the element after it. -/
def takeShort (next : Option Text) : Text → List Opt × Next
  | [] => ([], .go)
  | c :: more =>
    match tool.short c with
    | none => ([], .stop)
    | some .none => (⟨c, none⟩ :: (takeShort next more).1, (takeShort next more).2)
    | some .optional => ([⟨c, if more = [] then none else some more⟩], .go)
    | some .required =>
      if more ≠ [] then ([⟨c, some more⟩], .go)
      else
        match next with
        | none => ([], .stop)
        | some v => ([⟨c, some v⟩], .skip)

def longName (text : Text) : Text := text.takeWhile (· ≠ '=')

def longValue (text : Text) : Option Text :=
  if '=' ∈ text then some ((text.dropWhile (· ≠ '=')).drop 1) else none

def takeLong (seen : List Opt) (next : Option Text) (text : Text) : List Opt × Next :=
  match resolve (tool.longs seen) (longName text) with
  | none => ([], .stop)
  | some o =>
    match o.arity, longValue text with
    | .none, none => ([⟨o.code, none⟩], .go)
    | .none, some _ => ([], .stop)
    | .optional, value => ([⟨o.code, value⟩], .go)
    | .required, some v => ([⟨o.code, some v⟩], .go)
    | .required, none =>
      match next with
      | none => ([], .stop)
      | some v => ([⟨o.code, some v⟩], .skip)

/-- What is received from one element. -/
def take (seen : List Opt) (next : Option Text) (e : Text) : List Opt × Next :=
  match shape e with
  | .operand => ([], .go)
  | .last => ([], .stop)
  | .long text => takeLong tool seen next text
  | .short c more => takeShort tool next (c :: more)

def receive (seen : List Opt) : List Text → List Opt
  | [] => seen
  | e :: rest =>
    match take tool seen rest.head? e with
    | (os, .stop) => seen ++ os
    | (os, .go) => receive (seen ++ os) rest
    | (os, .skip) =>
      match rest with
      | [] => seen ++ os
      | _ :: rest => receive (seen ++ os) rest

/-- An element that is taken for an option or for an operand, and where. -/
structure Visit where
  seen : List Opt
  next : Option Text
  element : Text

def visits (seen : List Opt) : List Text → List Visit
  | [] => []
  | e :: rest =>
    ⟨seen, rest.head?, e⟩ ::
      match take tool seen rest.head? e with
      | (_, .stop) => []
      | (os, .go) => visits (seen ++ os) rest
      | (os, .skip) =>
        match rest with
        | [] => []
        | _ :: rest => visits (seen ++ os) rest

def Visit.gains (v : Visit) : List Opt := (take tool v.seen v.next v.element).1

variable {tool} {seen : List Opt} {args : List Text} {p : Opt → Bool}

/-- The options of a kind that are received are those that the elements bring. -/
theorem filter_receive (seen : List Opt) (args : List Text) : (receive tool seen args).filter p =
    seen.filter p ++ (visits tool seen args).flatMap fun v => (v.gains tool).filter p := by
  induction args using List.twoStepInduction generalizing seen with
  | nil => simp [receive, visits]
  | singleton e =>
    rw [receive.eq_def, visits.eq_def]
    rcases hstep : take tool seen none e with ⟨os, next⟩
    cases next <;> simp [hstep, receive, visits, Visit.gains]
  | cons_cons e f rest ih ih' =>
    rw [receive.eq_def, visits.eq_def]
    rcases hstep : take tool seen (some f) e with ⟨os, next⟩
    cases next with
    | stop => simp [hstep, Visit.gains]
    | go => simp [hstep, Visit.gains, ih']
    | skip => simp [hstep, Visit.gains, ih]

theorem mem_of_mem_visits {v : Visit} (h : v ∈ visits tool seen args) : v.element ∈ args := by
  induction args using List.twoStepInduction generalizing seen with
  | nil => exact nomatch h
  | singleton e =>
    rw [visits.eq_def] at h
    rcases hstep : take tool seen none e with ⟨os, next⟩
    cases next <;> simp_all [visits]
  | cons_cons e f rest ih ih' =>
    rw [visits.eq_def] at h
    rcases hstep : take tool seen (some f) e with ⟨os, next⟩
    simp only [List.head?_cons, hstep, List.mem_cons] at h
    rcases h with rfl | h
    · exact List.mem_cons_self
    · cases next with
      | stop => exact nomatch h
      | go => exact List.mem_cons_of_mem _ (ih' f h)
      | skip => exact List.mem_cons_of_mem _ (List.mem_cons_of_mem _ (ih h))

/-- A short option and its argument. -/
theorem receive_short_arg {e v : Text} {rest : List Text} {c : Char} (hs : shape e = .short c [])
    (hc : tool.short c = some .required) :
    receive tool seen (e :: v :: rest) = receive tool (seen ++ [⟨c, some v⟩]) rest := by
  have htake : take tool seen (some v) e = ([⟨c, some v⟩], .skip) := by
    simp only [take, hs, takeShort, hc]
    rfl
  rw [receive.eq_def]
  simp [htake]

end Getopt
