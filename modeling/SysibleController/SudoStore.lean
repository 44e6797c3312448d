import SysibleController.KeyedTable
import SysibleController.CallMachine
import Mathlib.Data.List.Dedup

/-! The encrypted store of sudo passwords (`webgui/sudo_store.py`). New entries are written under
the key of the best custody there is, reads try every key still in custody, and the custody may
change between any two calls. The cipher is a parameter. -/
namespace SudoStore

open KeyedTable TransitionSystem

/-- `Fernet(key).encrypt` and `.decrypt`: authenticated, so a token opens under its own key
alone. The number is the randomness of an encryption; `none` is an exception. -/
structure Fernet (κ τ : Type) where
  encrypt : κ → ℕ → String → Option τ
  decrypt : κ → τ → Option String
  decrypt_encrypt : ∀ k n p t, encrypt k n p = some t → decrypt k t = some p
  decrypt_other : ∀ k j n p t, encrypt k n p = some t → j ≠ k → decrypt j t = none

variable {κ τ : Type} [DecidableEq κ]

structure ScopeToken (τ : Type) where
  scope : String
  token : τ

abbrev Scopes (τ : Type) := Table (ScopeToken.scope (τ := τ))

structure UserTokens (τ : Type) where
  user : String
  scopes : Scopes τ

abbrev Data (τ : Type) := Table (UserTokens.user (τ := τ))

/-- `run/webgui_sudo.key`. An unusable file is a symlink, unreadable or empty: it yields no key
and `O_EXCL` refuses to create another over it. -/
inductive KeyFile (κ : Type) where
  | absent
  | unusable
  | holds (key : κ)

def KeyFile.key : KeyFile κ → Option κ
  | .holds k => some k
  | _ => none

/-- `derived` is the master-derived key, if a master key can be resolved. -/
structure Store (κ τ : Type) where
  data : Data τ
  haveFernet : Bool
  derived : Option κ
  keyFile : KeyFile κ

def fleet : String := "__all__"

/-- `_primary_key`; `fresh` is the key `generate_key` would write, `none` if the file cannot be
created. -/
def primaryKey (s : Store κ τ) (fresh : Option κ) : Option κ × KeyFile κ :=
  if !s.haveFernet then (none, s.keyFile)
  else match s.derived, s.keyFile, fresh with
    | some k, file, _ => (some k, file)
    | none, .holds k, _ => (some k, .holds k)
    | none, .unusable, _ => (none, .unusable)
    | none, .absent, some k => (some k, .holds k)
    | none, .absent, none => (none, .absent)

def readKeys (s : Store κ τ) : List κ :=
  if !s.haveFernet then [] else (s.derived.toList ++ s.keyFile.key.toList).dedup

def userScopes (data : Data τ) (user : String) : Scopes τ :=
  ((data.find user).map UserTokens.scopes).getD Table.empty

variable (F : Fernet κ τ)

/-- `set_password`; the answer `none` is an exception of the cipher. -/
def setPassword (s : Store κ τ) (user scope password : String) (nonce : ℕ) (fresh : Option κ) :
    Option Bool × Store κ τ :=
  if password = "" then (some false, s)
  else match primaryKey s fresh with
    | (none, file) => (some false, { s with keyFile := file })
    | (some k, file) =>
      match F.encrypt k nonce password with
      | none => (none, { s with keyFile := file })
      | some token =>
        (some true, { s with
          keyFile := file
          data := s.data.put ⟨user, (userScopes s.data user).put ⟨scope, token⟩⟩ })

/-- The first key that opens the token decides. -/
def openToken (keys : List κ) (token : τ) : Option String := keys.findSome? (F.decrypt · token)

def storedToken (s : Store κ τ) (user scope : String) : Option τ :=
  ((userScopes s.data user).find scope).map ScopeToken.token

def getPassword (s : Store κ τ) (user scope : String) : Option String :=
  if !s.haveFernet then none else (storedToken s user scope).bind (openToken F (readKeys s))

/-- Python's `or` passes over an empty text as well. -/
def resolve (s : Store κ τ) (user hostLabel : String) : Option String :=
  match getPassword F s user hostLabel with
  | some p => if p = "" then getPassword F s user fleet else some p
  | none => getPassword F s user fleet

def clear (s : Store κ τ) (user : String) (scope : Option String) : Store κ τ :=
  match s.data.find user with
  | none => s
  | some rec =>
    match scope with
    | none => { s with data := s.data.deleteWhere fun r => r.user = user }
    | some scope =>
      let left := rec.scopes.deleteWhere fun e => e.scope = scope
      if left.rows = [] then { s with data := s.data.deleteWhere fun r => r.user = user }
      else { s with data := s.data.put ⟨user, left⟩ }

/-- Besides the calls of the store, the custody changes under it: the cipher library, the master
key and the key file come and go. -/
inductive Call (κ : Type) where
  | set (user scope password : String) (nonce : ℕ) (fresh : Option κ)
  | clear (user : String) (scope : Option String)
  | custody (haveFernet : Bool) (derived : Option κ) (keyFile : KeyFile κ)

/-- What a step shows: a password stored, and the key it was stored under. -/
inductive Event (κ : Type) where
  | silent
  | stored (user scope password : String) (key : κ)
  | cleared (user : String) (scope : Option String)

def act (s : Store κ τ) : Call κ → Event κ × Store κ τ
  | .set user scope password nonce fresh =>
    match setPassword F s user scope password nonce fresh, (primaryKey s fresh).1 with
    | (some true, s'), some k => (.stored user scope password k, s')
    | (_, s'), _ => (.silent, s')
  | .clear user scope => (.cleared user scope, clear s user scope)
  | .custody haveFernet derived keyFile => (.silent, { s with haveFernet, derived, keyFile })

def Store.empty : Store κ τ := ⟨Table.empty, true, none, .absent⟩

abbrev machine : Machine (Store κ τ) (Event κ) := ofCalls Store.empty (act F)

/-! ### The store against the last password set -/

/-- The abstract store: for each entry the password last set, with its key. -/
abbrev Ledger (κ : Type) := String → String → Option (String × κ)

def Ledger.note (l : Ledger κ) : Event κ → Ledger κ
  | .silent => l
  | .stored user scope password key => fun u c =>
    if u = user ∧ c = scope then some (password, key) else l u c
  | .cleared user scope => fun u c =>
    if u = user ∧ scope.all (c = ·) then none else l u c

def ledger (es : List (Event κ)) : Ledger κ := es.foldl Ledger.note fun _ _ => none

variable {F} {s s' : Store κ τ} {l : Ledger κ} {es : List (Event κ)} {user scope : String}

/-- The token of an entry encrypts the password of the ledger under its key. -/
def Keeps (F : Fernet κ τ) (l : Ledger κ) (s : Store κ τ) : Prop :=
  ∀ u c, match storedToken s u c, l u c with
    | none, none => True
    | some t, some (p, k) => p ≠ "" ∧ ∃ n, F.encrypt k n p = some t
    | _, _ => False

/-- Deleting the row of one key. -/
theorem find_deleteKey {ρ ι : Type} [DecidableEq ι] {key : ρ → ι} (t : Table key) (k j : ι) :
    (t.deleteWhere fun r => key r = k).find j = if j = k then none else t.find j := by
  rw [Table.find_deleteWhere]
  cases hr : t.find j with
  | none => simp
  | some r => by_cases hj : j = k <;> simp [Option.filter, Table.key_of_find hr, hj]

omit [DecidableEq κ] in
theorem storedToken_put (s : Store κ τ) (file : KeyFile κ) (token : τ) (u c : String) :
    storedToken { s with
      keyFile := file
      data := s.data.put ⟨user, (userScopes s.data user).put ⟨scope, token⟩⟩ } u c =
    if u = user ∧ c = scope then some token else storedToken s u c := by
  unfold storedToken userScopes
  by_cases hu : u = user
  · subst hu
    by_cases hc : c = scope <;> simp [hc]
  · simp [hu]

omit [DecidableEq κ] in
theorem storedToken_clear (s : Store κ τ) (gone : Option String) (u c : String) :
    storedToken (clear s user gone) u c =
      if u = user ∧ gone.all (c = ·) then none else storedToken s u c := by
  unfold clear storedToken
  cases hrec : s.data.find user with
  | none =>
    by_cases hu : u = user
    · subst hu
      simp [userScopes, hrec]
    · simp [hu]
  | some rec =>
    have gone_user : ∀ u, userScopes (s.data.deleteWhere fun r => r.user = user) u =
        if u = user then Table.empty else userScopes s.data u := by
      intro u
      unfold userScopes
      rw [find_deleteKey]
      split_ifs <;> rfl
    have own : userScopes s.data user = rec.scopes := by simp [userScopes, hrec]
    cases gone with
    | none =>
      by_cases hu : u = user <;> simp [gone_user, hu]
    | some scope =>
      have left : ∀ c, (rec.scopes.deleteWhere fun e => e.scope = scope).find c =
          if c = scope then none else rec.scopes.find c := find_deleteKey rec.scopes scope
      dsimp only
      split_ifs with hnone hboth hboth
      · -- the last scope of the user is gone, so the other scopes hold nothing either
        simp [gone_user, hboth.1]
      · by_cases hu : u = user
        · have hc : c ≠ scope := by simpa [hu] using hboth
          have hempty := left c
          rw [if_neg hc, Table.find, hnone] at hempty
          simp [gone_user, hu, own, ← hempty]
        · simp [gone_user, hu]
      · obtain ⟨rfl, hc⟩ := hboth
        simp only [Option.all_some, decide_eq_true_eq] at hc
        simp [userScopes, left, hc]
      · by_cases hu : u = user
        · have hc : c ≠ scope := by simpa [hu] using hboth
          subst hu
          simp [userScopes, left, hc, hrec]
        · simp [userScopes, hu]

/-- What a call of the store does, seen through the tokens it holds. -/
inductive Did (F : Fernet κ τ) (s s' : Store κ τ) : Event κ → Prop where
  | silent (h : ∀ u c, storedToken s' u c = storedToken s u c) : Did F s s' .silent
  | stored (user scope password : String) (key : κ) (nonce : ℕ) (token : τ)
      (hp : password ≠ "") (ht : F.encrypt key nonce password = some token)
      (h : ∀ u c, storedToken s' u c =
        if u = user ∧ c = scope then some token else storedToken s u c) :
      Did F s s' (.stored user scope password key)
  | cleared (user : String) (scope : Option String)
      (h : ∀ u c, storedToken s' u c =
        if u = user ∧ scope.all (c = ·) then none else storedToken s u c) :
      Did F s s' (.cleared user scope)

omit [DecidableEq κ] in
theorem act_did (s : Store κ τ) (c : Call κ) : Did F s (act F s c).2 (act F s c).1 := by
  cases c with
  | clear user scope => exact .cleared user scope fun u c => storedToken_clear s scope u c
  | custody haveFernet derived keyFile => exact .silent fun u c => rfl
  | set user scope password nonce fresh =>
    by_cases hp : password = ""
    · simp only [act, setPassword, if_pos hp]
      exact .silent fun u c => rfl
    · cases hk : primaryKey s fresh with
      | mk key file =>
        cases key with
        | none =>
          simp only [act, setPassword, if_neg hp, hk]
          exact .silent fun u c => rfl
        | some k =>
          cases ht : F.encrypt k nonce password with
          | none =>
            simp only [act, setPassword, if_neg hp, hk, ht]
            exact .silent fun u c => rfl
          | some token =>
            simp only [act, setPassword, if_neg hp, hk, ht]
            exact .stored user scope password k nonce token hp ht
              fun u c => storedToken_put s file token u c

omit [DecidableEq κ] in
theorem keeps_step {e : Event κ} (hd : Did F s s' e) (h : Keeps F l s) :
    Keeps F (l.note e) s' := by
  intro u c
  have hold := h u c
  cases hd with
  | silent h => simpa only [Ledger.note, h u c] using hold
  | stored user scope password key nonce token hp ht h =>
    rw [h u c]
    by_cases huc : u = user ∧ c = scope
    · simp only [Ledger.note, if_pos huc]
      exact ⟨hp, nonce, ht⟩
    · simpa only [Ledger.note, if_neg huc] using hold
  | cleared user scope h =>
    rw [h u c]
    by_cases huc : u = user ∧ scope.all (c = ·)
    · simp only [Ledger.note, if_pos huc]
    · simpa only [Ledger.note, if_neg huc] using hold

omit [DecidableEq κ] in
theorem keeps_run (h : (machine F).Run Store.empty es s) : Keeps F (ledger es) s := by
  refine ofCalls_history (fun es s => Keeps F (ledger es) s) h (fun u c => trivial) fun es t c _ hk => ?_
  rw [ledger, List.foldl_append]
  exact keeps_step (act_did t c) hk

theorem openToken_own {keys : List κ} {k : κ} {n : ℕ} {p : String} {t : τ}
    (ht : F.encrypt k n p = some t) :
    openToken F keys t = if k ∈ keys then some p else none := by
  unfold openToken
  induction keys with
  | nil => rfl
  | cons j keys ih =>
    by_cases hj : j = k
    · subst hj
      simp [F.decrypt_encrypt j n p t ht]
    · rw [List.findSome?_cons, F.decrypt_other k j n p t ht hj, ih]
      simp [Ne.symm hj]

/-- What the last set password is worth under the keys in custody. -/
def readable (keys : List κ) (entry : Option (String × κ)) : Option String :=
  entry.bind fun e => if e.2 ∈ keys then some e.1 else none

theorem Keeps.getPassword (h : Keeps F l s) (user scope : String) :
    getPassword F s user scope = readable (readKeys s) (l user scope) := by
  have hk := h user scope
  unfold SudoStore.getPassword readable
  cases htok : storedToken s user scope with
  | none =>
    cases hl : l user scope with
    | none => simp
    | some e => simp [htok, hl] at hk
  | some t =>
    cases hl : l user scope with
    | none => simp [htok, hl] at hk
    | some e =>
      obtain ⟨p, k⟩ := e
      simp only [htok, hl] at hk
      obtain ⟨-, n, ht⟩ := hk
      by_cases hf : s.haveFernet
      · simp [hf, openToken_own ht]
      · simp [hf, readKeys]

/-- Over every run, with the custody changing between the calls: a read answers the password
last set for the entry exactly while the key it was stored under is in custody, and nothing
else ever. -/
theorem getPassword_last (h : (machine F).Run Store.empty es s) (user scope : String) :
    getPassword F s user scope = readable (readKeys s) (ledger es user scope) :=
  (keeps_run h).getPassword user scope

/-- A cipher whose token shows the key beside the text. -/
def openFernet : Fernet ℕ (ℕ × String) where
  encrypt k _ p := some (k, p)
  decrypt k t := if t.1 = k then some t.2 else none
  decrypt_encrypt k n p t h := by
    obtain rfl := Option.some.inj h
    exact if_pos rfl
  decrypt_other k j n p t h hj := by
    obtain rfl := Option.some.inj h
    exact if_neg (Ne.symm hj)

/-- A password is set before the master key is there, another after it, and the master key is
lost again. -/
def migration : List (Call ℕ) :=
  [.set "ada" fleet "old" 0 (some 7), .custody true (some 9) (.holds 7),
   .set "ada" "web" "new" 0 none, .custody true none (.holds 7)]

theorem getPassword_last_migration :
    ledger (perform (act openFernet) Store.empty migration).1 "ada" "web" = some ("new", 9) ∧
    getPassword openFernet (perform (act openFernet) Store.empty migration).2 "ada" "web" = none ∧
    getPassword openFernet (perform (act openFernet) Store.empty migration).2 "ada" fleet =
      readable (readKeys (perform (act openFernet) Store.empty migration).2)
        (ledger (perform (act openFernet) Store.empty migration).1 "ada" fleet) :=
  ⟨by decide, by decide, getPassword_last (perform_run _ (act openFernet) Store.empty migration) _ _⟩

/-- The password a host is run with: the entry of the host if it can be read, else the one of
the fleet. -/
theorem resolve_host_first (h : (machine F).Run Store.empty es s) (user host : String) :
    resolve F s user host = (readable (readKeys s) (ledger es user host)).or
      (readable (readKeys s) (ledger es user fleet)) := by
  have hkeeps := keeps_run h
  have hk := hkeeps user host
  unfold resolve
  rw [hkeeps.getPassword, hkeeps.getPassword]
  cases hr : readable (readKeys s) (ledger es user host) with
  | none => simp
  | some p =>
    have hne : p ≠ "" := by
      cases hl : ledger es user host with
      | none => simp [hl, readable] at hr
      | some e =>
        obtain ⟨q, k⟩ := e
        cases htok : storedToken s user host with
        | none => simp [htok, hl] at hk
        | some t =>
          simp only [htok, hl] at hk
          have : q = p := by
            simp only [hl, readable, Option.bind_some] at hr
            split_ifs at hr
            exact Option.some.inj hr
          exact this ▸ hk.1
    simp [hne]

theorem resolve_host_first_migration :
    resolve openFernet (perform (act openFernet) Store.empty migration).2 "ada" "web" =
      (readable (readKeys (perform (act openFernet) Store.empty migration).2)
        (ledger (perform (act openFernet) Store.empty migration).1 "ada" "web")).or
      (readable (readKeys (perform (act openFernet) Store.empty migration).2)
        (ledger (perform (act openFernet) Store.empty migration).1 "ada" fleet)) :=
  resolve_host_first (perform_run _ (act openFernet) Store.empty migration) "ada" "web"

end SudoStore
