import SysibleController.AtomicSteps
import SysibleController.PathText
import SysibleController.PythonStrip
import Mathlib.Data.List.DropRight
import Mathlib.Data.List.TakeDrop

/-! The TLS identity of the controller: the two calls that replace it, one file after the
other. The reading of PEM text and the making of keys and certificates belong to the
cryptography package; of the directory, the names and contents are kept, since no step depends
on a mode. A file remembers all the bytes it was opened to hold. -/
namespace TlsIdentity

open AtomicSteps

abbrev Bytes := List UInt8

/-- `data.rstrip(b"\n")`. -/
def rstrip (data : Bytes) : Bytes := data.rdropWhile fun b => b == 10

structure Certificate (P : Type) where
  publicKey : P
  notBefore : ℤ
  notAfter : ℤ

/-- Readers of PEM text. What comes after the first certificate does not change it, and neither
do the line ends behind it. -/
structure Pem (P : Type) where
  loadCert : Bytes → Option (Certificate P)
  loadKey : Bytes → Option P
  loadChain : Bytes → Option (List (Certificate P))
  first : Bytes → Option P
  first_append : ∀ data c rest, loadCert data = some c →
    first (rstrip data ++ 10 :: rest) = some c.publicKey

inductive AltName where
  | address (text : List Char)
  | dns (text : List Char)
  deriving DecidableEq

/-- The making of a key and of a certificate for it, which a name may prevent. -/
structure Maker {P : Type} (pem : Pem P) where
  isAddress : List Char → Bool
  make : List AltName → ℤ → Option (Bytes × Bytes)
  matching : ∀ san days cert key, make san days = some (cert, key) →
    ∃ p, pem.first cert = some p ∧ pem.loadKey key = some p

variable {P ε : Type} {pem : Pem P}

inductive Invalid where
  | unreadableCertificate
  | unreadableKey
  | keyDoesNotMatch
  | expired
  | notYetValid
  | unreadableChain
  | notMade
  deriving DecidableEq

/-- `if chain_pem`. -/
def given (chain : Option Bytes) : Option Bytes := chain.filter fun data => !data.isEmpty

def validateCertificateBundle [DecidableEq P] (pem : Pem P) (now : ℤ) (certPem keyPem : Bytes)
    (chainPem : Option Bytes) : Except Invalid Unit :=
  match pem.loadCert certPem with
  | none => .error .unreadableCertificate
  | some leaf =>
    match pem.loadKey keyPem with
    | none => .error .unreadableKey
    | some key =>
      if leaf.publicKey ≠ key then .error .keyDoesNotMatch
      else if leaf.notAfter < now then .error .expired
      else if now < leaf.notBefore then .error .notYetValid
      else match given chainPem with
        | none => .ok ()
        | some chain => if (pem.loadChain chain).isSome then .ok () else .error .unreadableChain

/-- The names beside the certificate. -/
inductive Name where
  | certificate
  | key
  | trust
  | temporary (path : Name)
  | backup (path : Name) (time : ℕ)
  deriving DecidableEq

structure File where
  content : Bytes
  whole : Bytes

abbrev Directory := Name → Option File

/-- Fills a temporary file and puts it in place. `os.write` takes `count` bytes of the data at
most; the changes of mode, `fsync` and `close` alter neither names nor contents. -/
def atomicWrite (path : Name) (data : Bytes) (count : ℕ) : Prog Directory ε Unit := do
  Prog.step fun d => .ok (Function.update d (.temporary path) (some ⟨[], data⟩))
  Prog.step fun d => .ok (Function.update d (.temporary path)
    ((d (.temporary path)).map fun f => { f with content := f.content ++ data.take count }))
  Prog.step fun d =>
    .ok (Function.update (Function.update d path (d (.temporary path))) (.temporary path) none)

def backedUp (path : Name) (time : ℕ) (d : Directory) : Directory :=
  match d path with
  | none => d
  | some f => Function.update d (.backup path time) (some f)

def backupIfExists (path : Name) (time : ℕ) : Prog Directory ε Unit :=
  Prog.step fun d => .ok (backedUp path time d)

structure Identity where
  key : Bytes
  certificate : Bytes
  trust : Bytes

/-- How many bytes the three calls of `os.write` may take. -/
structure Counts where
  key : ℕ
  certificate : ℕ
  trust : ℕ

/-- Key first, then the certificate, in a directory that exists. -/
def replaceIdentity (new : Identity) (time : ℕ) (counts : Counts) : Prog Directory ε Unit := do
  backupIfExists .certificate time
  backupIfExists .key time
  backupIfExists .trust time
  atomicWrite .key new.key counts.key
  atomicWrite .certificate new.certificate counts.certificate
  atomicWrite .trust new.trust counts.trust

def fullchain (certPem : Bytes) (chainPem : Option Bytes) : Bytes :=
  match given chainPem with
  | none => rstrip certPem ++ [10]
  | some chain => rstrip certPem ++ [10] ++ (rstrip chain ++ [10])

def installCertificate [DecidableEq P] (pem : Pem P) (now : ℤ) (certPem keyPem : Bytes)
    (chainPem : Option Bytes) : Except Invalid Identity := do
  validateCertificateBundle pem now certPem keyPem chainPem
  .ok ⟨keyPem, fullchain certPem chainPem,
    rstrip ((given chainPem).getD certPem) ++ [10]⟩

/-- `_add`, over the names seen so far. -/
def addName (isAddress : List Char → Bool) (san : List AltName × List (List Char))
    (value : Option (List Char)) : List AltName × List (List Char) :=
  let text := PythonText.stripText (value.getD [])
  if text = [] ∨ text ∈ san.2 then san
  else (san.1 ++ [if isAddress text then .address text else .dns text], text :: san.2)

def altNames (isAddress : List Char → Bool) (hostnames ips : List (Option (List Char))) :
    List AltName :=
  ((some "localhost".toList :: some "127.0.0.1".toList :: hostnames ++ ips).foldl
    (addName isAddress) ([], [])).1

def regenerateSelfSigned {pem : Pem P} (maker : Maker pem)
    (hostnames ips : List (Option (List Char))) (days : ℤ) : Except Invalid Identity :=
  match maker.make (altNames maker.isAddress hostnames ips) days with
  | none => .error .notMade
  | some (cert, key) => .ok ⟨key, cert, cert⟩

inductive Request where
  | install (certPem keyPem : Bytes) (chainPem : Option Bytes)
  | regenerate (hostnames ips : List (Option (List Char))) (days : ℤ)

/-- The identity that a request puts in place, where it is accepted. -/
def Request.identity [DecidableEq P] (maker : Maker pem) (now : ℤ) :
    Request → Except Invalid Identity
  | .install certPem keyPem chainPem => installCertificate pem now certPem keyPem chainPem
  | .regenerate hostnames ips days => regenerateSelfSigned maker hostnames ips days

/-- Both files are complete, and the key is that of the first certificate. -/
def Usable (pem : Pem P) (d : Directory) : Prop :=
  ∃ c k p, d .certificate = some c ∧ d .key = some k ∧ c.content = c.whole ∧
    k.content = k.whole ∧ pem.first c.content = some p ∧ pem.loadKey k.content = some p

/-- The new key is that of the certificate in place. -/
def KeyKept (pem : Pem P) (d : Directory) (new : Identity) : Prop :=
  ∃ c p, d .certificate = some c ∧ pem.first c.content = some p ∧ pem.loadKey new.key = some p

/-- `os.write` took all of the key and all of the certificate. -/
def Counts.Enough (counts : Counts) (new : Identity) : Prop :=
  new.key.length ≤ counts.key ∧ new.certificate.length ≤ counts.certificate

/-! ### The states of a run -/

theorem keepsFrom_bind_iff {σ α β : Type} {I : σ → Prop} {m : Prog σ ε α} {f : α → Prog σ ε β}
    {s : σ} {a : α} (h : (m.run s).result = .ok a) :
    KeepsFrom I (m >>= f) s ↔
      (∀ w ∈ (m.run s).past, I w) ∧ KeepsFrom I (f a) (m.run s).final := by
  unfold KeepsFrom Prog.run at *
  simp only [Bind.bind, h, List.forall_mem_append]
  exact and_assoc

/-- A step before the rest of a program. -/
theorem keepsFrom_step_bind {σ α : Type} {I : σ → Prop} {g : σ → Except ε σ}
    {f : Unit → Prog σ ε α} {s t : σ} (h : g s = .ok t) :
    KeepsFrom I (Prog.step g >>= f) s ↔ I s ∧ KeepsFrom I (f ()) t := by
  have hrun : (Prog.step g : Prog σ ε Unit).run s = ⟨[s], t, .ok ()⟩ := by
    rw [Prog.run, Prog.step, h]
  rw [keepsFrom_bind_iff (by rw [hrun]), hrun]
  simp

theorem ne_temporary (path : Name) : path ≠ .temporary path := by
  induction path with
  | temporary path ih => exact fun h => ih (Name.temporary.inj h)
  | _ => nofun

def placed (path : Name) (data : Bytes) (count : ℕ) (d : Directory) : Directory :=
  Function.update (Function.update d path (some ⟨data.take count, data⟩)) (.temporary path) none

theorem run_atomicWrite (path : Name) (data : Bytes) (count : ℕ) (d : Directory) :
    ∃ opened written, (atomicWrite path data count : Prog Directory ε Unit).run d =
      ⟨[d, opened, written], placed path data count d, .ok ()⟩ ∧
      (∀ name, name ≠ .temporary path → opened name = d name ∧ written name = d name) := by
  refine ⟨Function.update d (.temporary path) (some ⟨[], data⟩),
    Function.update d (.temporary path) (some ⟨data.take count, data⟩), ?_, ?_⟩
  · simp only [atomicWrite, Prog.run, Prog.step, Bind.bind, Function.update_self,
      Function.update_idem, Option.map_some, List.nil_append, List.cons_append, placed]
    congr 1
    rw [Function.update_comm (ne_temporary path), Function.update_idem]
    exact Function.update_comm (ne_temporary path).symm _ _ _ ▸ rfl
  · intro name hname
    exact ⟨Function.update_of_ne hname _ _, Function.update_of_ne hname _ _⟩

section Usable

variable (pem : Pem P)

/-- Only the two files count. -/
theorem usable_congr {d d' : Directory} (hc : d .certificate = d' .certificate)
    (hk : d .key = d' .key) : Usable pem d ↔ Usable pem d' := by
  rw [Usable, Usable, hc, hk]

theorem backedUp_of_ne {path name : Name} {time : ℕ} {d : Directory}
    (h : name ≠ .backup path time) : backedUp path time d name = d name := by
  rw [backedUp]
  cases d path with
  | none => rfl
  | some f => exact Function.update_of_ne h _ _

theorem keeps_backup {α : Type} {path : Name} {time : ℕ} {d : Directory}
    {f : Unit → Prog Directory ε α} :
    KeepsFrom (Usable pem) (backupIfExists path time >>= f) d ↔
      Usable pem d ∧ KeepsFrom (Usable pem) (f ()) (backedUp path time d) :=
  keepsFrom_step_bind rfl

theorem keeps_atomicWrite {α : Type} {path : Name} {data : Bytes} {count : ℕ} {d : Directory}
    {f : Unit → Prog Directory ε α} :
    KeepsFrom (Usable pem) (atomicWrite path data count >>= f) d ↔
      Usable pem d ∧ KeepsFrom (Usable pem) (f ()) (placed path data count d) := by
  obtain ⟨opened, written, hrun, hsame⟩ := run_atomicWrite (ε := ε) path data count d
  have hopened : Usable pem opened ↔ Usable pem d :=
    usable_congr pem (hsame .certificate nofun).1 (hsame .key nofun).1
  have hwritten : Usable pem written ↔ Usable pem d :=
    usable_congr pem (hsame .certificate nofun).2 (hsame .key nofun).2
  rw [keepsFrom_bind_iff (by rw [hrun]), hrun]
  simp [hopened, hwritten]

theorem keeps_last {path : Name} {data : Bytes} {count : ℕ} {d : Directory} :
    KeepsFrom (Usable pem) (atomicWrite path data count : Prog Directory ε Unit) d ↔
      Usable pem d ∧ Usable pem (placed path data count d) := by
  obtain ⟨opened, written, hrun, hsame⟩ := run_atomicWrite (ε := ε) path data count d
  have hopened : Usable pem opened ↔ Usable pem d :=
    usable_congr pem (hsame .certificate nofun).1 (hsame .key nofun).1
  have hwritten : Usable pem written ↔ Usable pem d :=
    usable_congr pem (hsame .certificate nofun).2 (hsame .key nofun).2
  rw [KeepsFrom, hrun]
  simp [hopened, hwritten]

/-- A run leaves three pairs behind: the old one, the new key beside the old certificate, and
the new one. -/
theorem keepsFrom_replaceIdentity {new : Identity} {time : ℕ} {counts : Counts} {d : Directory} :
    KeepsFrom (Usable pem) (replaceIdentity new time counts : Prog Directory ε Unit) d ↔
      Usable pem d ∧ Usable pem (placed .key new.key counts.key d) ∧
        Usable pem (placed .certificate new.certificate counts.certificate
          (placed .key new.key counts.key d)) := by
  let d₁ := backedUp .certificate time d
  let d₂ := backedUp .key time d₁
  let d₃ := backedUp .trust time d₂
  have hsame : ∀ name, (∀ path, name ≠ .backup path time) →
      d₁ name = d name ∧ d₂ name = d name ∧ d₃ name = d name := by
    intro name hname
    simp only [d₁, d₂, d₃, backedUp_of_ne (hname _), and_self]
  have hc := hsame .certificate nofun
  have hk := hsame .key nofun
  have hrun : KeepsFrom (Usable pem) (replaceIdentity new time counts : Prog Directory ε Unit) d ↔
      Usable pem d ∧ Usable pem d₁ ∧ Usable pem d₂ ∧ Usable pem d₃ ∧
        Usable pem (placed .key new.key counts.key d₃) ∧
        Usable pem (placed .certificate new.certificate counts.certificate
          (placed .key new.key counts.key d₃)) ∧
        Usable pem (placed .trust new.trust counts.trust (placed .certificate new.certificate
          counts.certificate (placed .key new.key counts.key d₃))) := by
    rw [replaceIdentity, keeps_backup, keeps_backup, keeps_backup, keeps_atomicWrite,
      keeps_atomicWrite, keeps_last]
  rw [hrun, usable_congr pem hc.1 hk.1, usable_congr pem hc.2.1 hk.2.1,
    usable_congr pem hc.2.2 hk.2.2]
  have hkey : Usable pem (placed .key new.key counts.key d₃) ↔
      Usable pem (placed .key new.key counts.key d) :=
    usable_congr pem (by simp [placed, hc.2.2]) (by simp [placed])
  have hcert : Usable pem (placed .certificate new.certificate counts.certificate
      (placed .key new.key counts.key d₃)) ↔ Usable pem (placed .certificate new.certificate
        counts.certificate (placed .key new.key counts.key d)) :=
    usable_congr pem (by simp [placed]) (by simp [placed])
  have htrust : Usable pem (placed .trust new.trust counts.trust (placed .certificate
      new.certificate counts.certificate (placed .key new.key counts.key d₃))) ↔
        Usable pem (placed .certificate new.certificate counts.certificate
          (placed .key new.key counts.key d)) :=
    usable_congr pem (by simp [placed]) (by simp [placed])
  rw [hkey, hcert, htrust]
  tauto

end Usable

theorem usable_key {d : Directory} {data : Bytes} {count : ℕ} :
    Usable pem (placed .key data count d) ↔ data.length ≤ count ∧ ∃ c p,
      d .certificate = some c ∧ c.content = c.whole ∧ pem.first c.content = some p ∧
        pem.loadKey data = some p := by
  have hk : placed .key data count d .key = some ⟨data.take count, data⟩ := by simp [placed]
  have hc : placed .key data count d .certificate = d .certificate := by simp [placed]
  constructor
  · rintro ⟨c, k, p, hcert, hkey, hwhole, hfull, hfirst, hload⟩
    rw [hc] at hcert
    obtain rfl := Option.some.inj (hk.symm.trans hkey)
    have hfull : data.take count = data := hfull
    have hload : pem.loadKey (data.take count) = some p := hload
    rw [hfull] at hload
    exact ⟨(List.take_eq_self_iff data).mp hfull, c, p, hcert, hwhole, hfirst, hload⟩
  · rintro ⟨hfull, c, p, hcert, hwhole, hfirst, hload⟩
    rw [← List.take_eq_self_iff] at hfull
    refine ⟨c, _, p, hc.trans hcert, hk, hwhole, hfull, hfirst, ?_⟩
    change pem.loadKey (data.take count) = some p
    rw [hfull, hload]

theorem usable_certificate {d : Directory} {k data : Bytes} {count : ℕ} {p : P}
    (hkey : d .key = some ⟨k, k⟩) (hload : pem.loadKey k = some p)
    (hfirst : pem.first data = some p) :
    Usable pem (placed .certificate data count d) ↔ data.length ≤ count := by
  have hk : placed .certificate data count d .key = some ⟨k, k⟩ := by simp [placed, hkey]
  have hc : placed .certificate data count d .certificate = some ⟨data.take count, data⟩ := by
    simp [placed]
  constructor
  · rintro ⟨c, -, -, hcert, -, hwhole, -⟩
    obtain rfl := Option.some.inj (hc.symm.trans hcert)
    exact (List.take_eq_self_iff data).mp hwhole
  · intro hfull
    rw [← List.take_eq_self_iff] at hfull
    refine ⟨_, _, p, hc, hk, hfull, rfl, ?_, hload⟩
    change pem.first (data.take count) = some p
    rw [hfull, hfirst]

/-! ### Accepted requests -/

theorem first_fullchain {certPem : Bytes} {chainPem : Option Bytes} {leaf : Certificate P}
    (h : pem.loadCert certPem = some leaf) :
    pem.first (fullchain certPem chainPem) = some leaf.publicKey := by
  rw [fullchain]
  cases given chainPem with
  | none => exact pem.first_append certPem leaf [] h
  | some chain =>
    simp only [List.append_assoc, List.singleton_append]
    exact pem.first_append certPem leaf (rstrip chain ++ [10]) h

section Accepted

variable [DecidableEq P] {maker : Maker pem}

theorem validate_matching {now : ℤ} {certPem keyPem : Bytes} {chainPem : Option Bytes}
    (h : validateCertificateBundle pem now certPem keyPem chainPem = .ok ()) :
    ∃ leaf, pem.loadCert certPem = some leaf ∧ pem.loadKey keyPem = some leaf.publicKey := by
  rw [validateCertificateBundle] at h
  cases hc : pem.loadCert certPem with
  | none => simp [hc] at h
  | some leaf =>
    cases hk : pem.loadKey keyPem with
    | none => simp [hc, hk] at h
    | some key =>
      simp only [hc, hk] at h
      obtain ⟨hmatch, -⟩ := EarlyExit.guard_ok h
      exact ⟨leaf, rfl, by rw [not_not.mp hmatch]⟩

/-- What is put in place belongs together. -/
theorem identity_matching {now : ℤ} {r : Request} {new : Identity}
    (h : r.identity maker now = .ok new) :
    ∃ p, pem.first new.certificate = some p ∧ pem.loadKey new.key = some p := by
  cases r with
  | install certPem keyPem chainPem =>
    obtain ⟨⟨⟩, hvalid, h⟩ := EarlyExit.bind_ok h
    obtain ⟨leaf, hcert, hkey⟩ := validate_matching hvalid
    obtain rfl := Except.ok.inj h
    exact ⟨leaf.publicKey, first_fullchain hcert, hkey⟩
  | regenerate hostnames ips days =>
    simp only [Request.identity, regenerateSelfSigned] at h
    cases hmake : maker.make (altNames maker.isAddress hostnames ips) days with
    | none => simp [hmake] at h
    | some made =>
      simp only [hmake] at h
      obtain rfl := Except.ok.inj h
      exact maker.matching _ _ _ _ hmake

/-- The identity is usable at every point of an accepted call if and only if the key stays
the same and no write is cut short. -/
theorem usable_throughout_iff (maker : Maker pem) (now : ℤ) (r : Request) (time : ℕ)
    (counts : Counts) {new : Identity} {d : Directory} (h : r.identity maker now = .ok new)
    (hd : Usable pem d) :
    KeepsFrom (Usable pem) (replaceIdentity new time counts : Prog Directory Empty Unit) d ↔
      KeyKept pem d new ∧ counts.Enough new := by
  obtain ⟨p, hfirst, hload⟩ := identity_matching h
  obtain ⟨c, -, -, hc, -, hwhole, -⟩ := id hd
  have hcert : new.key.length ≤ counts.key →
      (Usable pem (placed .certificate new.certificate counts.certificate
        (placed .key new.key counts.key d)) ↔ new.certificate.length ≤ counts.certificate) := by
    intro hfull
    refine usable_certificate (k := new.key) ?_ hload hfirst
    simp [placed, (List.take_eq_self_iff new.key).mpr hfull]
  rw [keepsFrom_replaceIdentity]
  constructor
  · rintro ⟨-, hkey, hboth⟩
    obtain ⟨hfull, c', p', hc', -, hp', hload'⟩ := usable_key.mp hkey
    exact ⟨⟨c', p', hc', hp', hload'⟩, hfull, (hcert hfull).mp hboth⟩
  · rintro ⟨⟨c', p', hc', hp', hload'⟩, hfull, hlong⟩
    obtain rfl := Option.some.inj (hc.symm.trans hc')
    exact ⟨hd, usable_key.mpr ⟨hfull, c, p', hc, hwhole, hp', hload'⟩, (hcert hfull).mpr hlong⟩

end Accepted

/-- A reader for which the first byte of a text names the key pair. -/
def initial (data : Bytes) : Option UInt8 := data.head?.filter fun b => b ≠ 10

theorem initial_append {data : Bytes} {p : UInt8} (rest : Bytes) (h : initial data = some p) :
    initial (rstrip data ++ 10 :: rest) = some p := by
  cases data with
  | nil => simp [initial] at h
  | cons b data =>
    obtain ⟨hb, hne⟩ : b = p ∧ b ≠ 10 := by
      simp only [initial, List.head?_cons, Option.filter_some] at h
      split_ifs at h with hne
      exact ⟨Option.some.inj h, by simpa using hne⟩
    have hstrip : ∃ tail, rstrip (b :: data) = b :: tail := by
      have hprefix : rstrip (b :: data) <+: b :: data := List.rdropWhile_prefix _ _
      rcases List.prefix_cons_iff.mp hprefix with hnil | ⟨tail, htail, -⟩
      · have := List.rdropWhile_eq_nil_iff.mp hnil b List.mem_cons_self
        exact absurd (by simpa using this) hne
      · exact ⟨tail, htail⟩
    obtain ⟨tail, htail⟩ := hstrip
    rw [htail]
    simp [initial, ← hb, hne]

def initialPem : Pem UInt8 where
  loadCert data := (initial data).map fun p => ⟨p, 0, 100⟩
  loadKey := initial
  loadChain _ := some []
  first := initial
  first_append data c rest h := by
    obtain ⟨p, hp, rfl⟩ := Option.map_eq_some_iff.mp h
    exact initial_append rest hp

def noMaker : Maker initialPem where
  isAddress _ := false
  make _ _ := none
  matching _ _ _ _ h := by cases h

/-- Key pair 1 is in place. -/
def firstPair : Directory
  | .certificate => some ⟨[1, 10], [1, 10]⟩
  | .key => some ⟨[1, 10], [1, 10]⟩
  | _ => none

theorem usable_firstPair : Usable initialPem firstPair :=
  ⟨⟨[1, 10], [1, 10]⟩, ⟨[1, 10], [1, 10]⟩, 1, rfl, rfl, rfl, rfl, rfl, rfl⟩

/-- Between the two files, the new key lies beside the old certificate. -/
theorem install_unusable_between :
    (Request.install [2, 10] [2, 10] none).identity noMaker 50 =
        .ok ⟨[2, 10], [2, 10], [2, 10]⟩ ∧ Usable initialPem firstPair ∧
      ¬KeepsFrom (Usable initialPem) (replaceIdentity ⟨[2, 10], [2, 10], [2, 10]⟩ 1700000000
        ⟨2, 2, 2⟩ : Prog Directory Empty Unit) firstPair := by
  refine ⟨rfl, usable_firstPair, ?_⟩
  intro h
  obtain ⟨-, c, p, hc, -, hp, hload⟩ :=
    usable_key.mp ((keepsFrom_replaceIdentity initialPem).mp h).2.1
  obtain rfl := Option.some.inj hc
  obtain rfl : 1 = p := Option.some.inj hp
  exact absurd (Option.some.inj hload) (by decide)

/-- A renewed certificate for the same key. -/
theorem usable_throughout_renewal :
    KeepsFrom (Usable initialPem) (replaceIdentity ⟨[1, 10], [1, 7, 10], [1, 7, 10]⟩ 1700000000
      ⟨2, 3, 3⟩ : Prog Directory Empty Unit) firstPair :=
  (usable_throughout_iff noMaker 50 (.install [1, 7, 10] [1, 10] none) 1700000000 ⟨2, 3, 3⟩
    rfl usable_firstPair).mpr
    ⟨⟨⟨[1, 10], [1, 10]⟩, 1, rfl, rfl, rfl⟩, by decide, by decide⟩

end TlsIdentity
