import SysibleController.ActivityLog
import Mathlib.Data.List.Forall2

/-! What `_digest_payload` hashes of a row determines the row. -/
namespace ActivityLog

open DecimalRounding

/-- The text of a field is short enough for its length prefix. -/
def Short (text : Option String) : Prop := (text.getD "").utf8ByteSize < 2 ^ 32

instance (text : Option String) : Decidable (Short text) := inferInstanceAs (Decidable (_ < _))

/-- As many fields, which agree one by one, `None` counted as the empty text. -/
def SameFields (xs ys : List (Option String)) : Prop :=
  List.Forall₂ (fun x y => x.getD "" = y.getD "") xs ys

/-- What `_activity_digest` hashes. -/
def activityPayload (prevHash : Option String) (timestamp : Option ℚ)
    (username host description command : Option String) (algo : String) : Option Bytes :=
  digestPayload [some algo, some (orDefault prevHash ""), some (toFixed 6 (timestamp.getD 0)),
    some (orDefault username ""), some (orDefault host ""), some (orDefault description ""),
    some (orDefault command "")]

def ActivityRow.payload (r : ActivityRow) : Option Bytes :=
  activityPayload r.prevHash r.timestamp r.username r.host r.description r.command r.algo

/-- The time of a row in microseconds. -/
def ActivityRow.microseconds (r : ActivityRow) : ℤ := roundHalfEven (r.timestamp.getD 0 * 10 ^ 6)

/-- The rows say the same, but for the source, which is not hashed, and their place in the log. -/
structure SameEntry (r s : ActivityRow) : Prop where
  algo : r.algo = s.algo
  prevHash : r.prevHash.getD "" = s.prevHash.getD ""
  microseconds : r.microseconds = s.microseconds
  username : r.username.getD "" = s.username.getD ""
  host : r.host.getD "" = s.host.getD ""
  description : r.description.getD "" = s.description.getD ""
  command : r.command.getD "" = s.command.getD ""

variable {xs ys : List (Option String)} {r s : ActivityRow} {p : Bytes}

/-- The digest of a row is the hash of its payload. -/
theorem digest_eq_payload (cfg : Config) (r : ActivityRow) :
    r.digest cfg = r.payload.map fun payload =>
      match cfg.key with
      | some k => if r.algo = "hmac-sha256" ∧ cfg.keyed then cfg.hashes.hmacSha256 k payload
          else cfg.hashes.sha256 payload
      | none => cfg.hashes.sha256 payload := rfl

theorem sameFields_iff : SameFields xs ys ↔ xs.map (·.getD "") = ys.map (·.getD "") := by
  rw [SameFields, ← List.forall₂_eq_eq_eq, List.forall₂_map_left_iff, List.forall₂_map_right_iff]

theorem ofText?_isSome {x : Option String} (h : Short x) : (Field.ofText? x).isSome := by
  have hlength : (orDefault x "").toUTF8.data.toList.length < 2 ^ 32 := by
    rw [orDefault_empty]
    exact h
  rw [Field.ofText?, dif_pos hlength]
  rfl

theorem ofText?_congr {x y : Option String} (h : x.getD "" = y.getD "") :
    Field.ofText? x = Field.ofText? y := by
  simp only [Field.ofText?, orDefault_empty, h]

/-- Fields that all have a length prefix have a payload. -/
theorem digestPayload_isSome (h : ∀ x ∈ xs, Short x) : ∃ p, digestPayload xs = some p := by
  have hfields : ∃ fs, xs.mapM Field.ofText? = some fs := by
    induction xs with
    | nil => exact ⟨[], rfl⟩
    | cons x xs ih =>
      obtain ⟨f, hf⟩ := Option.isSome_iff_exists.mp (ofText?_isSome (h x List.mem_cons_self))
      obtain ⟨fs, hfs⟩ := ih fun y hy => h y (List.mem_cons_of_mem x hy)
      exact ⟨f :: fs, by simp [List.mapM_cons, hf, hfs]⟩
  obtain ⟨fs, hfs⟩ := hfields
  exact ⟨fs.flatMap Field.block, by rw [digestPayload, hfs, Option.map_some]⟩

theorem digestPayload_congr (h : SameFields xs ys) : digestPayload xs = digestPayload ys := by
  have hmap : xs.mapM Field.ofText? = ys.mapM Field.ofText? := by
    induction h with
    | nil => rfl
    | cons hxy hrest ih => rw [List.mapM_cons, List.mapM_cons, ofText?_congr hxy, ih]
  rw [digestPayload, digestPayload, hmap]

theorem digestPayload_eq_iff (hxs : ∀ x ∈ xs, Short x) :
    digestPayload xs = digestPayload ys ↔ SameFields xs ys := by
  constructor
  · intro h
    obtain ⟨p, hp⟩ := digestPayload_isSome hxs
    exact sameFields_iff.mpr (digestPayload_inj hp (h ▸ hp))
  · exact digestPayload_congr

/-- Two rows that are hashed alike say the same. -/
theorem SameEntry.of_payload (hr : r.payload = some p) (hs : s.payload = some p) :
    SameEntry r s := by
  have hfields := digestPayload_inj hr hs
  simp only [List.map_cons, List.map_nil, Option.getD_some, List.cons.injEq, and_true,
    orDefault_empty] at hfields
  obtain ⟨halgo, hprev, htime, huser, hhost, hdescription, hcommand⟩ := hfields
  exact ⟨halgo, hprev, toFixed_inj htime, huser, hhost, hdescription, hcommand⟩

/-- The input of the digest is unambiguous: for fields, and so for the rows of the log. -/
theorem payload_unambiguous (xs ys : List (Option String)) (hxs : ∀ x ∈ xs, Short x)
    (r s : ActivityRow) (p : Bytes) (hr : r.payload = some p) (hs : s.payload = some p) :
    (digestPayload xs = digestPayload ys ↔ SameFields xs ys) ∧ SameEntry r s :=
  ⟨digestPayload_eq_iff hxs, .of_payload hr hs⟩

def loginRow : ActivityRow :=
  ⟨1, some 5, some "root", none, some "login", none, none, none, none, none⟩

def copiedRow : ActivityRow :=
  ⟨2, some 5, some "root", some "", some "login", some "", none, some "", none, some "sha256"⟩

theorem login_unambiguous :
    (digestPayload [some "ls", none] = digestPayload [some "ls", some ""] ↔
      SameFields [some "ls", none] [some "ls", some ""]) ∧ SameEntry loginRow copiedRow := by
  have hsame : copiedRow.payload = loginRow.payload := rfl
  have hfits : ∀ x ∈ [some "sha256", some "", some (toFixed 6 5), some "root", some "",
      some "login", some ""], Short x := by decide +kernel
  obtain ⟨p, hp⟩ := digestPayload_isSome hfits
  have hlogin : loginRow.payload = some p := hp
  exact payload_unambiguous _ _ (by decide) loginRow copiedRow p hlogin (hsame.trans hlogin)

end ActivityLog
