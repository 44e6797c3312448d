import SysibleController.PythonInt
import Mathlib.Algebra.Order.Ring.Int

/-! The limit on request bodies (`_BodyLimitMiddleware`, the same class in `backend/app.py` and
`webgui/server.py`). The application behind it is any program that receives and sends and goes on
by what it is given; what is received may depend on everything before. -/
namespace BodyLimit

inductive Message where
  | request (body : Option (List UInt8)) (moreBody : Bool)
  | disconnect
  | other (type : String)
  deriving DecidableEq

inductive Sent where
  | start (status : ℕ) (headers : List (String × String))
  | body (content : String)
  deriving DecidableEq

inductive App where
  | receive (k : Message → App)
  | send (m : Sent) (k : App)
  | done

structure Scope where
  http : Bool
  headers : List (List UInt8 × List UInt8)

def Message.size : Message → ℕ
  | .request body _ => (body.getD []).length
  | _ => 0

/-- `_guarded_receive`: what the application gets for a message, and the new count. -/
def guardedReceive (cap : ℤ) (seen : ℕ) : Message → Message × ℕ
  | .request body moreBody =>
    let n := seen + (body.getD []).length
    if cap < n then (.disconnect, n) else (.request body moreBody, n)
  | m => (m, seen)

/-- The application with `_guarded_receive` in place of `receive`. -/
def guarded (cap : ℤ) : ℕ → App → App
  | seen, .receive k => .receive fun m =>
    guarded cap (guardedReceive cap seen m).2 (k (guardedReceive cap seen m).1)
  | seen, .send m k => .send m (guarded cap seen k)
  | _, .done => .done

/-- `int` of a header's bytes. -/
def intOfBytes (v : List UInt8) : Option ℤ :=
  if v.all fun b => b < 128 then PythonInt.pyInt (v.map fun b => Char.ofNat b.toNat) else none

def contentLength : List UInt8 := "content-length".toList.map fun c => c.toNat.toUInt8

/-- The first `content-length` header decides; one that is no number is passed over. -/
def declaredOver (cap : ℤ) (headers : List (List UInt8 × List UInt8)) : Bool :=
  match headers.find? fun h => h.1 = contentLength with
  | some h => (intOfBytes h.2).any fun n => cap < n
  | none => false

def tooLarge : List Sent :=
  [.start 413 [("content-type", "application/json"), ("cache-control", "no-store")],
    .body "\x7b\"detail\":\"Request body too large.\"\x7d"]

def limit (cap : ℤ) (app : Scope → App) (scope : Scope) : App :=
  if scope.http = false ∨ cap ≤ 0 then app scope
  else if declaredOver cap scope.headers then tooLarge.foldr .send .done
  else guarded cap 0 (app scope)

inductive Step where
  | received (m : Message)
  | sent (m : Sent)
  deriving DecidableEq

/-- What an application does from some past on, where `env` gives each message received. -/
def serve (env : List Step → Message) : App → List Step → List Step
  | .receive k, past =>
    let m := env past
    .received m :: serve env (k m) (past ++ [.received m])
  | .send m k, past => .sent m :: serve env k (past ++ [.sent m])
  | .done, _ => []

/-- What the guarded application is handed, beside the messages that were received for it. -/
def handed (cap : ℤ) (env : List Step → Message) : ℕ → App → List Step → List Message
  | seen, .receive k, past =>
    let m := env past
    let r := guardedReceive cap seen m
    r.1 :: handed cap env r.2 (k r.1) (past ++ [.received m])
  | seen, .send m k, past => handed cap env seen k (past ++ [.sent m])
  | _, .done, _ => []

def messages (steps : List Step) : List Message :=
  steps.filterMap fun
    | .received m => some m
    | .sent _ => none

def size (ms : List Message) : ℕ := (ms.map Message.size).sum

variable {cap : ℤ} {seen : ℕ} {env : List Step → Message} {app : App} {past : List Step}

theorem guardedReceive_snd (cap : ℤ) (seen : ℕ) (m : Message) :
    (guardedReceive cap seen m).2 = seen + m.size := by
  cases m with
  | request body moreBody =>
    unfold guardedReceive
    dsimp only
    split_ifs <;> rfl
  | disconnect | other type => rfl

/-- A message past the cap brings nothing, one within it comes as it is. -/
theorem guardedReceive_fst (cap : ℤ) (seen : ℕ) (m : Message) :
    (cap < seen + m.size → (guardedReceive cap seen m).1.size = 0) ∧
      (((seen + m.size : ℕ) : ℤ) ≤ cap → (guardedReceive cap seen m).1 = m) := by
  cases m with
  | request body moreBody =>
    refine ⟨fun hover => ?_, fun hwithin => ?_⟩
    · have hcut : cap < ((seen + (body.getD []).length : ℕ) : ℤ) := by
        rw [Nat.cast_add]
        exact hover
      simp only [guardedReceive, if_pos hcut]
      rfl
    · have hcut : ¬cap < ((seen + (body.getD []).length : ℕ) : ℤ) := not_lt.mpr hwithin
      simp only [guardedReceive, if_neg hcut]
  | disconnect | other type => exact ⟨fun _ => rfl, fun _ => rfl⟩

/-- Past the cap nothing more is handed over, and before it no more than what is left. -/
theorem size_handed (cap : ℤ) (env : List Step → Message) (seen : ℕ) (app : App)
    (past : List Step) : (cap < seen → size (handed cap env seen app past) = 0) ∧
    ((seen : ℤ) ≤ cap → ((seen + size (handed cap env seen app past) : ℕ) : ℤ) ≤ cap) := by
  induction app generalizing seen past with
  | receive k ih =>
    have hsize : size (handed cap env seen (.receive k) past) =
        (guardedReceive cap seen (env past)).1.size +
          size (handed cap env (seen + (env past).size) (k (guardedReceive cap seen (env past)).1)
            (past ++ [.received (env past)])) := by
      simp [handed, size, guardedReceive_snd]
    obtain ⟨hover, hwithin⟩ := guardedReceive_fst cap seen (env past)
    obtain ⟨hpast, hleft⟩ := ih (guardedReceive cap seen (env past)).1
      (seen + (env past).size) (past ++ [.received (env past)])
    rw [hsize]
    rcases lt_or_ge cap ((seen + (env past).size : ℕ) : ℤ) with hcut | hfits
    · rw [hpast hcut, hover (by rwa [Nat.cast_add] at hcut)]
      exact ⟨fun _ => rfl, fun h => h⟩
    · rw [hwithin hfits] at hleft ⊢
      have hrest := hleft hfits
      refine ⟨fun hseen => ?_, fun _ => ?_⟩ <;> omega
  | send m k ih => exact ih seen (past ++ [.sent m])
  | done => exact ⟨fun _ => rfl, fun h => by simpa [handed, size] using h⟩

theorem messages_append (a b : List Step) : messages (a ++ b) = messages a ++ messages b :=
  List.filterMap_append

/-- As long as what arrives stays within the cap, the guard is not noticed. -/
theorem serve_guarded
    (h : ((seen + size (messages (serve env (guarded cap seen app) past)) : ℕ) : ℤ) ≤ cap) :
    serve env (guarded cap seen app) past = serve env app past ∧
      handed cap env seen app past = messages (serve env app past) := by
  induction app generalizing seen past with
  | receive k ih =>
    have hsize : size (messages (serve env (guarded cap seen (.receive k)) past)) =
        (env past).size + size (messages (serve env (guarded cap (seen + (env past).size)
          (k (guardedReceive cap seen (env past)).1)) (past ++ [.received (env past)]))) := by
      simp [guarded, serve, messages, size, guardedReceive_snd]
    rw [hsize] at h
    have hfits : ((seen + (env past).size : ℕ) : ℤ) ≤ cap := by omega
    have hsame := (guardedReceive_fst cap seen (env past)).2 hfits
    rw [hsame] at h
    rw [← Nat.add_assoc] at h
    obtain ⟨hserve, hhanded⟩ := ih (env past) h
    refine ⟨?_, ?_⟩
    · simp only [guarded, serve, guardedReceive_snd, hsame, hserve]
    · simp only [handed, serve, messages, guardedReceive_snd, hsame, hhanded, List.filterMap_cons]
  | send m k ih =>
    have hsize : messages (serve env (guarded cap seen (.send m k)) past) =
        messages (serve env (guarded cap seen k) (past ++ [.sent m])) := by
      simp [guarded, serve, messages]
    rw [hsize] at h
    obtain ⟨hserve, hhanded⟩ := ih h
    exact ⟨by simp only [guarded, serve, hserve],
      by simp only [handed, serve, messages, hhanded, List.filterMap_cons]⟩
  | done => exact ⟨rfl, rfl⟩

theorem serve_sends (env : List Step → Message) (out : List Sent) (past : List Step) :
    serve env (out.foldr .send .done) past = out.map .sent := by
  induction out generalizing past with
  | nil => rfl
  | cons m out ih => simp [serve, ih]

/-- Whatever the application, and whatever a request says about its own length: a length over
the cap is answered by a 413 and the application never starts; otherwise the application is
handed no more than the cap, and where no more than that arrives it runs as without the limit. -/
theorem limit_holds (hcap : 0 < cap) (scope : Scope) (hhttp : scope.http = true)
    (app : Scope → App) (env : List Step → Message) :
    (declaredOver cap scope.headers = true →
      serve env (limit cap app scope) [] = tooLarge.map .sent) ∧
    (declaredOver cap scope.headers = false →
      serve env (limit cap app scope) [] = serve env (guarded cap 0 (app scope)) [] ∧
      (size (handed cap env 0 (app scope) []) : ℤ) ≤ cap ∧
      ((size (messages (serve env (limit cap app scope) [])) : ℤ) ≤ cap →
        serve env (limit cap app scope) [] = serve env (app scope) [] ∧
          handed cap env 0 (app scope) [] = messages (serve env (app scope) []))) := by
  have hon : ¬(scope.http = false ∨ cap ≤ 0) := by
    rw [hhttp]
    simpa using hcap
  refine ⟨fun hover => ?_, fun hunder => ?_⟩
  · rw [limit, if_neg hon, if_pos hover]
    exact serve_sends env tooLarge []
  · have hlimit : limit cap app scope = guarded cap 0 (app scope) := by
      rw [limit, if_neg hon, if_neg (by simp [hunder])]
    have hbound := (size_handed cap env 0 (app scope) []).2 hcap.le
    rw [hlimit]
    refine ⟨rfl, by simpa using hbound, fun hfits => serve_guarded (by simpa using hfits)⟩

/-- An application that reads to the end of the body and reports. -/
def reader : App :=
  .receive fun m => match m with
    | .request _ true => .receive fun _ => .send (.body "read") .done
    | _ => .send (.body "read") .done

/-- A client that never says how much it sends, three bytes at a time. -/
def streaming (_ : List Step) : Message := .request (some [1, 2, 3]) true

theorem limit_holds_streaming :
    handed 4 streaming 0 reader [] = [.request (some [1, 2, 3]) true, .disconnect] ∧
    (size (handed 4 streaming 0 reader []) : ℤ) ≤ 4 :=
  ⟨by decide, ((limit_holds (by decide) ⟨true, []⟩ rfl (fun _ => reader) streaming).2 rfl).2.1⟩

end BodyLimit
