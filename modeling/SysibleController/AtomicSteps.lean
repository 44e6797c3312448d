import SysibleController.EarlyExit

/-! Programs of atomic steps on a state: a step either happens or fails, what a program did
before an exception stays done, and a run keeps every state it left behind, so that it can be
looked at after any of its steps. `Sat` gives such programs postconditions. -/
namespace AtomicSteps

/-- How a program ran: the states it left behind, the last state, and how it ended. -/
structure Run (σ ε α : Type) where
  past : List σ
  final : σ
  result : Except ε α

def Prog (σ ε α : Type) := σ → Run σ ε α

variable {σ ε δ α β : Type}

namespace Prog

def run (m : Prog σ ε α) (s : σ) : Run σ ε α := m s

instance : Monad (Prog σ ε) where
  pure a s := ⟨[], s, .ok a⟩
  bind m f s :=
    let first := m s
    match first.result with
    | .ok a =>
      let rest := f a first.final
      ⟨first.past ++ rest.past, rest.final, rest.result⟩
    | .error e => ⟨first.past, first.final, .error e⟩

def raise (e : ε) : Prog σ ε α := fun s => ⟨[], s, .error e⟩

/-- One step that may fail, and then leaves the state as it was. -/
def step (f : σ → Except ε σ) : Prog σ ε Unit := fun s =>
  match f s with
  | .ok t => ⟨[s], t, .ok ()⟩
  | .error e => ⟨[], s, .error e⟩

def ask (f : σ → α) : Prog σ ε α := fun s => ⟨[], s, .ok (f s)⟩

def query (f : σ → Except ε α) : Prog σ ε α := fun s => ⟨[], s, f s⟩

/-- Fails where `f` holds. -/
def forbid (f : σ → Bool) (e : ε) : Prog σ ε Unit := query fun s => if f s then .error e else .ok ()

/-- Runs a program and hands its exception on as a value. -/
def attempt (m : Prog σ ε α) : Prog σ δ (Except ε α) := fun s =>
  let r := m s
  ⟨r.past, r.final, .ok r.result⟩

/-- The same program with its exceptions under another name. -/
def mapError (f : ε → δ) (m : Prog σ ε α) : Prog σ δ α := fun s =>
  let r := m s
  ⟨r.past, r.final, r.result.mapError f⟩

end Prog

open Prog EarlyExit

/-- From `s` on, a normal end satisfies `Q` and an exception `E`, with the state at the end. -/
def Sat (m : Prog σ ε α) (s : σ) (Q : α → σ → Prop) (E : ε → σ → Prop) : Prop :=
  Ends (fun a => Q a (m.run s).final) (fun e => E e (m.run s).final) (m.run s).result

variable {m : Prog σ ε α} {s : σ} {Q : α → σ → Prop} {E : ε → σ → Prop}

theorem sat_pure (a : α) : Sat (pure a) s Q E ↔ Q a s := Iff.rfl

theorem sat_raise (e : ε) : Sat (raise e) s Q E ↔ E e s := Iff.rfl

theorem sat_ask (f : σ → α) : Sat (ask f) s Q E ↔ Q (f s) s := Iff.rfl

theorem sat_query (f : σ → Except ε α) :
    Sat (query f) s Q E ↔ Ends (fun a => Q a s) (fun e => E e s) (f s) := Iff.rfl

theorem sat_forbid {Q : Unit → σ → Prop} (f : σ → Bool) (e : ε) :
    Sat (forbid f e) s Q E ↔ if f s then E e s else Q () s := by
  rw [forbid, sat_query]
  cases f s <;> exact Iff.rfl

theorem sat_step {Q : Unit → σ → Prop} (f : σ → Except ε σ) :
    Sat (step f) s Q E ↔ Ends (Q ()) (fun e => E e s) (f s) := by
  unfold Sat Prog.run step
  cases f s <;> exact Iff.rfl

theorem sat_bind {R : β → σ → Prop} (f : α → Prog σ ε β) :
    Sat (m >>= f) s R E ↔ Sat m s (fun a t => Sat (f a) t R E) E := by
  simp only [Sat, Prog.run, Bind.bind]
  cases h : (m s).result <;> exact Iff.rfl

theorem sat_attempt {Q : Except ε α → σ → Prop} {E : δ → σ → Prop} :
    Sat (attempt m : Prog σ δ (Except ε α)) s Q E ↔
      Sat m s (fun a t => Q (.ok a) t) fun e t => Q (.error e) t := by
  unfold Sat Prog.run attempt
  cases h : (m s).result <;> simp only [h, ends_ok, ends_error]

theorem sat_mapError {f : ε → δ} {E : δ → σ → Prop} :
    Sat (m.mapError f) s Q E ↔ Sat m s Q fun e t => E (f e) t := by
  unfold Sat Prog.run Prog.mapError
  cases h : (m s).result <;> simp only [h, Except.mapError, ends_ok, ends_error]

theorem Sat.mono {Q' : α → σ → Prop} {E' : ε → σ → Prop} (h : Sat m s Q E)
    (hQ : ∀ a t, Q a t → Q' a t) (hE : ∀ e t, E e t → E' e t) : Sat m s Q' E' :=
  Ends.mono h (fun a => hQ a _) fun e => hE e _

theorem Sat.bind {R : β → σ → Prop} {f : α → Prog σ ε β} (h : Sat m s Q E)
    (hf : ∀ a t, Q a t → Sat (f a) t R E) : Sat (m >>= f) s R E :=
  (sat_bind f).mpr (h.mono hf fun _ _ he => he)

/-- Every run ends one way or the other. -/
theorem sat_true : Sat m s (fun _ _ => True) fun _ _ => True := by
  unfold Sat
  cases (m.run s).result <;> trivial

/-- What two results say of a run without exceptions, they say of one end. -/
theorem Sat.meet {Q' : α → σ → Prop} (h : Sat m s Q fun _ _ => False) (h' : Sat m s Q' E) :
    ∃ a t, Q a t ∧ Q' a t := by
  unfold Sat at h h'
  cases hr : (m.run s).result with
  | ok a =>
    rw [hr] at h h'
    exact ⟨a, _, h, h'⟩
  | error e =>
    rw [hr] at h
    cases h

/-- What follows an attempt whose outcome is not looked at. -/
theorem Sat.attempt_then {R : σ → Prop} {k : Prog σ δ β} {P : β → σ → Prop} {D : δ → σ → Prop}
    (h : Sat m s (fun _ => R) fun _ => R) (hk : ∀ t, R t → Sat k t P D) :
    Sat ((attempt m : Prog σ δ (Except ε α)) >>= fun _ => k) s P D := by
  rw [sat_bind, sat_attempt]
  exact h.mono (fun _ => hk) fun _ => hk

/-- The loop rule, for bodies that hand an accumulator on. -/
theorem Sat.foldlM {ι : Type} {I : List ι → List ι → α → σ → Prop} {f : α → ι → Prog σ ε α}
    (hbody : ∀ done x todo a t, I done (x :: todo) a t →
      Sat (f a x) t (fun b u => I (done ++ [x]) todo b u) E) :
    ∀ (todo done : List ι) (a : α) (t : σ), I done todo a t →
      Sat (todo.foldlM f a) t (fun b u => I (done ++ todo) [] b u) E
  | [], done, a, t, h => by
    rw [List.foldlM_nil, List.append_nil, sat_pure]
    exact h
  | x :: todo, done, a, t, h => by
    rw [List.foldlM_cons]
    refine (hbody done x todo a t h).bind fun b u hu => ?_
    have := Sat.foldlM hbody todo (done ++ [x]) b u hu
    rwa [List.append_assoc] at this

/-! ### Programs that keep an invariant -/

/-- Run from `s`, the program passes and ends in states with `I` only. -/
def KeepsFrom (I : σ → Prop) (m : Prog σ ε α) (s : σ) : Prop :=
  (∀ w ∈ (m.run s).past, I w) ∧ I (m.run s).final

def Keeps (I : σ → Prop) (m : Prog σ ε α) : Prop := ∀ s, I s → KeepsFrom I m s

variable {I : σ → Prop}

theorem keeps_pure (a : α) : Keeps I (pure a : Prog σ ε α) := fun _ hs => ⟨nofun, hs⟩

theorem keeps_raise (e : ε) : Keeps I (raise e : Prog σ ε α) := fun _ hs => ⟨nofun, hs⟩

theorem keeps_ask (f : σ → α) : Keeps I (ask f : Prog σ ε α) := fun _ hs => ⟨nofun, hs⟩

theorem keeps_query (f : σ → Except ε α) : Keeps I (query f) := fun _ hs => ⟨nofun, hs⟩

theorem keeps_forbid (f : σ → Bool) (e : ε) : Keeps I (forbid f e) := keeps_query _

theorem keeps_step {f : σ → Except ε σ} (h : ∀ s t, I s → f s = .ok t → I t) :
    Keeps I (step f) := by
  intro s hs
  unfold KeepsFrom Prog.run step
  cases hf : f s with
  | ok t => exact ⟨by simpa using hs, h s t hs hf⟩
  | error e => exact ⟨nofun, hs⟩

theorem KeepsFrom.mono {J : σ → Prop} (h : KeepsFrom I m s) (hIJ : ∀ t, I t → J t) :
    KeepsFrom J m s := ⟨fun w hw => hIJ w (h.1 w hw), hIJ _ h.2⟩

theorem KeepsFrom.bind {f : α → Prog σ ε β} (h : KeepsFrom I m s)
    (hf : ∀ a, (m.run s).result = .ok a → KeepsFrom I (f a) (m.run s).final) :
    KeepsFrom I (m >>= f) s := by
  unfold KeepsFrom Prog.run at *
  simp only [Bind.bind]
  cases hr : (m s).result with
  | error e => exact h
  | ok a =>
    obtain ⟨hpast, hfinal⟩ := hf a hr
    refine ⟨fun w hw => ?_, hfinal⟩
    rcases List.mem_append.mp hw with hw | hw
    · exact h.1 w hw
    · exact hpast w hw

theorem Keeps.bind {f : α → Prog σ ε β} (h : Keeps I m) (hf : ∀ a, Keeps I (f a)) :
    Keeps I (m >>= f) := fun s hs => (h s hs).bind fun a _ => hf a _ (h s hs).2

/-- The first part keeps more than the whole. -/
theorem KeepsFrom.then {J : σ → Prop} {k : α → Prog σ ε β} (h : KeepsFrom I m s)
    (hIJ : ∀ s, I s → J s) (hk : ∀ a s, I s → KeepsFrom J (k a) s) : KeepsFrom J (m >>= k) s :=
  (h.mono hIJ).bind fun a _ => hk a _ h.2

theorem Keeps.then {J : σ → Prop} {k : α → Prog σ ε β} (h : Keeps I m) (hIJ : ∀ s, I s → J s)
    (hk : ∀ a s, I s → KeepsFrom J (k a) s) : ∀ s, I s → KeepsFrom J (m >>= k) s :=
  fun s hs => (h s hs).then hIJ hk

theorem KeepsFrom.attempt (h : KeepsFrom I m s) :
    KeepsFrom I (attempt m : Prog σ δ (Except ε α)) s := h

theorem Keeps.attempt (h : Keeps I m) : Keeps I (attempt m : Prog σ δ (Except ε α)) := h

theorem KeepsFrom.mapError {f : ε → δ} (h : KeepsFrom I m s) : KeepsFrom I (m.mapError f) s := h

theorem Keeps.mapError {f : ε → δ} (h : Keeps I m) : Keeps I (m.mapError f) := h

/-- A step inside a `try`: where it fails, the state is as it was. -/
theorem keeps_attempt_step {g : σ → Except ε σ} {k : Except ε Unit → Prog σ δ α} (hs : I s)
    (hok : ∀ v, g s = .ok v → KeepsFrom I (k (.ok ())) v)
    (herr : ∀ e, g s = .error e → KeepsFrom I (k (.error e)) s) :
    KeepsFrom I (attempt (step g) >>= k) s := by
  cases hg : g s with
  | ok v =>
    have hv := hok v hg
    unfold KeepsFrom Prog.run at hv ⊢
    simp only [Bind.bind, attempt, step, hg]
    refine ⟨fun w hw => ?_, hv.2⟩
    rcases List.mem_append.mp hw with hw | hw
    · exact List.mem_singleton.mp hw ▸ hs
    · exact hv.1 w hw
  | error e =>
    have hv := herr e hg
    unfold KeepsFrom Prog.run at hv ⊢
    simp only [Bind.bind, attempt, step, hg]
    exact ⟨fun w hw => hv.1 w (by simpa using hw), hv.2⟩

theorem keeps_foldlM {ι : Type} {f : α → ι → Prog σ ε α} {l : List ι}
    (h : ∀ a, ∀ x ∈ l, Keeps I (f a x)) (a : α) : Keeps I (l.foldlM f a) := by
  induction l generalizing a with
  | nil => exact keeps_pure a
  | cons x l ih =>
    rw [List.foldlM_cons]
    exact (h a x List.mem_cons_self).bind fun b =>
      ih (fun c y hy => h c y (List.mem_cons_of_mem x hy)) b

/-! ## An invariant and a result -/

/-- From `s` the program keeps `I`, and a normal end satisfies `Q`. -/
def Ensures (I : σ → Prop) (m : Prog σ ε α) (s : σ) (Q : α → σ → Prop) : Prop :=
  KeepsFrom I m s ∧ Sat m s Q fun _ _ => True

theorem ensures_pure {a : α} (hs : I s) (hQ : Q a s) :
    Ensures I (pure a : Prog σ ε α) s Q := ⟨keeps_pure a s hs, hQ⟩

theorem ensures_raise {e : ε} (hs : I s) : Ensures I (raise e) s Q := ⟨keeps_raise e s hs, trivial⟩

theorem ensures_ask {g : σ → α} (hs : I s) (hQ : Q (g s) s) :
    Ensures I (ask g : Prog σ ε α) s Q := ⟨keeps_ask g s hs, hQ⟩

theorem ensures_step {g : σ → Except ε σ} {Q : Unit → σ → Prop} (hs : I s)
    (h : ∀ v, g s = .ok v → I v ∧ Q () v) : Ensures I (step g) s Q := by
  cases hg : g s with
  | error e =>
    refine ⟨?_, ?_⟩
    · unfold KeepsFrom Prog.run step
      rw [hg]
      exact ⟨nofun, hs⟩
    · rw [sat_step, hg]
      trivial
  | ok v =>
    obtain ⟨hI, hQ⟩ := h v hg
    refine ⟨?_, ?_⟩
    · unfold KeepsFrom Prog.run step
      rw [hg]
      exact ⟨by simpa using hs, hI⟩
    · rw [sat_step, hg]
      exact hQ

theorem ensures_query {f : σ → Except ε α} (hs : I s) (h : ∀ a, f s = .ok a → Q a s) : Ensures I (query f) s Q := by
  refine ⟨keeps_query f s hs, ?_⟩
  rw [sat_query]
  cases hf : f s with
  | ok a => exact h a hf
  | error e => trivial

/-- A step that happens, inside a `try`. -/
theorem ensures_attempt {Q : Except ε Unit → σ → Prop} {t : σ} {g : σ → Except ε σ}
    (hg : g s = .ok t) (hs : I s) (ht : I t) (hQ : Q (.ok ()) t) :
    Ensures I (attempt (step g) : Prog σ δ (Except ε Unit)) s Q := by
  have hstep : Ensures I (step g) s fun _ v => v = t := by
    refine ensures_step hs fun v hv => ?_
    obtain rfl := Except.ok.inj (hg.symm.trans hv)
    exact ⟨ht, rfl⟩
  refine ⟨hstep.1.attempt, ?_⟩
  rw [sat_attempt, sat_step, hg]
  exact hQ

theorem Ensures.bind {R : β → σ → Prop} {k : α → Prog σ ε β} (h : Ensures I m s Q)
    (hk : ∀ a v, I v → Q a v → Ensures I (k a) v R) : Ensures I (m >>= k) s R := by
  obtain ⟨hkeep, hsat⟩ := h
  have hnext : ∀ a, (m.run s).result = .ok a → Ensures I (k a) (m.run s).final R := by
    intro a ha
    refine hk a _ hkeep.2 ?_
    unfold Sat at hsat
    rwa [ha] at hsat
  refine ⟨hkeep.bind fun a ha => (hnext a ha).1, ?_⟩
  rw [sat_bind]
  unfold Sat at hsat ⊢
  cases ha : (m.run s).result with
  | error e => trivial
  | ok a => exact (hnext a ha).2

theorem Ensures.mapError {g : ε → δ} (h : Ensures I m s Q) : Ensures I (m.mapError g) s Q :=
  ⟨h.1.mapError, (sat_mapError).mpr (h.2.mono (fun _ _ hQ => hQ) fun _ _ _ => trivial)⟩

theorem Ensures.mono {J : σ → Prop} {R : α → σ → Prop} (h : Ensures I m s Q)
    (hIJ : ∀ v, I v → J v) (hQR : ∀ a v, I v → Q a v → R a v) : Ensures J m s R := by
  refine ⟨h.1.mono hIJ, ?_⟩
  obtain ⟨hkeep, hsat⟩ := h
  unfold Sat at hsat ⊢
  cases hr : (m.run s).result with
  | error e => trivial
  | ok a =>
    rw [hr] at hsat
    exact hQR a _ hkeep.2 hsat

theorem ensures_of_keeps (h : Keeps I m) (hs : I s) : Ensures I m s fun _ _ => True :=
  ⟨h s hs, sat_true⟩

end AtomicSteps
