import SysibleController.PosixPrograms

/-! Trees with the same directories and the same links: every path leads to the same places in
both. And a condition met before each round of a loop. -/
namespace AtomicSteps

open Prog EarlyExit

variable {σ ε α ι : Type} {m : Prog σ ε α} {s : σ} {Q Q' : α → σ → Prop} {E E' : ε → σ → Prop}

theorem Sat.and (h : Sat m s Q E) (h' : Sat m s Q' E') :
    Sat m s (fun a t => Q a t ∧ Q' a t) fun e t => E e t ∧ E' e t :=
  Ends.and h h'

/-- Every round of a loop begins in a state in which its item meets `C`. -/
def Throughout (C : ι → σ → Prop) (f : α → ι → Prog σ ε α) : List ι → α → σ → Prop
  | [], _, _ => True
  | x :: l, a, s => C x s ∧ Sat (f a x) s (fun b t => Throughout C f l b t) fun _ _ => True

/-- The loop rule for a preorder on the states. -/
theorem Throughout.sat {C : ι → σ → Prop} {f : α → ι → Prog σ ε α} {R : σ → σ → Prop}
    (hrefl : ∀ s, R s s) (htrans : ∀ s t u, R s t → R t u → R s u)
    (hround : ∀ a x s, C x s → Sat (f a x) s (fun _ => R s) fun _ => R s) {l : List ι} {a : α}
    {s : σ} (h : Throughout C f l a s) : Sat (l.foldlM f a) s (fun _ => R s) fun _ => R s := by
  induction l generalizing a s with
  | nil =>
    rw [List.foldlM_nil, sat_pure]
    exact hrefl s
  | cons x l ih =>
    obtain ⟨hx, hl⟩ := h
    rw [List.foldlM_cons]
    refine (((hround a x s hx).and hl).mono (fun _ _ h => h) fun _ _ h => h.1).bind ?_
    rintro b t ⟨hst, hl⟩
    exact (ih hl).mono (fun _ u => htrans s t u hst) fun _ u => htrans s t u hst

end AtomicSteps

namespace PosixTree

open AtomicSteps Prog EarlyExit

variable {γ : Type} {t u v : Tree γ} {p q cur : Path} {f : Bool} {comps : List Name} {host : Host}

/-- What a path meets there: nothing that leads on, a directory, or a link and its target. -/
def course : Node γ → Option (Option String)
  | .dir _ _ => some none
  | .link _ target => some (some target)
  | _ => none

def Alike (t u : Tree γ) : Prop := ∀ q, (t.get q).bind course = (u.get q).bind course

theorem Alike.refl (t : Tree γ) : Alike t t := fun _ => rfl

theorem Alike.symm (h : Alike t u) : Alike u t := fun q => (h q).symm

theorem Alike.trans (h : Alike t u) (k : Alike u v) : Alike t v := fun q => (h q).trans (k q)

theorem alike_put {node : Node γ} (h : (t.get q).bind course = course node) :
    Alike t (t.put q node) := by
  intro r
  rw [Tree.get_put]
  split_ifs with hr
  · rw [hr, h]
    rfl
  · rfl

theorem alike_setAttrs {node : Node γ} {a : Attrs} (h : t.get q = some node) :
    Alike t (t.put q (node.setAttrs a)) := by
  refine alike_put ?_
  rw [h]
  cases node <;> rfl

theorem walk_alike {jump jump' : Path → List Name → Except Errno Path} (h : Alike t u)
    (hjump : ∀ base parts, jump base parts = .ok q → jump' base parts = .ok q)
    (hq : walkWith t f jump cur comps = .ok q) : walkWith u f jump' cur comps = .ok q := by
  induction comps generalizing cur with
  | nil => exact hq
  | cons c rest ih =>
    have hc := h (cur ++ [c])
    rw [walkWith] at hq ⊢
    by_cases hskip : c = "" ∨ c = "."
    · rw [if_pos hskip] at hq ⊢
      exact ih hq
    by_cases hup : c = ".."
    · rw [if_neg hskip, if_pos hup] at hq ⊢
      exact ih hq
    rw [if_neg hskip, if_neg hup] at hq ⊢
    -- what stands under the name decides, and it is the same in both trees
    rcases ht : t.get (cur ++ [c]) with _ | (_ | _ | _ | _) <;>
      rcases hu : u.get (cur ++ [c]) with _ | (_ | _ | _ | _) <;>
      simp only [ht, hu, course, Option.bind_none, Option.bind_some, reduceCtorEq,
        Option.some.injEq] at hc hq ⊢
    case some.dir.some.dir => exact ih hq
    case some.link.some.link =>
      subst hc
      split_ifs at hq ⊢
      · exact hq
      · exact hjump _ _ hq
    all_goals
      split_ifs at hq ⊢
      exact hq

theorem resolve_alike (h : Alike t u) : ∀ {k : ℕ} {cur : Path} {comps : List Name},
    resolve t f k cur comps = .ok q → resolve u f k cur comps = .ok q
  | 0, _, _, hq => walk_alike h (fun _ _ hq => hq) hq
  | _ + 1, _, _, hq => walk_alike h (fun _ _ hq => resolve_alike h hq) hq

theorem Alike.locate (h : Alike t u) (hq : PosixTree.locate t f p = .ok q) :
    PosixTree.locate u f p = .ok q := resolve_alike h hq

/-! ### Followed or not -/

theorem walk_follow {jump jump' : Path → List Name → Except Errno Path}
    (hl : ∀ a target, t.get q ≠ some (.link a target))
    (hjump : ∀ base parts, jump base parts = .ok q → jump' base parts = .ok q)
    (hq : walkWith t false jump cur comps = .ok q) : walkWith t true jump' cur comps = .ok q := by
  induction comps generalizing cur with
  | nil => exact hq
  | cons c rest ih =>
    rw [walkWith] at hq ⊢
    by_cases hskip : c = "" ∨ c = "."
    · rw [if_pos hskip] at hq ⊢
      exact ih hq
    by_cases hup : c = ".."
    · rw [if_neg hskip, if_pos hup] at hq ⊢
      exact ih hq
    rw [if_neg hskip, if_neg hup] at hq ⊢
    rcases ht : t.get (cur ++ [c]) with _ | (_ | _ | ⟨a, target⟩ | _) <;> simp only [ht] at hq ⊢
    case some.dir => exact ih hq
    case some.link =>
      rw [if_neg (by simp)]
      split_ifs at hq with hlast
      · obtain rfl := Except.ok.inj hq
        exact absurd ht (hl a target)
      · exact hjump _ _ hq
    all_goals exact hq

theorem resolve_follow (hl : ∀ a target, t.get q ≠ some (.link a target)) :
    ∀ {k : ℕ} {cur : Path} {comps : List Name},
      resolve t false k cur comps = .ok q → resolve t true k cur comps = .ok q
  | 0, _, _, hq => walk_follow hl (fun _ _ hq => hq) hq
  | _ + 1, _, _, hq => walk_follow hl (fun _ _ hq => resolve_follow hl hq) hq

/-- Where a path leads to no link, following makes no difference. -/
theorem locate_follow (h : locate t false p = .ok q)
    (hl : ∀ a target, t.get q ≠ some (.link a target)) : locate t true p = .ok q :=
  resolve_follow hl h

theorem walk_stops {jump jump' : Path → List Name → Except Errno Path}
    (hjump : ∀ base parts q, jump base parts = .ok q → ∃ r, jump' base parts = .ok r)
    (hq : walkWith t true jump cur comps = .ok q) :
    ∃ r, walkWith t false jump' cur comps = .ok r := by
  induction comps generalizing cur with
  | nil => exact ⟨cur, rfl⟩
  | cons c rest ih =>
    rw [walkWith] at hq ⊢
    by_cases hskip : c = "" ∨ c = "."
    · rw [if_pos hskip] at hq ⊢
      exact ih hq
    by_cases hup : c = ".."
    · rw [if_neg hskip, if_pos hup] at hq ⊢
      exact ih hq
    rw [if_neg hskip, if_neg hup] at hq ⊢
    rcases ht : t.get (cur ++ [c]) with _ | (_ | _ | ⟨a, target⟩ | _) <;> simp only [ht] at hq ⊢
    case some.dir => exact ih hq
    case some.link =>
      rw [if_neg (by simp)] at hq
      split_ifs with hlast
      · exact ⟨_, rfl⟩
      · exact hjump _ _ _ hq
    all_goals exact ⟨_, hq⟩

theorem resolve_stops : ∀ {k : ℕ} {cur q : Path} {comps : List Name},
    resolve t true k cur comps = .ok q → ∃ r, resolve t false k cur comps = .ok r
  | 0, _, _, _, hq => walk_stops (fun _ _ _ hq => ⟨_, hq⟩) hq
  | _ + 1, _, _, _, hq => walk_stops (fun _ _ _ hq => resolve_stops hq) hq

theorem locate_unfollowed (h : locate t true p = .ok q) : ∃ r, locate t false p = .ok r :=
  resolve_stops h

/-! ### A new directory -/

theorem walk_new {jump jump' : Path → List Name → Except Errno Path} {a : Attrs} {l : Bool}
    (hnone : t.get q = none)
    (hjump : ∀ base parts, jump base parts = .ok q → jump' base parts = .ok q)
    (hq : walkWith t false jump cur comps = .ok q) :
    walkWith (t.put q (.dir a l)) true jump' cur comps = .ok q := by
  induction comps generalizing cur with
  | nil => exact hq
  | cons c rest ih =>
    rw [walkWith] at hq ⊢
    by_cases hskip : c = "" ∨ c = "."
    · rw [if_pos hskip] at hq ⊢
      exact ih hq
    by_cases hup : c = ".."
    · rw [if_neg hskip, if_pos hup] at hq ⊢
      exact ih hq
    rw [if_neg hskip, if_neg hup] at hq ⊢
    by_cases hnew : cur ++ [c] = q
    · rw [Tree.get_put, if_pos hnew]
      simp only [hnew, hnone] at hq
      split_ifs at hq with hlast
      rw [hlast, hnew]
      rfl
    · rw [Tree.get_put, if_neg hnew]
      rcases ht : t.get (cur ++ [c]) with _ | (_ | _ | ⟨b, target⟩ | _) <;> simp only [ht] at hq ⊢
      case some.dir => exact ih hq
      case some.link =>
        rw [if_neg (by simp)]
        split_ifs at hq with hlast
        · exact absurd (Except.ok.inj hq) hnew
        · exact hjump _ _ hq
      all_goals exact hq

theorem resolve_new {a : Attrs} {l : Bool} (hnone : t.get q = none) :
    ∀ {k : ℕ} {cur : Path} {comps : List Name}, resolve t false k cur comps = .ok q →
      resolve (t.put q (.dir a l)) true k cur comps = .ok q
  | 0, _, _, hq => walk_new hnone (fun _ _ hq => hq) hq
  | _ + 1, _, _, hq => walk_new hnone (fun _ _ hq => resolve_new hnone hq) hq

/-- A path on which a directory has just been made leads to it. -/
theorem isdir_of_mkdir (h : mkdir host p t = .ok u) : isdir u p = true := by
  obtain ⟨q, a, hq, hnone, rfl⟩ := mkdir_form h
  exact isdir_iff.mpr ⟨q, resolve_new hnone hq, a, true, by rw [Tree.get_put, if_pos rfl]⟩

/-! ### Writing -/

/-- A write makes a file, changes one, or goes to a device. -/
theorem writeFile_cases {c : γ} (h : writeFile host p c t = .ok u) :
    ∃ q, locate t true p = .ok q ∧ (u = t ∧ (∃ a, t.get q = some (.special a .device)) ∨
      (∃ a, u = t.put q (.file a c true)) ∧
        (t.get q = none ∨ ∃ a c' r, t.get q = some (.file a c' r))) := by
  obtain ⟨q, hq, h⟩ := EarlyExit.bind_ok h
  refine ⟨q, hq, ?_⟩
  split at h
  · next hnone => exact .inr ⟨⟨_, (Except.ok.inj h).symm⟩, .inl hnone⟩
  · next a c' r hfile => exact .inr ⟨⟨a, (Except.ok.inj h).symm⟩, .inr ⟨a, c', r, hfile⟩⟩
  · next a hdevice => exact .inl ⟨(Except.ok.inj h).symm, a, hdevice⟩
  · cases h
  · cases h

theorem alike_writeFile {c : γ} (h : writeFile host p c t = .ok u) : Alike t u := by
  obtain ⟨q, -, ⟨rfl, -⟩ | ⟨⟨a, rfl⟩, hnone | ⟨a', c', r, hfile⟩⟩⟩ := writeFile_cases h
  · exact .refl _
  · exact alike_put (by rw [hnone]; rfl)
  · exact alike_put (by rw [hfile]; rfl)

/-- A copy that goes through has written what it read. -/
theorem sat_copyfile_cases {src dst : Path} : Sat (copyfile host src dst) t
    (fun _ u => ∃ c, readFile t src = .ok c ∧ writeFile host dst c t = .ok u)
    fun _ u => u = t := by
  rw [copyfile, sat_bind, sat_forbid]
  split_ifs
  · rfl
  · rw [sat_bind, sat_forbid]
    split_ifs
    · rfl
    · rw [sat_bind, sat_query]
      cases hread : readFile t src with
      | error e => rfl
      | ok c =>
        rw [ends_ok, sat_step]
        cases hwrite : writeFile host dst c t with
        | error e => rfl
        | ok u => exact ⟨c, rfl, hwrite⟩

end PosixTree
