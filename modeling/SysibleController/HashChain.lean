import Mathlib.Data.List.Chain
import Mathlib.Order.Lattice

/-! Hash-chained records, over any record type and any digest. A chain is sound when every
record carries the digest of its own content and names the digest of its predecessor. The
first record may point anywhere, so a chain stays sound when its oldest part is dropped,
and equally when its newest part is: nothing inside a chain says where it should end. -/
namespace HashChain

variable {ρ η : Type*}

/-- `content` is what the digest covers, the link to the predecessor included. -/
structure Scheme (ρ η : Type*) where
  prev : ρ → η
  entry : ρ → η
  digest : ρ → Option η

def Scheme.Genuine (S : Scheme ρ η) (r : ρ) : Prop := S.digest r = some (S.entry r)

def Scheme.Linked (S : Scheme ρ η) : List ρ → Prop := List.IsChain fun a b => S.prev b = S.entry a

structure Scheme.Sound (S : Scheme ρ η) (rows : List ρ) : Prop where
  genuine : ∀ r ∈ rows, S.Genuine r
  linked : S.Linked rows

variable {S : Scheme ρ η}

theorem Scheme.Sound.nil : S.Sound [] := ⟨by simp, .nil⟩

theorem Scheme.Sound.segment {rows part : List ρ} (h : S.Sound rows) (hp : part <:+: rows) :
    S.Sound part :=
  ⟨fun r hr => h.genuine r (hp.subset hr), List.IsChain.infix h.linked hp⟩

/-- Appending keeps a chain sound when the new record names the last one. -/
theorem Scheme.Sound.snoc {rows : List ρ} {r : ρ} (h : S.Sound rows) (hr : S.Genuine r)
    (hlink : ∀ last ∈ rows.getLast?, S.prev r = S.entry last) : S.Sound (rows ++ [r]) := by
  constructor
  · intro x hx
    rcases List.mem_append.mp hx with hx | hx
    · exact h.genuine x hx
    · exact List.mem_singleton.mp hx ▸ hr
  · refine List.isChain_append.mpr ⟨h.linked, List.isChain_singleton _, ?_⟩
    intro last hlast y hy
    rw [List.head?_cons, Option.mem_some_iff] at hy
    exact hy ▸ hlink last hlast

/-- In a list that ascends in `key`, keeping what lies above a cutoff keeps a suffix. -/
theorem filter_above_suffix {κ : Type*} [LinearOrder κ] (key : ρ → κ) (cutoff : κ)
    {rows : List ρ} (h : rows.Pairwise fun a b => key a < key b) :
    rows.filter (fun r => cutoff < key r) <:+ rows := by
  induction rows with
  | nil => simp
  | cons r rows ih =>
    obtain ⟨hr, hrows⟩ := List.pairwise_cons.mp h
    by_cases hc : cutoff < key r
    · have hall : (r :: rows).filter (fun r => cutoff < key r) = r :: rows := by
        refine List.filter_eq_self.mpr fun x hx => ?_
        rcases List.mem_cons.mp hx with rfl | hx
        · exact decide_eq_true hc
        · exact decide_eq_true (hc.trans (hr x hx))
      exact ⟨[], by rw [List.nil_append, hall]⟩
    · rw [List.filter_cons_of_neg (by simpa using hc)]
      exact (ih hrows).trans (List.suffix_cons r rows)

end HashChain
