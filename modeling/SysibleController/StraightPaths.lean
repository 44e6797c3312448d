import SysibleController.PosixPrograms

/-! Paths without `..` on which no link stands: they lead nowhere but to their own place. -/
namespace PosixTree

variable {γ : Type} {t u : Tree γ} {p q d : Path} {n : Name} {S : Path → Prop} {f : Bool}

def LinkAt (t : Tree γ) (q : Path) : Prop := ∃ a target, t.get q = some (.link a target)

/-- The place of a path that no link and no `..` diverts. -/
def straight (p : Path) : Path := p.filter fun c => c ≠ "" ∧ c ≠ "."

/-- A path that goes up nowhere and over no place of `S`; over its own only if it is not
followed. -/
structure Direct (S : Path → Prop) (f : Bool) (p : Path) : Prop where
  up : ".." ∉ p
  links : ∀ pre post, pre ++ post = p → (post = [] → f = true) → ¬ S (straight pre)

theorem straight_append (p q : Path) : straight (p ++ q) = straight p ++ straight q :=
  List.filter_append p q

theorem straight_of_names (h : ∀ m ∈ p, ValidName m) : straight p = p := by
  refine List.filter_eq_self.mpr fun m hm => ?_
  obtain ⟨hne, hdot, -⟩ := h m hm
  simp [hne, hdot]

theorem Direct.take (h : Direct S f p) (hq : q <+: p) (hne : q ≠ p) : Direct S true q := by
  obtain ⟨r, rfl⟩ := hq
  refine ⟨fun hup => h.up (by simp [hup]), fun pre post heq _ => ?_⟩
  refine h.links pre (post ++ r) (by simp [← heq]) fun hnil => ?_
  obtain ⟨-, rfl⟩ := List.append_eq_nil_iff.mp hnil
  simp at hne

theorem Direct.unfollowed (h : Direct S true p) : Direct S f p :=
  ⟨h.up, fun pre post heq _ => h.links pre post heq fun _ => rfl⟩

theorem Direct.snoc (h : Direct S true d) (hn : n ≠ "..") : Direct S false (d ++ [n]) := by
  refine ⟨by simp [h.up, hn.symm], fun pre post heq hpost => ?_⟩
  rcases List.eq_nil_or_concat' post with rfl | ⟨r, m, rfl⟩
  · exact absurd (hpost rfl) (by decide)
  · rw [← List.append_assoc] at heq
    obtain ⟨rfl, -⟩ := List.append_inj' heq rfl
    exact h.links pre r rfl fun _ => rfl

theorem Direct.followed (h : Direct S false p) (hp : ¬ S (straight p)) : Direct S true p := by
  refine ⟨h.up, fun pre post heq _ => ?_⟩
  by_cases hpost : post = []
  · subst hpost
    rw [List.append_nil] at heq
    exact heq ▸ hp
  · exact h.links pre post heq fun hnil => absurd hnil hpost

theorem Direct.anti {S' : Path → Prop} (h : Direct S f p) (hS : ∀ q, S' q → S q) :
    Direct S' f p := ⟨h.up, fun pre post heq hpost hlink => h.links pre post heq hpost (hS _ hlink)⟩

theorem walk_straight {jump : Path → List Name → Except Errno Path} {cur comps : Path}
    (hup : ".." ∉ comps) (hl : ∀ pre post, pre ≠ [] → pre ++ post = comps →
      (post = [] → f = true) → ¬ LinkAt t (cur ++ straight pre))
    (h : walkWith t f jump cur comps = .ok q) : q = cur ++ straight comps := by
  induction comps generalizing cur with
  | nil =>
    obtain rfl := Except.ok.inj h
    simp [straight]
  | cons c rest ih =>
    obtain ⟨hc, hrest⟩ : ".." ≠ c ∧ ".." ∉ rest := by simpa using hup
    rw [walkWith] at h
    have hnext : ∀ pre post, pre ≠ [] → pre ++ post = rest → (post = [] → f = true) →
        ¬ LinkAt t (cur ++ straight (c :: pre)) :=
      fun pre post _ heq hpost => hl (c :: pre) post (by simp) (by simp [heq]) hpost
    by_cases hskip : c = "" ∨ c = "."
    · have hstay : ∀ pre, straight (c :: pre) = straight pre := by
        intro pre
        rcases hskip with rfl | rfl <;> simp [straight]
      rw [if_pos hskip] at h
      simp only [hstay] at hnext ⊢
      exact ih hrest hnext h
    rw [if_neg hskip, if_neg hc.symm] at h
    obtain ⟨hempty, hdot⟩ := not_or.mp hskip
    have hgo : ∀ pre, cur ++ straight (c :: pre) = cur ++ [c] ++ straight pre := by
      intro pre
      simp [straight, hempty, hdot]
    have hnil : straight ([] : Path) = [] := rfl
    have hlast : rest = [] → cur ++ [c] = cur ++ straight (c :: rest) := by
      rintro rfl
      rw [hgo, hnil, List.append_nil]
    split at h
    · simp only [hgo] at hnext ⊢
      exact ih hrest hnext h
    · next a target hlink =>
      by_cases hend : rest = [] ∧ f = false
      · rw [if_pos hend] at h
        exact (Except.ok.inj h).symm.trans (hlast hend.1)
      · have hfollow : rest = [] → f = true := by
          intro hr
          simpa using fun hf => hend ⟨hr, hf⟩
        refine absurd ⟨a, target, ?_⟩ (hl [c] rest (by simp) rfl hfollow)
        rwa [hgo, hnil, List.append_nil]
    all_goals
      split_ifs at h with hr
      exact (Except.ok.inj h).symm.trans (hlast hr)

theorem locate_straight (hS : ∀ q, LinkAt t q → S q) (hp : Direct S f p)
    (h : locate t f p = .ok q) : q = straight p := by
  have hl : ∀ pre post, pre ≠ [] → pre ++ post = p → (post = [] → f = true) →
      ¬ LinkAt t ([] ++ straight pre) :=
    fun pre post _ heq hpost hlink => hp.links pre post heq hpost (hS _ hlink)
  unfold locate at h
  rw [resolve_eq] at h
  exact walk_straight hp.up hl h

/-- What can be followed can be looked at. -/
theorem walk_unfollowed {jump jump' : Path → List Name → Except Errno Path} {cur comps : Path}
    (hup : ".." ∉ comps) (hl : ∀ pre post, pre ≠ [] → post ≠ [] → pre ++ post = comps →
      ¬ LinkAt t (cur ++ straight pre))
    (h : walkWith t true jump cur comps = .ok q) :
    ∃ r, walkWith t false jump' cur comps = .ok r := by
  induction comps generalizing cur with
  | nil => exact ⟨cur, rfl⟩
  | cons c rest ih =>
    obtain ⟨hc, hrest⟩ : ".." ≠ c ∧ ".." ∉ rest := by simpa using hup
    rw [walkWith] at h ⊢
    have hnext : ∀ pre post, pre ≠ [] → post ≠ [] → pre ++ post = rest →
        ¬ LinkAt t (cur ++ straight (c :: pre)) :=
      fun pre post _ hpost heq => hl (c :: pre) post (by simp) hpost (by simp [heq])
    by_cases hskip : c = "" ∨ c = "."
    · have hstay : ∀ pre, straight (c :: pre) = straight pre := by
        intro pre
        rcases hskip with rfl | rfl <;> simp [straight]
      rw [if_pos hskip] at h ⊢
      simp only [hstay] at hnext
      exact ih hrest hnext h
    rw [if_neg hskip, if_neg hc.symm] at h ⊢
    obtain ⟨hempty, hdot⟩ := not_or.mp hskip
    have hgo : ∀ pre, cur ++ straight (c :: pre) = cur ++ [c] ++ straight pre := by
      intro pre
      simp [straight, hempty, hdot]
    cases hget : t.get (cur ++ [c]) with
    | none =>
      simp only [hget] at h ⊢
      split_ifs at h ⊢
      exact ⟨_, rfl⟩
    | some node =>
      cases node with
      | dir a l =>
        simp only [hget] at h ⊢
        simp only [hgo] at hnext
        exact ih hrest hnext h
      | link a target =>
        by_cases hend : rest = []
        · exact ⟨cur ++ [c], by simp [hend]⟩
        · refine absurd ⟨a, target, ?_⟩ (hl [c] rest (by simp) hend rfl)
          rw [hgo]
          simpa [straight] using hget
      | _ =>
        simp only [hget] at h ⊢
        split_ifs at h ⊢
        exact ⟨_, rfl⟩

theorem not_linkAt_of_reused (hS : ∀ q, LinkAt u q → S q) (hp : Direct S false p)
    (hex : pathExists u p = true) (hlink : islink u p = false) : ¬ LinkAt u (straight p) := by
  rintro ⟨a, target, hget⟩
  have hfollow : ∃ q, locate u true p = .ok q := by
    unfold pathExists stat nodeAt at hex
    cases hl : locate u true p with
    | ok q => exact ⟨q, rfl⟩
    | error e =>
      rw [hl] at hex
      cases hex
  obtain ⟨q, hq⟩ := hfollow
  unfold locate at hq
  rw [resolve_eq] at hq
  obtain ⟨r, hr⟩ : ∃ r, walkWith u false (hop u false maxLinks) [] p = .ok r := by
    refine walk_unfollowed hp.up (fun pre post _ hpost heq hat => ?_) hq
    exact hp.links pre post heq (fun hnil => absurd hnil hpost) (hS _ hat)
  have hr' : locate u false p = .ok r := by
    unfold locate
    rw [resolve_eq]
    exact hr
  obtain rfl := locate_straight hS hp hr'
  unfold islink lstat nodeAt at hlink
  simp [hr', bind, Except.bind, hget, Node.isLink] at hlink

/-! ## Directories on the way -/

/-- Every name on the path is a directory. -/
def Paved (t : Tree γ) (p : Path) : Prop := ∀ s, s <+: p → s ≠ [] → DirAt t s

theorem Paved.put {node : Node γ} (h : Paved t d) : Paved (t.put (d ++ [n]) node) d := by
  intro s hs hne
  have hsd : s ≠ d ++ [n] := by
    rintro rfl
    have hlen := hs.length_le
    rw [List.length_append, List.length_singleton] at hlen
    omega
  obtain ⟨a, l, hget⟩ := h s hs hne
  exact ⟨a, l, by rw [Tree.get_put, if_neg hsd, hget]⟩

theorem resolve_paved {f : Bool} {k : ℕ} (rest : List Name) : ∀ (p cur : Path),
    (∀ n ∈ p, ValidName n) → (∀ s, s <+: p → s ≠ [] → DirAt t (cur ++ s)) →
      resolve t f k cur (p ++ rest) = resolve t f k (cur ++ p) rest
  | [], cur, _, _ => by simp
  | n :: p, cur, hn, hd => by
    have hfirst : DirAt t (cur ++ [n]) := hd [n] ⟨p, rfl⟩ (by simp)
    rw [List.cons_append, resolve_dir (hn n (by simp)) hfirst]
    have hnext : ∀ s, s <+: p → s ≠ [] → DirAt t (cur ++ [n] ++ s) := by
      intro s hs _
      simpa using hd (n :: s) (List.cons_prefix_cons.mpr ⟨rfl, hs⟩) (by simp)
    have hrest := resolve_paved (f := f) (k := k) rest p (cur ++ [n])
      (fun m hm => hn m (by simp [hm])) hnext
    simpa using hrest

theorem locate_paved {f : Bool} {d : Path} (hd : Paved t d) (hn : ∀ m ∈ d, ValidName m)
    (hname : ValidName n) (hl : LinkAt t (d ++ [n]) → f = false) :
    locate t f (d ++ [n]) = .ok (d ++ [n]) := by
  unfold locate
  rw [resolve_paved [n] d [] hn (by simpa [Paved] using hd), List.nil_append]
  exact resolve_last hname fun a target hget => hl ⟨a, target, hget⟩

/-- What a walk passes over are directories. -/
theorem walk_paves {jump : Path → List Name → Except Errno Path} {f : Bool} {cur comps : Path}
    (hn : ∀ n ∈ comps, ValidName n) (hl : ∀ s, s <+: comps → s ≠ comps → s ≠ [] →
      ¬ LinkAt t (cur ++ s)) (h : walkWith t f jump cur comps = .ok q) :
    ∀ s, s <+: comps → s ≠ comps → s ≠ [] → DirAt t (cur ++ s) := by
  induction comps generalizing cur with
  | nil =>
    intro s hs hne
    exact absurd (List.prefix_nil.mp hs) hne
  | cons c rest ih =>
    intro s hs hne hnil
    obtain ⟨r, s, rfl⟩ := List.exists_cons_of_ne_nil hnil
    obtain ⟨rfl, htail⟩ := List.cons_prefix_cons.mp hs
    have hrest : rest ≠ [] := by
      rintro rfl
      obtain rfl : s = [] := List.prefix_nil.mp htail
      exact hne rfl
    obtain ⟨hempty, hdot, hup⟩ := hn r (by simp)
    have hfirst : ¬ LinkAt t (cur ++ [r]) :=
      hl [r] ⟨rest, rfl⟩ (by simpa using hrest.symm) (by simp)
    have hbelow : ∀ s', s' <+: rest → s' ≠ rest → s' ≠ [] → ¬ LinkAt t (cur ++ [r] ++ s') := by
      intro s' hs' hne' _
      have := hl (r :: s') (List.cons_prefix_cons.mpr ⟨rfl, hs'⟩) (by simpa using hne') (by simp)
      simpa using this
    rw [walkWith, if_neg (not_or.mpr ⟨hempty, hdot⟩), if_neg hup] at h
    split at h
    · next a l hget =>
      by_cases hs' : s = []
      · subst hs'
        exact ⟨a, l, hget⟩
      · have hin := ih (fun m hm => hn m (by simp [hm])) hbelow h s htail
          (fun heq => hne (by rw [heq])) hs'
        simpa using hin
    · next a target hget => exact absurd ⟨a, target, hget⟩ hfirst
    · rw [if_neg hrest] at h
      cases h
    · rw [if_neg hrest] at h
      cases h

/-- The way to a place that is found goes over directories. -/
theorem paved_below {s : Path} (hn : ∀ m ∈ d, ValidName m) (hp : Direct (LinkAt t) false d)
    (hq : locate t f d = .ok q) (hs : s <+: d) (hsd : s ≠ d) (hne : s ≠ []) : DirAt t s := by
  have hl : ∀ s, s <+: d → s ≠ d → s ≠ [] → ¬ LinkAt t ([] ++ s) := by
    rintro s ⟨r, rfl⟩ hsd _ hlink
    refine hp.links s r rfl (fun hr => absurd ?_ hsd) ?_
    · simp [hr]
    · rwa [straight_of_names fun m hm => hn m (by simp [hm])]
  unfold locate at hq
  rw [resolve_eq] at hq
  simpa using walk_paves hn hl hq s hs hsd hne

theorem paved_of_locate (hn : ∀ m ∈ d, ValidName m) (hp : Direct (LinkAt t) false d)
    (hq : locate t f d = .ok q) (hd : DirAt t d) : Paved t d := by
  intro s hs hne
  by_cases hall : s = d
  · exact hall ▸ hd
  · exact paved_below hn hp hq hs hall hne

end PosixTree
