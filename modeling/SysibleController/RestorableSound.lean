import SysibleController.FlashbackRestorable

/-! What the restore rule promises of the entry that a restore replaces: the path with its
directory resolved. The roots are compared with both spellings of the path, the exclude list
with the one that was asked for. -/
namespace FlashbackCapture

open PosixTree PathText

variable {γ : Type} (cfg : Settings γ) (m : Machine γ) (f : Text)

/-- The path of the entry that the rename of a restore replaces. -/
def resolvedEntry : Option Text :=
  (realpath m (if dirname f = [] then ['/'] else dirname f)).map
    fun real => join (stripped real) (basename f)

def Allowed : Prop := fbRestorable cfg m f = .ok ()

/-- The entry lies inside a tracked root or its resolved form and is not excluded. -/
def EntrySound : Prop :=
  ∃ entry, resolvedEntry m f = some entry ∧ inside cfg m entry = true ∧ fbExcluded cfg entry = false

/-- The exclude list does not tell the path from the entry it resolves to. -/
def ExcludedAlike : Prop :=
  ∀ entry, resolvedEntry m f = some entry → fbExcluded cfg entry = fbExcluded cfg f

variable {cfg m f} {d : Text} {c : Path} {n : Name}

theorem contained_iff : Contained cfg m f ↔
    inside cfg m f = true ∧ ∃ entry, resolvedEntry m f = some entry ∧ inside cfg m entry = true := by
  unfold Contained resolvedEntry
  simp only [Option.map_eq_some_iff]
  refine and_congr_right fun _ => ⟨?_, ?_⟩
  · rintro ⟨real, hreal, hin⟩
    exact ⟨_, ⟨real, hreal, rfl⟩, hin⟩
  · rintro ⟨_, ⟨real, hreal, rfl⟩, hin⟩
    exact ⟨real, hreal, hin⟩

/-- What is allowed resolves to an entry inside the roots, and is itself not excluded. -/
theorem Allowed.entry (h : Allowed cfg m f) : fbExcluded cfg f = false ∧
    ∃ entry, resolvedEntry m f = some entry ∧ inside cfg m entry = true := by
  obtain ⟨-, -, hx, -, hc⟩ := fbRestorable_ok_iff.mp h
  exact ⟨hx, (contained_iff.mp hc).2⟩

/-- A name in a directory that exists resolves to its place in the tree. -/
theorem resolvedEntry_join (hd : d ≠ []) (hn : IsName n.toList) (h : Leads m.tree (place m d) c) :
    resolvedEntry m (join d n.toList) = some (absText (c ++ [n])) := by
  rw [resolvedEntry, realpath_dirname hd hn h, Option.map_some, stripped_absText h.dir,
    basename_join hd hn, join_absText h.dir hn]

/-- Without a symbolic link on the way the path is the entry. -/
theorem excludedAlike_of_straight (hn : IsName n.toList)
    (h : Leads m.tree (place m (absText c)) c) :
    ExcludedAlike cfg m (join (absText c) n.toList) := by
  intro entry hentry
  have hresolved := resolvedEntry_join (absText_ne_nil c) hn h
  rw [hentry, Option.some.injEq] at hresolved
  rw [hresolved, join_absText h.dir hn]

/-- Exactly when the rule is sound about a path. -/
theorem allowed_sound_iff (cfg : Settings γ) (m : Machine γ) (f : Text) :
    (Allowed cfg m f → EntrySound cfg m f) ↔ (Allowed cfg m f → ExcludedAlike cfg m f) := by
  refine forall_congr' fun h => ?_
  obtain ⟨hx, entry, hentry, hin⟩ := h.entry
  constructor
  · rintro ⟨entry', hentry', -, hx'⟩ e he
    obtain rfl : entry' = e := Option.some.inj (hentry'.symm.trans he)
    rw [hx, hx']
  · intro halike
    exact ⟨entry, hentry, hin, (halike entry hentry).trans hx⟩

/-! ### A link to a directory with an excluded file -/

def linkedTree : PosixTree.Tree String where
  nodes := AList.insert [] (.dir ⟨0o755, 0, 0⟩ true)
    (AList.insert ["etc"] (.dir ⟨0o755, 0, 0⟩ true)
      (AList.insert ["etc", "ssl"] (.dir ⟨0o755, 0, 0⟩ true)
        (AList.insert ["etc", "pki"] (.link ⟨0o777, 0, 0⟩ "ssl") ∅)))

theorem linkedTree_names : ∀ p ∈ linkedTree.nodes.keys, ∀ n ∈ p, '/' ∉ n.toList := by
  decide

def linkedMachine : Machine String where
  tree := linkedTree
  wf := wellFormed_of_check (by decide)
  slashless := fun _ _ h => linkedTree_names _ (PosixTree.Tree.mem_keys.mpr h) _ (by simp)
  cwd := []
  cwdDir := ⟨_, _, rfl⟩
  astray := some

def linkedSettings : Settings String :=
  { slashSettings with fbPaths := "/etc".toList, fbExclude := "/etc/ssl/key".toList }

/-- `/etc/pki` is a link to `/etc/ssl`, and `/etc/ssl/key` is excluded. -/
theorem excluded_through_link : ¬(Allowed linkedSettings linkedMachine "/etc/pki/key".toList →
    EntrySound linkedSettings linkedMachine "/etc/pki/key".toList) := by
  intro h
  obtain ⟨entry, hentry, -, hx⟩ := h (by unfold Allowed; decide)
  obtain rfl : entry = "/etc/ssl/key".toList := by
    have hresolved : resolvedEntry linkedMachine "/etc/pki/key".toList =
        some "/etc/ssl/key".toList := by decide
    exact Option.some.inj (hentry.symm.trans hresolved)
  exact absurd hx (by decide)

end FlashbackCapture
