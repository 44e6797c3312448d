import SysibleController.EarlyExit
import SysibleController.PathResolution

/-! What the system calls do at a name in a directory that has been reached. -/
namespace PosixTree

variable {γ : Type} {t u : Tree γ} {p d c : Path} {n m : Name} {f : Bool} {host : Host}

section Child

variable (hc : DirClosed t) (hd : Leads t d c) (hn : ValidName n)

include hc hd hn

theorem locate_child : locate t false (d ++ [n]) = .ok (c ++ [n]) :=
  hc.locate_snoc hd.locate hd.dir hn fun _ _ _ => rfl

theorem locate_child_follow (hl : ∀ a target, t.get (c ++ [n]) ≠ some (.link a target)) :
    locate t true (d ++ [n]) = .ok (c ++ [n]) :=
  hc.locate_snoc hd.locate hd.dir hn fun a target h => absurd h (hl a target)

theorem leads_child (h : DirAt t (c ++ [n])) : Leads t (d ++ [n]) (c ++ [n]) := by
  refine ⟨locate_child_follow hc hd hn fun a target hl => ?_, h⟩
  obtain ⟨b, l, h⟩ := h
  exact nomatch h.symm.trans hl

theorem lstat_child : lstat t (d ++ [n]) =
    match t.get (c ++ [n]) with | some node => .ok node | none => .error .noent := by
  unfold lstat nodeAt
  rw [locate_child hc hd hn]
  rfl

theorem islink_child : islink t (d ++ [n]) = (t.get (c ++ [n])).any Node.isLink := by
  unfold islink
  rw [lstat_child hc hd hn]
  cases t.get (c ++ [n]) <;> rfl

theorem stat_child (hl : ∀ a target, t.get (c ++ [n]) ≠ some (.link a target)) :
    stat t (d ++ [n]) =
      match t.get (c ++ [n]) with | some node => .ok node | none => .error .noent := by
  unfold stat nodeAt
  rw [locate_child_follow hc hd hn hl]
  rfl

theorem pathExists_child (hl : ∀ a target, t.get (c ++ [n]) ≠ some (.link a target)) :
    pathExists t (d ++ [n]) = (t.get (c ++ [n])).isSome := by
  unfold pathExists
  rw [stat_child hc hd hn hl]
  cases t.get (c ++ [n]) <;> rfl

theorem islink_or_exists :
    (islink t (d ++ [n]) || pathExists t (d ++ [n])) = (t.get (c ++ [n])).isSome := by
  rw [islink_child hc hd hn]
  by_cases hl : ∃ a target, t.get (c ++ [n]) = some (.link a target)
  · obtain ⟨a, target, hl⟩ := hl
    simp [hl, Node.isLink]
  · rw [pathExists_child hc hd hn fun a target h => hl ⟨a, target, h⟩]
    cases t.get (c ++ [n]) <;> simp

theorem unlink_child : unlink (d ++ [n]) t =
    match t.get (c ++ [n]) with
    | some (.dir _ _) => .error .isdir
    | some _ => .ok (t.drop (c ++ [n]))
    | none => .error .noent := by
  unfold unlink
  rw [locate_child hc hd hn]
  rfl

theorem symlink_child {target : String} (ht : target ≠ "") (h : t.get (c ++ [n]) = none) :
    symlink target (d ++ [n]) t = .ok (t.put (c ++ [n]) (.link ⟨0o777, 0, 0⟩ target)) := by
  unfold symlink
  rw [locate_child hc hd hn]
  simp [bind, Except.bind, h, ht]

theorem chmod_child {mode : ℕ} {node : Node γ} (h : t.get (c ++ [n]) = some node)
    (hl : node.isLink = false) :
    chmod (d ++ [n]) mode t =
      .ok (t.put (c ++ [n]) (node.setAttrs { node.attrs with mode := mode })) := by
  unfold chmod
  rw [locate_child_follow hc hd hn fun a target hlink => ?_]
  · simp [bind, Except.bind, h]
  · rw [Option.some.inj (h.symm.trans hlink)] at hl
    exact nomatch hl

theorem chown_file {uid gid : ℕ} {a : Attrs} {b : γ} {r : Bool}
    (h : t.get (c ++ [n]) = some (.file a b r)) :
    chown (d ++ [n]) uid gid t =
      .ok (t.put (c ++ [n]) (.file ⟨a.mode % 0o2000, uid, gid⟩ b r)) := by
  unfold chown
  rw [locate_child_follow hc hd hn fun a target hlink => ?_]
  · simp [bind, Except.bind, h]
  · exact nomatch h.symm.trans hlink

theorem writeFile_new {b : γ} (h : t.get (c ++ [n]) = none) :
    writeFile host (d ++ [n]) b t =
      .ok (t.put (c ++ [n]) (.file (newFile host (attrsOf t c)) b true)) := by
  unfold writeFile
  rw [locate_child_follow hc hd hn fun a target hlink => nomatch h.symm.trans hlink]
  simp [bind, Except.bind, h]

theorem writeFile_file {b b' : γ} {a : Attrs} {r : Bool}
    (h : t.get (c ++ [n]) = some (.file a b' r)) :
    writeFile host (d ++ [n]) b t = .ok (t.put (c ++ [n]) (.file a b true)) := by
  unfold writeFile
  rw [locate_child_follow hc hd hn fun a target hlink => nomatch h.symm.trans hlink]
  simp [bind, Except.bind, h]

theorem mkdir_child (h : t.get (c ++ [n]) = none) :
    mkdir host (d ++ [n]) t =
      .ok (t.put (c ++ [n]) (.dir (newDir host (attrsOf t c)) true)) := by
  unfold mkdir
  rw [locate_child hc hd hn]
  simp [bind, Except.bind, h]

theorem mkdir_exists {node : Node γ} (h : t.get (c ++ [n]) = some node) :
    mkdir host (d ++ [n]) t = .error .exist := by
  unfold mkdir
  rw [locate_child hc hd hn]
  simp [bind, Except.bind, h]

end Child

theorem chmod_leads {mode : ℕ} {a : Attrs} {l : Bool} (hd : Leads t d c)
    (hget : t.get c = some (.dir a l)) :
    chmod d mode t = .ok (t.put c (.dir { a with mode := mode } l)) := by
  unfold chmod
  simp [bind, Except.bind, hd.locate, hget, Node.setAttrs, Node.attrs]

/-- A rename onto anything but a directory, within one device. -/
theorem rename_child {d' c' : Path} (hc : DirClosed t) (hd : Leads t d c) (hn : ValidName n)
    (hd' : Leads t d' c') (hm : ValidName m) {node : Node γ} (h : t.get (c ++ [n]) = some node)
    (hnode : node.isDir = false) (hdev : host.device c = host.device c')
    (ht : (t.get (c' ++ [m])).any Node.isDir = false) :
    rename host (d ++ [n]) (d' ++ [m]) t =
      .ok ((t.drop (c ++ [n])).put (c' ++ [m]) node) := by
  unfold rename
  rw [locate_child hc hd hn, locate_child hc hd' hm]
  rcases node with _ | _ | _ | _
  · exact nomatch hnode
  all_goals simp [bind, Except.bind, h, hdev, ht]

theorem rename_onto_dir {d' c' : Path} (hc : DirClosed t) (hd : Leads t d c) (hn : ValidName n)
    (hd' : Leads t d' c') (hm : ValidName m) {node : Node γ} (h : t.get (c ++ [n]) = some node)
    (hnode : node.isDir = false) (hdev : host.device c = host.device c')
    (ht : DirAt t (c' ++ [m])) :
    rename host (d ++ [n]) (d' ++ [m]) t = .error .isdir := by
  obtain ⟨a, l, ht⟩ := ht
  unfold rename
  rw [locate_child hc hd hn, locate_child hc hd' hm]
  rcases node with _ | _ | _ | _
  · exact nomatch hnode
  all_goals simp [bind, Except.bind, h, hdev, ht, Node.isDir]

/-! ### What a call that succeeds has done -/

variable {q : Path}

theorem isDir_setAttrs (node : Node γ) (a : Attrs) : (node.setAttrs a).isDir = node.isDir := by
  cases node <;> rfl

theorem not_dirAt_of_get {node : Node γ} (h : t.get q = some node) (hnode : node.isDir = false) :
    ¬ DirAt t q := by
  rintro ⟨a, l, hget⟩
  obtain rfl := Option.some.inj (h.symm.trans hget)
  cases hnode

theorem isDir_of_dirAt {node : Node γ} (h : DirAt t q) (hget : t.get q = some node) :
    node.isDir = true := by
  obtain ⟨a, l, hdir⟩ := h
  obtain rfl := Option.some.inj (hget.symm.trans hdir)
  rfl

theorem not_dirAt_of_none (h : t.get q = none) : ¬ DirAt t q := by
  rintro ⟨a, l, hget⟩
  rw [h] at hget
  cases hget

theorem setAttrs_target {node : Node γ} {b a : Attrs} {target : String}
    (h : node.setAttrs b = .link a target) : ∃ a', node = .link a' target := by
  cases node with
  | link a' target' =>
    obtain ⟨-, rfl⟩ : b = a ∧ target' = target := by simpa [Node.setAttrs] using h
    exact ⟨a', rfl⟩
  | _ => cases h

theorem readFile_ok {c : γ} (h : readFile t p = .ok c) :
    ∃ q a, locate t true p = .ok q ∧ t.get q = some (.file a c true) := by
  unfold readFile stat nodeAt at h
  cases hq : locate t true p with
  | error e => simp [hq, bind, Except.bind] at h
  | ok q =>
    simp only [hq, bind, Except.bind] at h
    split at h
    · cases h
    · next node hnode =>
      split at hnode
      · next node' hget =>
        obtain rfl := Except.ok.inj hnode
        split at h
        · next a c' =>
          obtain rfl := Except.ok.inj h
          exact ⟨q, a, rfl, hget⟩
        all_goals cases h
      · cases hnode

theorem chmod_form {mode : ℕ} (h : chmod p mode t = .ok u) : ∃ q node a, locate t true p = .ok q ∧
    t.get q = some node ∧ u = t.put q (node.setAttrs a) := by
  obtain ⟨q, hq, h⟩ := EarlyExit.bind_ok h
  split at h
  · next node hnode => exact ⟨q, node, _, hq, hnode, (Except.ok.inj h).symm⟩
  · cases h

theorem chown_form {uid gid : ℕ} (h : chown p uid gid t = .ok u) : ∃ q node a,
    locate t true p = .ok q ∧ t.get q = some node ∧ u = t.put q (node.setAttrs a) := by
  obtain ⟨q, hq, h⟩ := EarlyExit.bind_ok h
  split at h
  · next a c r hnode => exact ⟨q, _, _, hq, hnode, (Except.ok.inj h).symm⟩
  · next node hnot hnode => exact ⟨q, node, _, hq, hnode, (Except.ok.inj h).symm⟩
  · cases h

theorem unlink_form (h : unlink p t = .ok u) : ∃ q node, locate t false p = .ok q ∧
    t.get q = some node ∧ node.isDir = false ∧ u = t.drop q := by
  obtain ⟨q, hq, h⟩ := EarlyExit.bind_ok h
  split at h
  · cases h
  · next node hnot hnode =>
    refine ⟨q, node, hq, hnode, ?_, (Except.ok.inj h).symm⟩
    cases node with
    | dir a l => exact absurd rfl (hnot a l)
    | _ => rfl
  · cases h

theorem symlink_form {target : String} (h : symlink target p t = .ok u) : ∃ q a,
    locate t false p = .ok q ∧ t.get q = none ∧ u = t.put q (.link a target) := by
  obtain ⟨q, hq, h⟩ := EarlyExit.bind_ok h
  split at h
  · cases h
  · next hnone =>
    split at h
    · cases h
    · exact ⟨q, _, hq, hnone, (Except.ok.inj h).symm⟩

theorem mkdir_form (h : mkdir host p t = .ok u) : ∃ q a, locate t false p = .ok q ∧
    t.get q = none ∧ u = t.put q (.dir a true) := by
  obtain ⟨q, hq, h⟩ := EarlyExit.bind_ok h
  split at h
  · cases h
  · next hnone => exact ⟨q, _, hq, hnone, (Except.ok.inj h).symm⟩

theorem writeFile_form {c : γ} (h : writeFile host p c t = .ok u) : u = t ∨
    ∃ q a, locate t true p = .ok q ∧ ¬ DirAt t q ∧ u = t.put q (.file a c true) := by
  obtain ⟨q, hq, h⟩ := EarlyExit.bind_ok h
  split at h
  · next hnone =>
    exact .inr ⟨q, _, hq, not_dirAt_of_none hnone, (Except.ok.inj h).symm⟩
  · next a c' r hnode =>
    exact .inr ⟨q, a, hq, not_dirAt_of_get hnode rfl, (Except.ok.inj h).symm⟩
  · exact .inl (Except.ok.inj h).symm
  · cases h
  · cases h

theorem rename_form {src dst : Path} (h : rename host src dst t = .ok u) : ∃ s d node,
    locate t false src = .ok s ∧ locate t false dst = .ok d ∧ t.get s = some node ∧
    node.isDir = false ∧ ¬ DirAt t d ∧ u = (t.drop s).put d node := by
  obtain ⟨s, hs, h⟩ := EarlyExit.bind_ok h
  obtain ⟨d, hd, h⟩ := EarlyExit.bind_ok h
  split at h
  · cases h
  · cases h
  · next _ _ node hnot hnode =>
    split_ifs at h with hdev hdir
    refine ⟨s, d, node, hs, hd, hnode, ?_, ?_, (Except.ok.inj h).symm⟩
    · cases node with
      | dir a l => exact absurd rfl (hnot a l)
      | _ => rfl
    · rintro ⟨a, l, hget⟩
      rw [hget] at hdir
      exact hdir rfl

end PosixTree
