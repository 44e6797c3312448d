import SysibleController.FstabPersist

/-! The line that is added to `/etc/fstab`, read back: exactly when it is the entry that was asked
for. -/
namespace FstabPersist

open PathText PythonText ShellReader FstabLine

variable {t mnt line opts : Text} {c : Char} {device mountPoint fstype options dump passNum server
  exportPath share username password command : Text}

variable {call : Call} {echo : List Text → Text} {e : Entry} {sep : Char} {rest : Text}

theorem appended_printf (h : appenders fstab command = [["printf".toList, "%s\\n".toList, line]]) :
    appended echo command = some (line ++ ['\n']) := by
  rw [appended, h]
  simp [written]

theorem appended_echo (h : appenders fstab command = [["echo".toList, line]]) :
    appended echo command = some (echo [line]) := by
  rw [appended, h]
  simp [written]

theorem asAsked_iff (h : appended echo command = some (line ++ ['\n'])) (hline : '\n' ∉ line) :
    call.AsAsked echo command ↔ FstabLine.parse line = some call.entry := by
  constructor
  · rintro ⟨line', happended, -, hparse⟩
    have heq := List.append_cancel_right (Option.some.inj (h.symm.trans happended))
    exact heq ▸ hparse
  · exact fun hparse => ⟨line, h, hline, hparse⟩

theorem newline_line (hsep : sep ≠ '\n') (he : e.All Field) (hrest : '\n' ∉ rest) :
    '\n' ∉ e.line sep rest := by
  rw [Entry.line, List.mem_append, List.mem_flatMap, not_or]
  refine ⟨?_, hrest⟩
  rintro ⟨x, hx, hmem⟩
  rcases List.mem_append.mp hmem with hmem | hmem
  · exact (Entry.all_iff.mp he x hx).newline hmem
  · exact hsep (List.mem_singleton.mp hmem).symm

theorem All.begins (h : e.All Field) : e.All Begins :=
  ⟨h.1.begins, h.2.1.begins, h.2.2.1.begins, h.2.2.2.begins⟩

/-- An `echo` that writes nothing wherever it is free to. -/
def sparing (args : List Text) : Text :=
  match args with
  | [t] => if t = "-n".toList ∨ '\\' ∈ t then [] else t ++ ['\n']
  | _ => []

theorem conforming_sparing : Conforming sparing := by
  intro t hdash hslash
  unfold sparing
  exact if_neg (not_or.mpr ⟨hdash, hslash⟩)

/-- What every conforming `echo` makes of a line with a tab. -/
theorem all_echo_iff (h : appenders fstab command = [["echo".toList, line]]) (htab : '\t' ∈ line)
    (hline : '\n' ∉ line) : (∀ echo, Conforming echo → call.AsAsked echo command) ↔
      '\\' ∉ line ∧ FstabLine.parse line = some call.entry := by
  have hdash : line ≠ "-n".toList := fun hl => by
    rw [hl] at htab
    exact absurd htab (by decide)
  constructor
  · intro hall
    have hslash : '\\' ∉ line := by
      intro hmem
      obtain ⟨line', happended, -⟩ := hall sparing conforming_sparing
      rw [appended_echo h] at happended
      have hnil : sparing [line] = [] := if_pos (.inr hmem)
      rw [hnil] at happended
      have hlen := congrArg List.length (Option.some.inj happended)
      rw [List.length_append, List.length_nil, List.length_singleton] at hlen
      omega
    have happended : appended sparing command = some (line ++ ['\n']) := by
      rw [appended_echo h, conforming_sparing line hdash hslash]
    exact ⟨hslash, (asAsked_iff happended hline).mp (hall sparing conforming_sparing)⟩
  · rintro ⟨hslash, hparse⟩ echo hecho
    have happended : appended echo command = some (line ++ ['\n']) := by
      rw [appended_echo h, hecho line hdash hslash]
    exact (asAsked_iff happended hline).mpr hparse

theorem clean_run {f : Char → Bool} (hsep : f ' ' = false ∧ f '\t' = false ∧ f '\\' = false)
    {x : Text} (h : ∀ c ∈ x, f c = true) : Clean x ∧ '\\' ∉ x := by
  obtain ⟨hblank, htab, hslash⟩ := hsep
  have hnot : ∀ d, f d = false → d ∉ x := by
    intro d hd hmem
    rw [h d hmem] at hd
    cases hd
  refine ⟨clean_plain (fun c hc => ?_) (hnot _ hslash), hnot _ hslash⟩
  by_contra hc'
  rw [Bool.not_eq_false, isSeparator, Bool.or_eq_true, decide_eq_true_eq, decide_eq_true_eq] at hc'
  rcases hc' with rfl | rfl
  · exact hnot _ hblank hc
  · exact hnot _ htab hc

theorem clean_orDefaults : Clean (orDefaults opts) ↔ Clean opts := by
  unfold orDefaults
  split_ifs with hnil
  · subst hnil
    exact iff_of_true (clean_plainText (by decide)) (clean_plainText rfl)
  · rfl

theorem slash_orDefaults : '\\' ∈ orDefaults opts ↔ '\\' ∈ opts := by
  unfold orDefaults
  split_ifs with hnil
  · subst hnil
    exact iff_of_false (by decide) nofun
  · rfl

theorem clean_spaceless (h : ∀ c ∈ t, isSpace c = false) : Clean t ↔ hasEscape t = false :=
  and_iff_right fun c hc => isSeparator_of_isSpace (h c hc)

theorem clean_host {x : Text} (h : hostRe (stripText server) = true) :
    Clean (stripText server ++ x) ↔ Clean x := by
  obtain ⟨hclean, hslash⟩ := clean_run (by decide) (runOf_strip h).2
  exact clean_append_left hslash hclean.1

theorem clean_cons {x : Text} (hc : isSeparator c = false ∧ c ≠ '\\') :
    Clean (c :: x) ↔ Clean x := by
  have happend : c :: x = [c] ++ x := rfl
  rw [happend]
  refine clean_append_left (fun hmem => hc.2 (List.mem_singleton.mp hmem).symm) fun d hd => ?_
  obtain rfl := List.mem_singleton.mp hd
  exact hc.1

theorem clean_credPath (h : Clean mnt) : Clean (credPath mnt) := by
  have hpart : Clean ((mnt.dropWhile (· = '/')).rdropWhile (· = '/')) := by
    obtain ⟨front, hfront⟩ := List.dropWhile_suffix (l := mnt) (· = '/')
    obtain ⟨back, hback⟩ := List.rdropWhile_prefix (· = '/') (mnt.dropWhile (· = '/'))
    refine Clean.part (p := front) (y := back) ?_
    rw [List.append_assoc, hback, hfront]
    exact h
  have hname : Clean (((mnt.dropWhile (· = '/')).rdropWhile (· = '/')).map fun c =>
      if c = '/' then '-' else c) := by
    refine ⟨fun c hc => ?_, ?_⟩
    · obtain ⟨d, hd, rfl⟩ := List.mem_map.mp hc
      split_ifs
      · rfl
      · exact hpart.1 d hd
    · rw [hasEscape_map ?_ ?_, hpart.2]
      · intro c
        split_ifs with hslash <;> simp [hslash]
      · intro c
        split_ifs with hslash
        · subst hslash
          rfl
        · rfl
  unfold credPath
  dsimp only
  rw [List.append_assoc]
  refine (clean_after (by decide)).mpr ?_
  refine (clean_append (d := '.') rfl).mpr ⟨?_, clean_plainText (by decide)⟩
  split_ifs
  · exact clean_plainText (by decide)
  · exact hname

theorem clean_cifsOptions (h : Clean mnt) : Clean (cifsOptions mnt opts) ↔ Clean opts := by
  have hhead : Clean ("credentials=".toList ++ credPath mnt) :=
    (clean_after (by decide)).mpr (clean_credPath h)
  unfold cifsOptions
  split_ifs with hnil
  · subst hnil
    rw [List.append_nil]
    exact iff_of_true hhead (clean_plainText rfl)
  · rw [clean_append rfl, clean_cons (by decide)]
    exact and_iff_right hhead

theorem slash_line (hf : '\\' ∉ e.fstype) (hsep : sep ≠ '\\') (hrest : '\\' ∉ rest) :
    '\\' ∉ e.line sep rest ↔ '\\' ∉ e.source ∧ '\\' ∉ e.target ∧ '\\' ∉ e.options := by
  simp [Entry.line, Entry.fields, hf, hsep.symm, hrest]

theorem add_iff
    (h : (Call.add device mountPoint fstype options dump passNum).command = .ok command) :
    (∀ echo, Conforming echo →
        (Call.add device mountPoint fstype options dump passNum).AsAsked echo command) ↔
      (Call.add device mountPoint fstype options dump passNum).Plain := by
  obtain ⟨rest, ⟨hrest, hrestslash⟩, hfields, hspace, hftype, happenders⟩ := add_ok h
  obtain ⟨hftclean, hftslash⟩ := clean_run (by decide) (runOf_strip hftype).2
  have htab :
      '\t' ∈ (Call.add device mountPoint fstype options dump passNum).entry.line '\t' rest := by
    simp [Entry.line, Entry.fields]
  have hf : '\\' ∉ (Call.add device mountPoint fstype options dump passNum).entry.fstype := by
    simpa only [Call.entry] using hftslash
  rw [all_echo_iff happenders htab (newline_line (by decide) hfields hrest),
    parse_line_iff (by decide) (All.begins hfields), slash_line hf (by decide) hrestslash]
  simp only [Call.entry, Call.Plain, Bare, Entry.All, clean_orDefaults, slash_orDefaults]
  constructor
  · rintro ⟨⟨hd, hm, ho⟩, ⟨hdclean, hmclean, -⟩, hcomment⟩
    exact ⟨⟨hdclean.1, hd⟩, ⟨hmclean.1, hm⟩, ho, hcomment⟩
  · rintro ⟨⟨hdsep, hd⟩, ⟨hmsep, hm⟩, ho, hcomment⟩
    have hoclean : Clean (stripText options) :=
      clean_plain (fun c hc => isSeparator_of_isSpace (hspace c hc)) ho
    exact ⟨⟨hd, hm, ho⟩, ⟨clean_plain hdsep hd, clean_plain hmsep hm, hftclean, hoclean⟩, hcomment⟩

/-- `printf` writes its argument as it is, so any `echo` will do. -/
theorem mount_iff (happenders : appenders fstab command =
      [["printf".toList, "%s\\n".toList, call.entry.line ' ' "0 0".toList]])
    (hfields : call.entry.All Field) :
    (∀ echo, Conforming echo → call.AsAsked echo command) ↔
      call.entry.All Clean ∧ call.entry.source.head? ≠ some '#' := by
  have hline : '\n' ∉ call.entry.line ' ' "0 0".toList :=
    newline_line (by decide) hfields (by decide)
  have hone : ∀ echo, call.AsAsked echo command ↔
      FstabLine.parse (call.entry.line ' ' "0 0".toList) = some call.entry := fun _ =>
    asAsked_iff (appended_printf happenders) hline
  simp only [hone, parse_line_iff (by decide : isSeparator ' ' = true) (All.begins hfields)]
  exact ⟨fun hall => hall sparing conforming_sparing, fun hparse _ _ => hparse⟩

theorem nfs_iff (h : (Call.nfs server exportPath mountPoint options).command = .ok command) :
    (∀ echo, Conforming echo →
        (Call.nfs server exportPath mountPoint options).AsAsked echo command) ↔
      (Call.nfs server exportPath mountPoint options).Plain := by
  obtain ⟨hfields, hspace, hhost, happenders⟩ := nfs_ok h
  rw [mount_iff happenders hfields]
  have hcomment : (stripText server ++ ':' :: stripText exportPath).head? ≠ some '#' := by
    obtain ⟨hne, hall⟩ := runOf_strip hhost
    obtain ⟨d, more, hd⟩ := List.exists_cons_of_ne_nil hne
    rw [hd] at hall ⊢
    intro hhead
    have hsharp : hostChar '#' = true := Option.some.inj hhead ▸ hall d List.mem_cons_self
    exact absurd hsharp (by decide)
  have hnfs : Clean "nfs".toList := clean_plainText (by decide)
  have hcolon : Clean (':' :: stripText exportPath) ↔ Clean (stripText exportPath) :=
    clean_cons (by decide)
  simp only [Call.entry, Call.Plain, Entry.All, clean_host hhost, hcolon, clean_orDefaults,
    clean_spaceless hspace]
  constructor
  · rintro ⟨⟨hexport, hmnt, -, hopts⟩, -⟩
    exact ⟨hexport, hmnt, hopts⟩
  · rintro ⟨hexport, hmnt, hopts⟩
    exact ⟨⟨hexport, hmnt, hnfs, hopts⟩, hcomment⟩

theorem cifs_iff
    (h : (Call.cifs server share mountPoint username password options).command = .ok command) :
    (∀ echo, Conforming echo →
        (Call.cifs server share mountPoint username password options).AsAsked echo command) ↔
      (Call.cifs server share mountPoint username password options).Plain := by
  obtain ⟨hfields, hspace, hhost, happenders⟩ := cifs_ok h
  rw [mount_iff happenders hfields]
  have hcifs : Clean "cifs".toList := clean_plainText (by decide)
  have hunc : Clean ("//".toList ++ stripText server ++ '/' :: stripText share) ↔
      Clean (stripText share) := by
    rw [List.append_assoc, clean_after (by decide), clean_host hhost,
      clean_cons (by decide)]
  have hcomment : ("//".toList ++ stripText server ++ '/' :: stripText share).head? ≠ some '#' := by
    have hhead : ("//".toList ++ stripText server ++ '/' :: stripText share).head? = some '/' := rfl
    rw [hhead]
    decide
  simp only [Call.entry, Call.Plain, Entry.All, hunc]
  constructor
  · rintro ⟨⟨hshare, hmnt, -, hopts⟩, -⟩
    exact ⟨hshare, hmnt, (clean_spaceless hspace).mp ((clean_cifsOptions hmnt).mp hopts)⟩
  · rintro ⟨hshare, hmnt, hopts⟩
    exact ⟨⟨hshare, hmnt, hcifs, (clean_cifsOptions hmnt).mpr ((clean_spaceless hspace).mpr hopts)⟩,
      hcomment⟩

/-- An accepted call appends one line that is read as the entry that was asked for, whatever the
`echo`, exactly when its fields are written as they are read. -/
theorem entry_as_asked_iff (call : Call) (command : Text) (h : call.command = .ok command) :
    (∀ echo, Conforming echo → call.AsAsked echo command) ↔ call.Plain := by
  cases call with
  | add => exact add_iff h
  | nfs => exact nfs_iff h
  | cifs => exact cifs_iff h

theorem nfs_accepted {m o : Text} (hm : validatePath "Mount point" mountPoint = .ok m)
    (hhost : hostRe (stripText server) = true) (hslash : (stripText exportPath).head? = some '/')
    (hbad : ((stripText exportPath).any fun c => c = '\x00' || c = '\n' || c = '\r') = false)
    (ho : validateMountOptions options = .ok o) :
    ∃ command, (Call.nfs server exportPath mountPoint options).command = .ok command := by
  let src := stripText server ++ ':' :: stripText exportPath
  refine ⟨nfsCommand src m (orDefaults o) ++
    persistCommand m "nfs".toList (mountLine src m "nfs".toList (orDefaults o)), ?_⟩
  change cmdMountNfs server exportPath mountPoint options true = _
  unfold cmdMountNfs
  rw [hm]
  dsimp only [bind, Except.bind]
  rw [if_neg (not_not.mpr hhost), if_neg (not_not.mpr hslash), if_neg (by simp [hbad]), ho]
  rfl

def sample (mountPoint : String) : Call :=
  .nfs "nas".toList "/data".toList mountPoint.toList "ro".toList

theorem entry_as_asked_sample : ∃ command, (sample "/mnt/data").command = .ok command ∧
    ∀ echo, Conforming echo → (sample "/mnt/data").AsAsked echo command := by
  obtain ⟨command, hok⟩ : ∃ command, (sample "/mnt/data").command = .ok command :=
    nfs_accepted (m := "/mnt/data".toList) (o := "ro".toList) (by decide) (by decide) (by decide)
      (by decide) (by decide)
  exact ⟨command, hok, (entry_as_asked_iff _ command hok).mpr
    ⟨clean_plainText (by decide), clean_plainText (by decide), by decide⟩⟩

/-- A mount point with a blank in it is accepted. -/
theorem blank_mount_point_misread : ¬∀ call command, Call.command call = .ok command →
    ∀ echo, Conforming echo → call.AsAsked echo command := by
  intro hall
  obtain ⟨command, hok⟩ : ∃ command, (sample "/mnt/My Data").command = .ok command :=
    nfs_accepted (m := "/mnt/My Data".toList) (o := "ro".toList) (by decide) (by decide) (by decide)
      (by decide) (by decide)
  have hasked := hall _ command hok sparing conforming_sparing
  obtain ⟨hfields, -, -, happenders⟩ := nfs_ok hok
  have hparse := (asAsked_iff (appended_printf happenders)
    (newline_line (by decide) hfields (by decide))).mp hasked
  have hfalse : FstabLine.parse ((sample "/mnt/My Data").entry.line ' ' "0 0".toList) ≠
      some (sample "/mnt/My Data").entry := by decide
  exact hfalse hparse

end FstabPersist
