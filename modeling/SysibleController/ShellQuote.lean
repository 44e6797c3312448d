import SysibleController.PathText

/-! `shlex.quote`: a text as one word of a POSIX shell. -/
namespace ShellQuote

open PathText

/-- A fixed text in parts. -/
def text (parts : List String) : Text := parts.flatMap String.toList

/-- Every character of the text is one byte. -/
def oneByte (s : String) : Bool := s.toByteArray.data.toList.all fun b => b.toNat.blt 128

/-- The characters of a text of one-byte characters. -/
def ofBytes (s : String) : Text := s.toByteArray.data.toList.map fun b => Char.ofNat b.toNat

theorem utf8Encode_cons (c : Char) (l : List Char) :
    (List.utf8Encode (c :: l)).data.toList =
      String.utf8EncodeChar c ++ (List.utf8Encode l).data.toList := by
  simp [List.utf8Encode, List.data_toByteArray]

theorem map_utf8EncodeChar {c : Char}
    (h : (String.utf8EncodeChar c).all fun b => b.toNat.blt 128) :
    (String.utf8EncodeChar c).map (fun b => Char.ofNat b.toNat) = [c] := by
  unfold String.utf8EncodeChar at h ⊢
  simp only at h ⊢
  split_ifs at h ⊢ with h1 h2 h3
  · have hc : c.toNat % 256 = c.toNat := Nat.mod_eq_of_lt (Nat.lt_of_le_of_lt h1 (by decide))
    simp [hc]
  all_goals
    simp [Nat.blt_eq] at h
    omega

theorem map_utf8Encode {l : List Char}
    (h : (List.utf8Encode l).data.toList.all fun b => b.toNat.blt 128) :
    (List.utf8Encode l).data.toList.map (fun b => Char.ofNat b.toNat) = l := by
  induction l with
  | nil => simp
  | cons c l ih =>
    rw [utf8Encode_cons, List.all_append, Bool.and_eq_true] at h
    rw [utf8Encode_cons, List.map_append, map_utf8EncodeChar h.1, ih h.2, List.singleton_append]

theorem toList_of_oneByte {s : String} (h : oneByte s) : s.toList = ofBytes s := by
  have hbytes : s.toList.utf8Encode = s.toByteArray := String.utf8Encode_toList
  rw [oneByte] at h
  rw [ofBytes, ← hbytes, map_utf8Encode (hbytes ▸ h)]

/-- What holds of a long fixed text is evaluated on its bytes: the characters of a string literal
take time quadratic in its length. -/
theorem text_of_bytes {P : Text → Prop} {parts : List String}
    (h : parts.all oneByte ∧ P (parts.flatMap ofBytes)) : P (text parts) := by
  have hparts : text parts = parts.flatMap ofBytes :=
    List.flatMap_congr fun s hs => toList_of_oneByte (List.all_eq_true.mp h.1 s hs)
  exact hparts ▸ h.2

/-- The characters that need no quotes. -/
def safe (c : Char) : Bool :=
  c.isAlphanum || c = '_' || "@%+=:,./-".toList.contains c

/-- `s.replace("'", "'\"'\"'")`. -/
def escaped (s : Text) : Text := s.flatMap fun c => if c = '\'' then "'\"'\"'".toList else [c]

def quote (s : Text) : Text :=
  if s = [] then "''".toList
  else if s.all safe then s
  else '\'' :: escaped s ++ ['\'']

theorem newline_notMem_quote {x : Text} (h : '\n' ∉ x) : '\n' ∉ quote x := by
  have hescaped : '\n' ∉ escaped x := by
    intro hmem
    obtain ⟨c, hc, hmem⟩ := List.mem_flatMap.mp hmem
    split_ifs at hmem with hq
    · exact absurd hmem (by decide)
    · obtain rfl := List.mem_singleton.mp hmem
      exact h hc
  unfold quote
  split_ifs
  · decide
  · exact h
  · simp [hescaped]

end ShellQuote
