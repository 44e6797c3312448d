import SysibleController.AgentCommand
import SysibleController.JsonText

/-! What of an execution reaches the controller: the status, the output of both streams as far as it
is kept, and whether the serialised result is short enough to be taken (`send_result`,
`TaskResultRequest`). -/
namespace AgentCommand

open PathText PythonText AgentTransfer JsonText

/-- `json.dumps(result)` -/
def resultJson (res : Result) : Text :=
  "\x7b\"stdout\": ".toList ++ dumps res.stdout ++ ", \"stderr\": ".toList ++ dumps res.stderr ++
    ", \"returncode\": ".toList ++ (toString res.returncode).toList ++ "\x7d".toList

/-- `_RESULT_MAX` where `SYSIBLE_MAX_RESULT_BYTES` is not set, in characters. -/
def resultMax : ℕ := 4 * 1024 * 1024

/-- The standard output comes through up to the limit and with nothing else where it is short. -/
def CarriesStdout (sent t : Text) : Prop :=
  t.take maxOutput <+: sent ∧ (t.length ≤ maxOutput → sent = t)

/-- The error output comes through up to the limit, but for white space at its end, for which the
agent may put a note. -/
def CarriesStderr (sent t : Text) : Prop := rstrip (t.take maxOutput) <+: sent

structure Reported (env : Surroundings) (limit : ℕ) (res : Result) (code : ℤ)
    (stdout stderr : Bytes) : Prop where
  returncode : res.returncode = code
  stdout : ∃ t, env.decode stdout = some t ∧ CarriesStdout res.stdout t
  stderr : ∃ t, env.decode stderr = some t ∧ CarriesStderr res.stderr t
  accepted : (resultJson res).length ≤ limit

def kept (t : Text) : Text := truncate (translateNewlines t)

def noted (t : Text) : Option Text → Text
  | none => t
  | some note => rstrip t ++ note

/-- Both streams are text of the locale without a carriage return in the part that is kept, and take
no more than the limit when they are escaped. -/
def Sendable (env : Surroundings) (limit : ℕ) (code : ℤ) (stdout stderr : Bytes)
    (note : Option Text) : Prop :=
  ∃ out err, env.decode stdout = some out ∧ env.decode stderr = some err ∧
    '\r' ∉ out.take maxOutput ∧ '\r' ∉ rstrip (err.take maxOutput) ∧
    44 + textCost (kept out) + textCost (noted (kept err) note) + (toString code).length ≤ limit

/-! ### White space at the end -/

variable {t k : Text}

theorem rstrip_append (t y : Text) :
    rstrip (t ++ y) = if rstrip y = [] then rstrip t else t ++ rstrip y := by
  rw [rstrip, rstrip, rstrip, List.rdropWhile, List.rdropWhile, List.rdropWhile,
    List.reverse_append, List.dropWhile_append]
  by_cases h : y.reverse.dropWhile isSpace = []
  · simp [h]
  · simp [h]

theorem rstrip_prefix (t : Text) : rstrip t <+: t := List.rdropWhile_prefix _ _

theorem rstrip_ne_nil {d : Char} (hd : d ∈ t) (hs : isSpace d = false) : rstrip t ≠ [] := by
  intro h
  rw [rstrip, List.rdropWhile_eq_nil_iff] at h
  rw [h d hd] at hs
  cases hs

/-- A text without white space at its end is still there after the rest was stripped. -/
theorem prefix_rstrip (hk : rstrip k = k) (h : k <+: t) : k <+: rstrip t := by
  obtain ⟨y, rfl⟩ := h
  rw [rstrip_append]
  split
  · exact ⟨[], by rw [List.append_nil, hk]⟩
  · exact List.prefix_append _ _

theorem rstrip_rstrip (t : Text) : rstrip (rstrip t) = rstrip t := List.rdropWhile_idempotent _ _

theorem last_of_rstrip {pre : Text} {c : Char} (h : rstrip (pre ++ [c]) = pre ++ [c]) :
    isSpace c = false := by
  by_contra hc
  rw [Bool.not_eq_false] at hc
  rw [rstrip, List.rdropWhile_concat_pos _ _ _ hc] at h
  have hlen := congrArg List.length h
  have hle := (List.rdropWhile_prefix isSpace pre).length_le
  rw [List.length_append, List.length_singleton] at hlen
  omega

/-! ### Line ends -/

theorem translateNewlines_cons {c : Char} (hc : c ≠ '\r') (t : Text) :
    translateNewlines (c :: t) = c :: translateNewlines t := by
  rw [translateNewlines, if_neg hc]
  rintro rest rfl
  exact absurd rfl hc

theorem translateNewlines_append {a : Text} (ha : '\r' ∉ a) (b : Text) :
    translateNewlines (a ++ b) = a ++ translateNewlines b := by
  induction a with
  | nil => rfl
  | cons c a ih =>
    rw [List.mem_cons, not_or] at ha
    rw [List.cons_append, translateNewlines_cons (Ne.symm ha.1), ih ha.2, List.cons_append]

theorem mem_translateNewlines {d : Char} (hd : d ∈ t) (hs : isSpace d = false) :
    d ∈ translateNewlines t := by
  have hr : d ≠ '\r' := by
    rintro rfl
    exact absurd hs (by decide)
  have hn : d ≠ '\n' := by
    rintro rfl
    exact absurd hs (by decide)
  induction t using translateNewlines.induct with
  | case1 => exact hd
  | case2 t ih =>
    rw [translateNewlines]
    rw [List.mem_cons, List.mem_cons] at hd
    exact List.mem_cons_of_mem _ (ih ((hd.resolve_left hr).resolve_left hn))
  | case3 c t hpair ih =>
    rw [translateNewlines.eq_3 _ _ hpair]
    rcases List.mem_cons.mp hd with rfl | hd
    · rw [if_neg hr]
      exact List.mem_cons_self
    · exact List.mem_cons_of_mem _ (ih hd)

/-- A carriage return becomes a newline, and what is not white space is kept after it. -/
theorem translateNewlines_return (t : Text) : ∃ r, translateNewlines ('\r' :: t) = '\n' :: r ∧
    ∀ d ∈ t, isSpace d = false → d ∈ r := by
  by_cases hpair : ∃ rest, t = '\n' :: rest
  · obtain ⟨rest, rfl⟩ := hpair
    refine ⟨translateNewlines rest, by rw [translateNewlines], ?_⟩
    intro d hd hs
    rcases List.mem_cons.mp hd with rfl | hd
    · exact absurd hs (by decide)
    · exact mem_translateNewlines hd hs
  · refine ⟨translateNewlines t, ?_, fun d hd hs => mem_translateNewlines hd hs⟩
    rw [translateNewlines, if_pos rfl]
    rintro rest - rfl
    exact hpair ⟨rest, rfl⟩

/-! ### The limit -/

theorem marker_kept (n : ℕ) :
    ']' ∈ (s!"\n...[truncated, {n} more bytes]").toList := by
  simp [toString]

/-- What comes before a character within the limit is not touched by the cut. -/
theorem truncate_split (pre r : Text) (c : Char) (h : pre.length < maxOutput) :
    ∃ r', truncate (pre ++ c :: r) = pre ++ c :: r' ∧
      ((∃ d ∈ r, isSpace d = false) → ∃ d ∈ r', isSpace d = false) := by
  rw [truncate]
  split
  · exact ⟨r, rfl, id⟩
  · obtain ⟨n, hn⟩ : ∃ n, maxOutput - pre.length = n + 1 := ⟨maxOutput - pre.length - 1, by omega⟩
    rw [List.take_append, List.take_of_length_le (by omega), hn, List.take_succ_cons,
      List.append_assoc, List.cons_append]
    exact ⟨_, rfl, fun _ => ⟨']', List.mem_append_right _ (marker_kept _), by decide⟩⟩

theorem prefix_truncate (h : k.length ≤ maxOutput) (y : Text) : k <+: truncate (k ++ y) := by
  rw [truncate]
  split
  · exact List.prefix_append _ _
  · rw [List.take_append, List.take_of_length_le h, List.append_assoc]
    exact List.prefix_append _ _

/-- Two texts that go on differently after the same start. -/
theorem not_prefix {pre x y : Text} {c d : Char} (h : c ≠ d) :
    ¬pre ++ c :: x <+: pre ++ d :: y := by
  rw [List.prefix_append_right_inj, List.cons_prefix_cons]
  exact fun hcd => h hcd.1

theorem carriesStdout_iff (t : Text) : CarriesStdout (kept t) t ↔ '\r' ∉ t.take maxOutput := by
  rw [CarriesStdout, kept]
  constructor
  · rintro ⟨hfront, -⟩ hmem
    obtain ⟨pre, post, htake, hpre⟩ := List.eq_append_cons_of_mem hmem
    have hlen : pre.length < maxOutput := by
      have htotal := congrArg List.length htake
      rw [List.length_append, List.length_cons, List.length_take] at htotal
      omega
    have ht : t = pre ++ '\r' :: (post ++ t.drop maxOutput) := by
      rw [← List.cons_append, ← List.append_assoc, ← htake, List.take_append_drop]
    obtain ⟨r, hr, -⟩ := translateNewlines_return (post ++ t.drop maxOutput)
    obtain ⟨r', hr', -⟩ := truncate_split pre r '\n' hlen
    have htranslated : translateNewlines t = pre ++ '\n' :: r := by
      rw [← hr, ← translateNewlines_append hpre, ← ht]
    rw [htranslated, hr', htake] at hfront
    exact not_prefix (by decide) hfront
  · intro hmem
    have ht := translateNewlines_append hmem (t.drop maxOutput)
    rw [List.take_append_drop] at ht
    rw [ht]
    refine ⟨prefix_truncate (List.length_take_le _ _) _, ?_⟩
    intro hshort
    rw [List.take_of_length_le hshort, List.drop_of_length_le hshort, translateNewlines,
      List.append_nil, truncate, if_pos hshort]

/-- The sent text still has its start, with a note or without one. -/
theorem prefix_noted (hk : rstrip k = k) (h : k <+: t) (note : Option Text) :
    k <+: noted t note := by
  cases note with
  | none => exact h
  | some note => exact (prefix_rstrip hk h).trans (List.prefix_append _ _)

theorem carriesStderr_iff (t : Text) (note : Option Text) :
    CarriesStderr (noted (kept t) note) t ↔ '\r' ∉ rstrip (t.take maxOutput) := by
  rw [CarriesStderr, kept]
  obtain ⟨w, hw⟩ := rstrip_prefix (t.take maxOutput)
  have hself := rstrip_rstrip (t.take maxOutput)
  generalize rstrip (t.take maxOutput) = k at hw hself ⊢
  have ht : t = k ++ (w ++ t.drop maxOutput) := by
    rw [← List.append_assoc, hw, List.take_append_drop]
  have hlength : k.length ≤ maxOutput := by
    have htotal := congrArg List.length hw
    rw [List.length_append, List.length_take] at htotal
    omega
  constructor
  · intro hfront hmem
    obtain ⟨pre, post, hk, hpre⟩ := List.eq_append_cons_of_mem hmem
    -- the last character of `k` is not white space, so it comes after the carriage return
    obtain ⟨d, hd, hs⟩ : ∃ d ∈ post, isSpace d = false := by
      rcases List.eq_nil_or_concat post with rfl | ⟨front, d, rfl⟩
      · rw [hk] at hself
        exact absurd (last_of_rstrip hself) (by decide)
      · rw [hk, List.concat_eq_append, ← List.cons_append, ← List.append_assoc] at hself
        exact ⟨d, by simp, last_of_rstrip hself⟩
    have hlen : pre.length < maxOutput := by
      rw [hk, List.length_append, List.length_cons] at hlength
      omega
    obtain ⟨r, hr, hrest⟩ := translateNewlines_return (post ++ (w ++ t.drop maxOutput))
    obtain ⟨r', hr', hstays⟩ := truncate_split pre r '\n' hlen
    obtain ⟨e, he, hes⟩ := hstays ⟨d, hrest d (List.mem_append_left _ hd) hs, hs⟩
    have htranslated : translateNewlines t = pre ++ '\n' :: r := by
      rw [← hr, ← translateNewlines_append hpre, ← List.cons_append, ← List.append_assoc, ← hk,
        ← ht]
    rw [htranslated, hr', hk] at hfront
    cases note with
    | none => exact not_prefix (by decide) hfront
    | some note =>
      have hstrip : rstrip (pre ++ '\n' :: r') = pre ++ '\n' :: rstrip r' := by
        have hne := rstrip_ne_nil he hes
        have happend : pre ++ '\n' :: r' = (pre ++ ['\n']) ++ r' := by simp
        rw [happend, rstrip_append, if_neg hne, List.append_assoc, List.singleton_append]
      rw [noted, hstrip, List.append_assoc, List.cons_append] at hfront
      exact not_prefix (by decide) hfront
  · intro hmem
    apply prefix_noted hself
    rw [ht, translateNewlines_append hmem]
    exact prefix_truncate hlength _

/-! ### The report -/

theorem length_pieces {x y z w : Text} (hx : x.length = 11) (hy : y.length = 12)
    (hz : z.length = 16) (hw : w.length = 1) (out err : Text) (code : String) :
    (x ++ dumps out ++ y ++ dumps err ++ z ++ code.toList ++ w).length =
      44 + textCost out + textCost err + code.length := by
  have hcode : code.toList.length = code.length := String.length_toList
  simp only [List.length_append, hx, hy, hz, hw, length_dumps, hcode]
  omega

theorem length_resultJson (res : Result) : (resultJson res).length =
    44 + textCost res.stdout + textCost res.stderr + (toString res.returncode).length :=
  length_pieces (by decide) (by decide) (by decide) (by decide) _ _ _

variable {env : Surroundings}

theorem withNote_stderr (res : Result) (note : Option Text) :
    (withNote res note).stderr = noted res.stderr note := by
  cases note <;> rfl

theorem withNote_stdout (res : Result) (note : Option Text) :
    (withNote res note).stdout = res.stdout := by
  cases note <;> rfl

theorem withNote_returncode (res : Result) (note : Option Text) :
    (withNote res note).returncode = res.returncode := by
  cases note <;> rfl

theorem reported_iff (limit : ℕ) (code : ℤ) (stdout stderr : Bytes) (note : Option Text) :
    Reported env limit (withNote (execResult env (.exited code stdout stderr)) note) code stdout
      stderr ↔ Sendable env limit code stdout stderr note := by
  constructor
  · rintro ⟨-, ⟨out, hout, hstdout⟩, ⟨err, herr, hstderr⟩, hlimit⟩
    simp only [execResult, hout, herr] at hstdout hstderr hlimit
    rw [withNote_stdout] at hstdout
    rw [withNote_stderr] at hstderr
    rw [length_resultJson, withNote_stdout, withNote_stderr, withNote_returncode] at hlimit
    exact ⟨out, err, hout, herr, (carriesStdout_iff out).mp hstdout,
      (carriesStderr_iff err note).mp hstderr, hlimit⟩
  · rintro ⟨out, err, hout, herr, hcleanOut, hcleanErr, hlimit⟩
    simp only [execResult, hout, herr]
    refine ⟨withNote_returncode _ _, ⟨out, hout, ?_⟩, ⟨err, herr, ?_⟩, ?_⟩
    · rw [withNote_stdout]
      exact (carriesStdout_iff out).mpr hcleanOut
    · rw [withNote_stderr]
      exact (carriesStderr_iff err note).mpr hcleanErr
    · rw [length_resultJson, withNote_stdout, withNote_stderr, withNote_returncode]
      exact hlimit

/-- The last call decides the result, with the note. -/
def Run.Coherent (env : Surroundings) (r : Run) : Prop :=
  ∀ last, r.calls.getLast? = some last → r.result = withNote (last.result env) r.note

theorem coherent_one (c : Call) : (Run.mk [c] none (c.result env)).Coherent env := by
  intro last hlast
  injection hlast with hlast
  rw [← hlast]
  rfl

theorem coherent_two (c d : Call) (note : Option Text) :
    (Run.mk [c, d] note (withNote (d.result env) note)).Coherent env := by
  intro last hlast
  injection hlast with hlast
  rw [← hlast]
  rfl

theorem runAsUser_coherent (h : Host) (user cmd : Text) (password : Option Text)
    (wantRoot : Bool) : (runAsUser env h user cmd password wantRoot).Coherent env := by
  unfold runAsUser
  split
  · exact nofun
  split
  · dsimp only
    split
    · exact coherent_one _
    · split
      · exact coherent_one _
      · exact coherent_two _ _ _
  · dsimp only
    split
    · exact coherent_one _
    · exact coherent_two _ _ _

theorem runCommand_coherent (h : Host) (cmd : Text) (runAs password : Option Text)
    (wantRoot : Bool) : (runCommand env h cmd runAs password wantRoot).Coherent env := by
  rcases runAs with - | - | ⟨c, rest⟩
  · exact coherent_one _
  · exact coherent_one _
  · exact runAsUser_coherent _ _ _ _ _

/-- On every path the result of a command that ran to completion tells its status and its output and
is accepted exactly where the output can be sent. -/
theorem report_iff (env : Surroundings) (limit : ℕ) (h : Host) (cmd : Text)
    (runAs password : Option Text) (wantRoot : Bool) (code : ℤ) (stdout stderr : Bytes)
    (hlast : (runCommand env h cmd runAs password wantRoot).calls.getLast?.map
      (fun c => c.attempt.ending) = some (.exited code stdout stderr)) :
    Reported env limit (runCommand env h cmd runAs password wantRoot).result code stdout stderr ↔
      Sendable env limit code stdout stderr
        (runCommand env h cmd runAs password wantRoot).note := by
  obtain ⟨last, hcall, hending⟩ := Option.map_eq_some_iff.mp hlast
  rw [runCommand_coherent _ _ _ _ _ last hcall, Call.result, hending]
  exact reported_iff _ _ _ _ _

/-- A root agent on a host where every program ends in the same way. -/
def answers (ending : Ending) : Host := ⟨fun _ => true, true, fun _ _ _ => ⟨true, ending⟩⟩

theorem hostname_reported :
    Reported sampleSurroundings resultMax
      (runCommand sampleSurroundings (answers (.exited 0 (utf8 "web\n".toList) (utf8 [])))
        "hostname".toList none none false).result 0 (utf8 "web\n".toList) (utf8 []) :=
  (report_iff _ _ _ _ _ _ _ _ _ _ rfl).mpr
    ⟨"web\n".toList, [], fromUtf8_utf8 "web\n".toList, fromUtf8_utf8 [], by decide, by decide,
      by decide⟩

theorem binary_output_is_lost :
    ¬∀ env h cmd runAs password wantRoot code stdout stderr,
      (runCommand env h cmd runAs password wantRoot).calls.getLast?.map
        (fun c => c.attempt.ending) = some (.exited code stdout stderr) →
      Reported env resultMax (runCommand env h cmd runAs password wantRoot).result code stdout
        stderr := by
  intro h
  have hreported := h sampleSurroundings (answers (.exited 0 [0xff] [])) "cat key.der".toList none
    none false 0 [0xff] [] rfl
  obtain ⟨t, ht, -⟩ := hreported.stdout
  have hnone : sampleSurroundings.decode [0xff] = none := by decide
  rw [hnone] at ht
  cases ht

end AgentCommand
