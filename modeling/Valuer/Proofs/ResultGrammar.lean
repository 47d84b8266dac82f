import Valuer.Proofs.Cuts
import Valuer.Proofs.NumberText

set_option autoImplicit false

/-! # The grammar of results

Which texts say a result, told without the reader: the characters that are not blank stand in
exactly three maximal runs, and the first and the last of them are numbers (`TestResult.Says`). The
reader accepts these texts and gives back every other one as it is. A result that is written is read
back exactly if its code is a run of its own (`TestResult.ofText_is_exact`): a blank in a code is
lost, and so is an empty code. -/

namespace Valuer

/-! ## Runs -/

namespace Text

/-- The maximal runs of characters that are not blank, in order. A run comes after a gap of blanks,
and a blank or the end comes after the run. -/
inductive Runs : List Char → List String → Prop where
  | gap {gap : List Char} (hgap : ∀ c ∈ gap, isBlank c = true) : Runs gap []
  | run {gap rest : List Char} {f : String} {fs : List String}
      (hgap : ∀ c ∈ gap, isBlank c = true) (hrun : Field f)
      (hend : ∀ c, rest.head? = some c → isBlank c = true) (hrest : Runs rest fs) :
      Runs (gap ++ f.toList ++ rest) (f :: fs)

theorem fields_cons_of_isBlank {c : Char} (h : isBlank c = true) (cs : List Char) :
    fields (String.ofList (c :: cs)) = fields (String.ofList cs) := by
  rw [fields, String.toList_ofList, List.splitOnP_cons_eq_if_modifyHead, if_pos h,
    List.filter_cons_of_neg (by simp), fields, String.toList_ofList]

theorem fields_gap_append {gap : List Char} (hgap : ∀ c ∈ gap, isBlank c = true)
    (cs : List Char) : fields (String.ofList (gap ++ cs)) = fields (String.ofList cs) := by
  induction gap with
  | nil => rfl
  | cons c gap ih =>
      obtain ⟨hc, hgap⟩ := List.forall_mem_cons.1 hgap
      rw [List.cons_append, fields_cons_of_isBlank hc, ih hgap]

theorem fields_run_append {f : String} (hrun : Field f) {rest : List Char}
    (hend : ∀ c, rest.head? = some c → isBlank c = true) :
    fields (String.ofList (f.toList ++ rest)) = f :: fields (String.ofList rest) := by
  cases rest with
  | nil =>
      rw [List.append_nil, String.ofList_toList, fields, List.splitOnP_eq_singleton hrun.2,
        hrun.filter_cons, List.map_cons, String.ofList_toList]
      rfl
  | cons c rest =>
      have hc : isBlank c = true := hend c rfl
      rw [fields, String.toList_ofList, List.splitOnP_append_cons_of_forall_mem hrun.2 c hc,
        hrun.filter_cons, List.map_cons, String.ofList_toList, fields_cons_of_isBlank hc, fields,
        String.toList_ofList]

theorem fields_of_runs {cs : List Char} {fs : List String} (h : Runs cs fs) :
    fields (String.ofList cs) = fs := by
  induction h with
  | @gap gap hgap =>
      rw [← List.append_nil gap, fields_gap_append hgap]
      rfl
  | run hgap hrun hend _ ih =>
      rw [List.append_assoc, fields_gap_append hgap, fields_run_append hrun hend, ih]

/-- What starts with no blank starts with a run. -/
theorem exists_run_append {c : Char} (hc : isBlank c = false) (cs : List Char) :
    ∃ f rest, c :: cs = String.toList f ++ rest ∧ Field f ∧
      ∀ d, rest.head? = some d → isBlank d = true := by
  refine ⟨.ofList ((c :: cs).takeWhile fun d => !isBlank d),
    (c :: cs).dropWhile fun d => !isBlank d, ?_, ⟨?_, ?_⟩, ?_⟩
  · rw [String.toList_ofList, List.takeWhile_append_dropWhile]
  · rw [List.takeWhile_cons_of_pos (by simp [hc])]
    simp
  · intro d hd
    rw [String.toList_ofList] at hd
    simpa using List.mem_takeWhile_imp hd
  · intro d hd
    have hnot := List.head?_dropWhile_not (fun d => !isBlank d) (c :: cs)
    rw [hd] at hnot
    simpa using hnot

/-- Every text has its runs: each is taken off together with the gap before it. -/
theorem exists_runs (cs : List Char) : ∃ fs, Runs cs fs := by
  induction hn : cs.length using Nat.strong_induction_on generalizing cs with
  | _ n ih =>
      subst hn
      have hcut : cs.takeWhile isBlank ++ cs.dropWhile isBlank = cs :=
        List.takeWhile_append_dropWhile
      have hgap : ∀ c ∈ cs.takeWhile isBlank, isBlank c = true :=
        fun c hc => List.mem_takeWhile_imp hc
      have hstop := List.head?_dropWhile_not isBlank cs
      cases hleft : cs.dropWhile isBlank with
      | nil =>
          rw [hleft, List.append_nil] at hcut
          exact ⟨[], .gap (hcut ▸ hgap)⟩
      | cons c left =>
          rw [hleft] at hstop hcut
          obtain ⟨f, rest, hsplit, hrun, hend⟩ := exists_run_append hstop left
          rw [hsplit, ← List.append_assoc] at hcut
          have hshort : rest.length < cs.length := by
            have hpos := List.length_pos_iff.2 hrun.ne_nil
            rw [← hcut, List.length_append, List.length_append]
            omega
          obtain ⟨fs, hrest⟩ := ih _ hshort rest rfl
          exact ⟨f :: fs, hcut ▸ .run hgap hrun hend hrest⟩

/-- The fields of a text are its runs. -/
theorem fields_eq_iff {s : String} {fs : List String} : fields s = fs ↔ Runs s.toList fs := by
  constructor
  · rintro rfl
    obtain ⟨fs, hruns⟩ := exists_runs s.toList
    have hfields := fields_of_runs hruns
    rw [String.ofList_toList] at hfields
    rw [hfields]
    exact hruns
  · intro hruns
    rw [← fields_of_runs hruns, String.ofList_toList]

end Text

/-! ## Results -/

namespace TestResult

/-- A text says a result: of its three runs the first is the number of the test, the last that of
the score, and the one between them the code. -/
def Says (text : String) (r : TestResult) : Prop :=
  ∃ test score, Text.Runs text.toList [test, r.code, score] ∧
    Text.IsNumber test r.test.toNat ∧ Text.IsNumber score r.score.toNat

theorem says_iff {text : String} {r : TestResult} : Says text r ↔ ofText text = .ok r := by
  simp only [ofText_eq_ok_iff, Says, Text.fields_eq_iff, Text.word?_eq_some_iff]

theorem ofText_eq_malformed_iff {text : String} :
    ofText text = .error (.malformed text) ↔ ∀ r, ¬ Says text r := by
  constructor
  · intro h r hsays
    rw [says_iff.1 hsays] at h
    exact absurd h (by simp)
  · intro hnone
    cases h : ofText text with
    | ok r => exact absurd (says_iff.2 h) (hnone r)
    | error e => rw [malformed_of_ofText h]

/-! ## Written results -/

/-- A line that starts with a text is not blank unless the text is. -/
theorem isBlankLine_encode_append {s : String} {c : Char} (hmem : c ∈ s.toList)
    (hc : Text.isWhite c = false) (bytes : List UInt8) :
    Text.isBlankLine (Utf8.encode s ++ bytes) = false := by
  unfold Text.isBlankLine
  cases hline : Utf8.decode? (Utf8.encode s ++ bytes) with
  | none => rfl
  | some t =>
      have hstart : Utf8.encode s <+: Utf8.encode t :=
        ⟨bytes, Utf8.decode?_eq_some_iff.1 hline⟩
      have hprefix := Utf8.prefix_of_decode? hstart (Utf8.decode?_encode s)
      rw [Option.any_some, List.all_eq_false]
      exact ⟨c, hprefix.subset hmem, by simp [hc]⟩

theorem exists_text_eq_append (r : TestResult) :
    ∃ later, r.text = Text.decimal r.test.toNat ++ later := by
  refine ⟨" " ++ Text.unwords [r.code, Text.decimal r.score.toNat], String.toList_inj.1 ?_⟩
  rw [text, Text.toList_unwords_cons _ (by simp), String.toList_append, String.toList_append]
  rfl

/-- Whatever the code of a result is, what is written of the result starts with a digit, so its first
line says something. -/
theorem exists_next?_encode (r : TestResult) :
    ∃ said rest, next? (Text.lines r.encode) = some (said, rest) := by
  obtain ⟨later, htext⟩ := exists_text_eq_append r
  have hcut : r.encode = Utf8.encode (Text.decimal r.test.toNat) ++
      (Utf8.encode later ++ [Text.lineFeed]) := by
    have hbytes : r.encode = Utf8.encode r.text ++ [Text.lineFeed] := List.append_nil _
    rw [hbytes, htext, Utf8.encode_append, List.append_assoc]
  -- the line feed that ends the first line may be one of the code
  obtain ⟨first, more, hlater, hfirst⟩ := List.eq_append_cons_of_mem
    (show Text.lineFeed ∈ Utf8.encode later ++ [Text.lineFeed] by simp)
  have hclean : Text.lineFeed ∉ Utf8.encode (Text.decimal r.test.toNat) ++ first := by
    rw [List.mem_append, not_or]
    exact ⟨Utf8.lineFeed_not_mem_encode (Text.unbroken_decimal _).1, hfirst⟩
  obtain ⟨c, hc⟩ := List.exists_mem_of_ne_nil _ (Text.field_decimal r.test.toNat).ne_nil
  have hwhite := Text.isWhite_of_isDigit (Text.isDigit_of_mem_decimal hc)
  have hsays := isSome_ofLine? (Utf8.encode (Text.decimal r.test.toNat) ++ first)
  rw [isBlankLine_encode_append hc hwhite] at hsays
  obtain ⟨said, hsaid⟩ := Option.isSome_iff_exists.1 hsays
  rw [hcut, hlater, ← List.append_assoc, Text.lines_append_cons hclean]
  exact ⟨said, Text.lines more, by simp only [next?, hsaid]⟩

/-- A text is read as a result exactly if it says the result, and given back as it is if it says
none. What is written of a result is always read as something, and as that result exactly if the
code is not empty and has no blank in it. -/
theorem ofText_is_exact :
    (∀ text r, ofText text = .ok r ↔ Says text r) ∧
      (∀ text, ofText text = .error (.malformed text) ↔ ∀ r, ¬ Says text r) ∧
      ∀ r : TestResult, ∃ said rest, next? (Text.lines r.encode) = some (said, rest) ∧
        (said = .ok r ↔ r.code ≠ "" ∧ ∀ c ∈ r.code.toList, Text.isBlank c = false) := by
  refine ⟨fun text r => says_iff.symm, fun text => ofText_eq_malformed_iff, fun r => ?_⟩
  obtain ⟨said, rest, hnext⟩ := exists_next?_encode r
  have hread := readAll_eq (Text.lines r.encode)
  rw [hnext] at hread
  refine ⟨said, rest, hnext, fun hsaid => ?_, fun hcode => ?_⟩
  · have hmem : .ok r ∈ readAll (Text.lines r.encode) := by
      rw [hread, hsaid]
      exact List.mem_cons_self
    exact field_of_mem_readAll hmem
  · have hwritten := readAll_unlines_append (.cons (spells_text hcode) .nil) []
    rw [List.append_nil] at hwritten
    exact (List.cons.inj (hread.symm.trans hwritten)).1

/-- A number may have a plus sign and leading zeros, and a vertical tab is no blank. -/
example : ofText "+007\tW\x0b 00 " = .ok ⟨7, "W\x0b", 0⟩ := by rfl

end TestResult

end Valuer
