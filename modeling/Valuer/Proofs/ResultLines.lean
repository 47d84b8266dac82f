import Mathlib.Data.List.Forall2
import Valuer.JudgeLog
import Valuer.Proofs.LineText
import Valuer.Wire.Result

set_option autoImplicit false

/-! # Lines that spell results

A judge that writes the fields of its results with single spaces between them is understood
(`TestResult.spells_text`). The lines that spell results are read first, whatever follows them on
the stream. A line that is white space alone says nothing, and any other that spells no result is an
error of one of two kinds. -/

namespace Valuer

/-! ## Fields -/

namespace Text

/-- A text that stays one field of a line. -/
def Field (s : String) : Prop :=
  s ≠ "" ∧ ∀ c ∈ s.toList, isBlank c = false

theorem isWhite_of_isDigit {c : Char} (h : c.isDigit = true) : isWhite c = false := by
  have hrange : 48 ≤ c.toNat ∧ c.toNat ≤ 57 := by
    rw [Char.isDigit, Bool.and_eq_true, decide_eq_true_eq, decide_eq_true_eq] at h
    exact h
  simp only [isWhite, Bool.or_eq_false_iff, Bool.and_eq_false_iff, decide_eq_false_iff_not,
    beq_eq_false_iff_ne]
  omega

theorem field_decimal (n : Nat) : Field (decimal n) := by
  constructor
  · intro hempty
    have hdigits := toList_decimal n
    rw [hempty] at hdigits
    exact Nat.toDigits_ne_nil hdigits.symm
  · intro c hc
    by_cases hblank : isBlank c = true
    · have hwhite := isWhite_of_isDigit (isDigit_of_mem_decimal hc)
      exact absurd (isWhite_of_isBlank hblank) (Bool.eq_false_iff.1 hwhite)
    · exact Bool.eq_false_iff.2 hblank

/-- A code that can be logged stays one field. -/
theorem field_of_isToken {code : String} (h : isToken code = true) : Field code := by
  rw [isToken, Bool.and_eq_true, bne_iff_ne, List.all_eq_true] at h
  refine ⟨h.1, fun c hc => ?_⟩
  have hfit := h.2 c hc
  rw [Bool.and_eq_true, Bool.not_eq_true'] at hfit
  exact hfit.1

theorem Field.unbroken {s : String} (h : Field s) : Unbroken s :=
  ⟨fun hmem => absurd (h.2 _ hmem) (by decide), fun hmem => absurd (h.2 _ hmem) (by decide)⟩

theorem Field.ne_nil {s : String} (h : Field s) : s.toList ≠ [] := by
  intro hnil
  exact h.1 (String.toList_inj.1 hnil)

theorem Field.filter_cons {s : String} (h : Field s) (pieces : List (List Char)) :
    (s.toList :: pieces).filter (fun f => !f.isEmpty)
      = s.toList :: pieces.filter fun f => !f.isEmpty := by
  refine List.filter_cons_of_pos ?_
  rw [Bool.not_eq_true', List.isEmpty_eq_false_iff]
  exact h.ne_nil

/-- Fields with single spaces between them are read back. -/
theorem fields_unwords {fs : List String} (h : ∀ f ∈ fs, Field f) : fields (unwords fs) = fs := by
  induction fs with
  | nil => rfl
  | cons f rest ih =>
      obtain ⟨hf, hrest⟩ := List.forall_mem_cons.1 h
      by_cases hnil : rest = []
      · subst hnil
        rw [unwords_singleton, fields, List.splitOnP_eq_singleton hf.2, hf.filter_cons,
          List.map_cons, String.ofList_toList]
        rfl
      · have hlater := ih hrest
        rw [fields] at hlater
        rw [fields, toList_unwords_cons f hnil,
          List.splitOnP_append_cons_of_forall_mem hf.2 ' ' (by decide), hf.filter_cons,
          List.map_cons, String.ofList_toList, hlater]

/-- What is read as a field is one. -/
theorem field_of_mem_fields {s f : String} (h : f ∈ fields s) : Field f := by
  obtain ⟨piece, hpiece, rfl⟩ := List.mem_map.1 h
  obtain ⟨hmem, hne⟩ := List.mem_filter.1 hpiece
  refine ⟨?_, by simpa using clean_of_mem_splitOnP hmem⟩
  intro hempty
  have hnil : piece = [] := by simpa using congrArg String.toList hempty
  exact absurd hne (by simp [hnil])

/-! ## Blank lines -/

/-- Whether a line is white space alone. A line that is not UTF-8 is none. -/
def isBlankLine (line : Line) : Bool :=
  (Utf8.decode? line).any fun s => s.toList.all isWhite

/-- Taking carriage returns off the end of a line does not make it blank. -/
theorem all_isWhite_trimEnd (cs : List Char) :
    (trimEnd (· == '\r') cs).all isWhite = cs.all isWhite := by
  have hreturns : (cs.rtakeWhile (· == '\r')).all isWhite = true := by
    rw [List.all_eq_true]
    intro c hc
    have hreturn := List.mem_rtakeWhile_imp hc
    rw [beq_iff_eq.1 hreturn]
    decide
  calc (trimEnd (· == '\r') cs).all isWhite
      = (cs.rdropWhile (· == '\r') ++ cs.rtakeWhile (· == '\r')).all isWhite := by
        rw [List.all_append, hreturns, Bool.and_true, trimEnd_eq_rdropWhile]
    _ = cs.all isWhite := by rw [List.rdropWhile_append_rtakeWhile]

end Text

/-! ## Results -/

namespace TestResult

/-- A line says something exactly if it is not blank. -/
theorem isSome_ofLine? (line : Text.Line) : (ofLine? line).isSome = !Text.isBlankLine line := by
  unfold ofLine? Text.lineText? Text.isBlankLine
  cases Utf8.decode? line with
  | none => rfl
  | some s =>
      simp only [Option.map_some, Option.any_some, String.toList_ofList, Text.all_isWhite_trimEnd]
      cases s.toList.all Text.isWhite <;> rfl

theorem ofLine?_of_isBlankLine {line : Text.Line} (h : Text.isBlankLine line = true) :
    ofLine? line = none := by
  rw [← Option.not_isSome_iff_eq_none, isSome_ofLine?, h]
  decide

theorem readAll_append (ls ks : List Text.Line) : readAll (ls ++ ks) = readAll ls ++ readAll ks :=
  List.filterMap_append

theorem readAll_cons (line : Text.Line) (rest : List Text.Line) :
    readAll (line :: rest) = (ofLine? line).toList ++ readAll rest := by
  rw [readAll, List.filterMap_cons, readAll]
  cases ofLine? line <;> rfl

theorem length_readAll (lines : List Text.Line) :
    (readAll lines).length = lines.countP fun line => !Text.isBlankLine line := by
  rw [readAll, List.length_filterMap_eq_countP]
  congr 1
  funext line
  exact isSome_ofLine? line

/-- Lines that are all terminated are read first, whatever follows them. -/
theorem readAll_lines_append {ls : List Text.Line} (h : ∀ l ∈ ls, Text.lineFeed ∉ l)
    (rest : List UInt8) :
    readAll (Text.lines (Text.unlines ls ++ rest)) = readAll ls ++ readAll (Text.lines rest) := by
  rw [Text.lines_unlines_append h, readAll_append]

/-- A line without line feeds that says a result. -/
def Spells (line : Text.Line) (r : TestResult) : Prop :=
  Text.lineFeed ∉ line ∧ ofLine? line = some (.ok r)

theorem fields_text {r : TestResult} (h : Text.Field r.code) :
    ∀ f ∈ [Text.decimal r.test.toNat, r.code, Text.decimal r.score.toNat], Text.Field f := by
  intro f hf
  simp only [List.mem_cons, List.not_mem_nil, or_false] at hf
  rcases hf with rfl | rfl | rfl
  · exact Text.field_decimal _
  · exact h
  · exact Text.field_decimal _

theorem unbroken_text {r : TestResult} (h : Text.Field r.code) : Text.Unbroken r.text :=
  Text.unbroken_unwords fun f hf => (fields_text h f hf).unbroken

/-- The line of a result spells it if its code is one field. -/
theorem spells_text {r : TestResult} (h : Text.Field r.code) :
    Spells (Utf8.encode r.text) r := by
  have hfields := fields_text h
  have hunbroken := unbroken_text h
  have hread : ofText r.text = .ok r := by
    simp only [ofText, text, Text.fields_unwords hfields, Text.word?_decimal]
  -- the line is not white space alone: it starts with a digit
  have hwhite : ¬ r.text.toList.all Text.isWhite = true := by
    rw [List.all_eq_true]
    intro hall
    obtain ⟨c, hc⟩ := List.exists_mem_of_ne_nil _ (Text.field_decimal r.test.toNat).ne_nil
    have hmem : c ∈ r.text.toList := by
      rw [text, Text.toList_unwords_cons _ (List.cons_ne_nil _ _)]
      exact List.mem_append_left _ hc
    have hdigit := Text.isWhite_of_isDigit (Text.isDigit_of_mem_decimal hc)
    exact absurd (hall c hmem) (Bool.eq_false_iff.1 hdigit)
  refine ⟨Utf8.lineFeed_not_mem_encode hunbroken.1, ?_⟩
  simp only [ofLine?, Text.lineText?_encode hunbroken, hread, if_neg hwhite]

/-- The three fields of a text that spells a result. -/
theorem ofText_eq_ok_iff {text : String} {r : TestResult} :
    ofText text = .ok r ↔ ∃ test score, Text.fields text = [test, r.code, score] ∧
      Text.word? test = some r.test ∧ Text.word? score = some r.score := by
  constructor
  · intro h
    unfold ofText at h
    split at h
    · next test code score hfields =>
        split at h
        · next htest hscore =>
            cases h
            exact ⟨test, score, hfields, htest, hscore⟩
        · exact absurd h (by simp)
    · exact absurd h (by simp)
  · rintro ⟨test, score, hfields, htest, hscore⟩
    simp only [ofText, hfields, htest, hscore]

/-- A text that spells no result is malformed. -/
theorem malformed_of_ofText {text : String} {e : Error} (h : ofText text = .error e) :
    e = .malformed text := by
  unfold ofText at h
  split at h
  · split at h
    · exact absurd h (by simp)
    · exact (Except.error.inj h).symm
  · exact (Except.error.inj h).symm

/-- The code of a result that was read is one field. -/
theorem field_of_ofText {text : String} {r : TestResult} (h : ofText text = .ok r) :
    Text.Field r.code := by
  obtain ⟨test, score, hfields, -⟩ := ofText_eq_ok_iff.1 h
  have hcode : r.code ∈ Text.fields text := by simp [hfields]
  exact Text.field_of_mem_fields hcode

theorem field_of_mem_readAll {ls : List Text.Line} {r : TestResult} (h : .ok r ∈ readAll ls) :
    Text.Field r.code := by
  obtain ⟨line, -, hline⟩ := List.mem_filterMap.1 h
  unfold ofLine? at hline
  split at hline
  · exact absurd hline (by simp)
  · split at hline
    · exact absurd hline (by simp)
    · exact field_of_ofText (Option.some.inj hline)

/-- A line that cannot be read is malformed or no text at all. -/
theorem error_of_mem_readAll {ls : List Text.Line} {e : Error} (h : .error e ∈ readAll ls) :
    (∃ text, e = .malformed text) ∨ e = .stream .notUtf8 := by
  obtain ⟨line, -, hline⟩ := List.mem_filterMap.1 h
  unfold ofLine? at hline
  split at hline
  · cases hline
    exact .inr rfl
  · next text _ =>
      split at hline
      · exact absurd hline (by simp)
      · exact .inl ⟨text, malformed_of_ofText (Option.some.inj hline)⟩

/-- Lines that spell results are read first, whatever follows them. -/
theorem readAll_unlines_append {ls : List Text.Line} {results : List TestResult}
    (h : List.Forall₂ Spells ls results) (rest : List UInt8) :
    readAll (Text.lines (Text.unlines ls ++ rest))
      = results.map .ok ++ readAll (Text.lines rest) := by
  have hclean : ∀ l ∈ ls, Text.lineFeed ∉ l := by
    induction h with
    | nil => exact List.forall_mem_nil _
    | cons hspells _ ih => exact List.forall_mem_cons.2 ⟨hspells.1, ih⟩
  rw [readAll_lines_append hclean, readAll]
  congr 1
  induction h with
  | nil => rfl
  | cons hspells _ ih =>
      rw [List.filterMap_cons, hspells.2, List.map_cons]
      exact congrArg _ (ih fun l hl => hclean l (List.mem_cons_of_mem _ hl))

end TestResult

end Valuer
