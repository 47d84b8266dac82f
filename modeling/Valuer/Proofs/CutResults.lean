import Valuer.Proofs.Cuts
import Valuer.Proofs.Delivery
import Valuer.Proofs.ResultLines
import Valuer.Sequential

set_option autoImplicit false

/-! # Results on a stream that is cut

A judge that stops in the middle of a result leaves a line without its line feed, and such a line is
read like any other. A cut before the score leaves too few fields, and what is read is an error. A
cut between the digits of the score leaves a result that the judge has not sent: its test and its
code are right and its score is too small. -/

namespace Valuer

/-- Words without blanks that have single spaces between them are the fields of the line, except
that an empty word is no field. -/
theorem Text.fields_unwords_of_clean {ws : List String}
    (h : ∀ w ∈ ws, ∀ c ∈ w.toList, isBlank c = false) :
    fields (unwords ws) = ws.filter (· ≠ "") := by
  have hpiece : ∀ (w : String) (pieces : List (List Char)),
      (((w.toList :: pieces).filter fun f => !f.isEmpty).map String.ofList)
        = [w].filter (· ≠ "") ++ (pieces.filter fun f => !f.isEmpty).map String.ofList := by
    intro w pieces
    by_cases hempty : w = ""
    · simp [hempty]
    · have hne : w.toList ≠ [] := fun hnil => hempty (String.toList_eq_nil_iff.1 hnil)
      simp [hempty]
  induction ws with
  | nil => rfl
  | cons w rest ih =>
      obtain ⟨hw, hrest⟩ := List.forall_mem_cons.1 h
      by_cases hnil : rest = []
      · subst hnil
        rw [unwords_singleton, fields, List.splitOnP_eq_singleton hw, hpiece]
        exact List.append_nil _
      · have hlater := ih hrest
        rw [fields] at hlater
        rw [fields, toList_unwords_cons w hnil,
          List.splitOnP_append_cons_of_forall_mem hw ' ' (by decide), hpiece, hlater,
          ← List.filter_append, List.singleton_append]

namespace TestResult

/-- A result as it was sent, except that digits may be missing at the end of its score. -/
structure Shortened (sent read : TestResult) : Prop where
  test : read.test = sent.test
  code : read.code = sent.code
  score : (Text.decimal read.score.toNat).toList <+: (Text.decimal sent.score.toNat).toList

/-- The beginning of a result has too few fields, or all three with some digits of the score. -/
theorem fields_of_prefix_text {r : TestResult} (hr : Text.Field r.code) {s : String}
    (hs : s.toList <+: r.text.toList) :
    (Text.fields s).length < 3 ∨ ∃ score, score.toList <+: (Text.decimal r.score.toNat).toList ∧
      Text.fields s = [Text.decimal r.test.toNat, r.code, score] := by
  have htest := Text.field_decimal r.test.toNat
  have hscore := Text.field_decimal r.score.toNat
  -- a cut in a field leaves a word without blanks
  have hclean : ∀ {w v : String}, Text.Field v → w.toList <+: v.toList →
      ∀ c ∈ w.toList, Text.isBlank c = false := fun hv hw c hc => hv.2 c (hw.subset hc)
  rcases Text.prefix_unwords_cons (by simp) hs with hfirst | ⟨t, ht, rfl⟩
  · left
    have hone : ∀ w ∈ [s], ∀ c ∈ w.toList, Text.isBlank c = false :=
      List.forall_mem_singleton.2 (hclean htest hfirst)
    rw [← Text.unwords_singleton s, Text.fields_unwords_of_clean hone]
    exact Nat.lt_of_le_of_lt (List.length_filter_le ..) (by simp)
  rcases Text.prefix_unwords_cons (by simp) ht with hsecond | ⟨u, hu, rfl⟩
  · left
    have htwo : ∀ w ∈ [Text.decimal r.test.toNat, t], ∀ c ∈ w.toList, Text.isBlank c = false :=
      List.forall_mem_cons.2 ⟨htest.2, List.forall_mem_singleton.2 (hclean hr hsecond)⟩
    rw [Text.fields_unwords_of_clean htwo]
    exact Nat.lt_of_le_of_lt (List.length_filter_le ..) (by simp)
  · rw [Text.unwords_singleton] at hu
    have hthree : ∀ w ∈ [Text.decimal r.test.toNat, r.code, u],
        ∀ c ∈ w.toList, Text.isBlank c = false :=
      List.forall_mem_cons.2 ⟨htest.2, List.forall_mem_cons.2
        ⟨hr.2, List.forall_mem_singleton.2 (hclean hscore hu)⟩⟩
    rw [← Text.unwords_cons _ (by simp), Text.fields_unwords_of_clean hthree]
    by_cases hnone : u = ""
    · left
      simp [hnone, htest.1, hr.1]
    · right
      exact ⟨u, hu, by simp [hnone, htest.1, hr.1]⟩

/-- The beginning of a result is no result, or one whose score may have lost digits. -/
theorem shortened_of_ofText {sent read : TestResult} (hsent : Text.Field sent.code) {s : String}
    (hs : s.toList <+: sent.text.toList) (h : ofText s = .ok read) : Shortened sent read := by
  obtain ⟨test, score, hfields, htest, hscore⟩ := ofText_eq_ok_iff.1 h
  rcases fields_of_prefix_text hsent hs with hfew | ⟨digits, hdigits, hall⟩
  · rw [hfields] at hfew
    exact absurd hfew (by simp)
  · rw [hfields] at hall
    simp only [List.cons.injEq, and_true] at hall
    obtain ⟨rfl, hcode, rfl⟩ := hall
    rw [Text.word?_decimal, Option.some.injEq] at htest
    exact ⟨htest.symm, hcode, Text.decimal_of_word?_of_prefix hdigits hscore ▸ hdigits⟩

/-! ## Streams of results -/

/-- Of a part of a result nothing is read, or an error, or the result with digits missing. -/
theorem shortened_of_ofLine? {sent read : TestResult} (hsent : Text.Field sent.code)
    {part : Text.Line} (hpart : part <+: Utf8.encode sent.text)
    (h : ofLine? part = some (.ok read)) : Shortened sent read := by
  unfold ofLine? at h
  split at h
  · exact absurd h (by simp)
  · next text htext =>
      have hprefix := Text.prefix_of_lineText? (unbroken_text hsent) hpart htext
      split at h
      · exact absurd h (by simp)
      · exact shortened_of_ofText hsent hprefix (Option.some.inj h)

/-- The bytes of results are those of their lines. -/
theorem flatMap_encode (results : List TestResult) :
    results.flatMap encode = Text.unlines (results.map fun r => Utf8.encode r.text) := by
  have hline : encode = fun r => Utf8.encode r.text ++ [Text.lineFeed] :=
    funext fun r => List.append_nil _
  rw [Text.unlines, List.flatMap_map, hline]

/-- Of a result that is not whole at most one thing is read. -/
theorem readAll_take_encode {torn : TestResult} (htorn : Text.Field torn.code) {i : Nat}
    (hi : i < torn.encode.length) :
    (readAll (Text.lines (torn.encode.take i))).length ≤ 1 ∧
      ∀ read, .ok read ∈ readAll (Text.lines (torn.encode.take i)) → Shortened torn read := by
  have hline : torn.encode = Utf8.encode torn.text ++ [Text.lineFeed] := List.append_nil _
  have hlength : torn.encode.length = (Utf8.encode torn.text).length + 1 := by
    rw [hline, List.length_append, List.length_singleton]
  have hcut : torn.encode.take i = Text.unlines [] ++ (Utf8.encode torn.text).take i := by
    rw [hline, List.take_append_of_le_length (by omega)]
    rfl
  have hpart : (Utf8.encode torn.text).take i <+: Utf8.encode torn.text := List.take_prefix ..
  rw [hcut, Text.lines_cut (List.forall_mem_nil _)
    (Utf8.lineFeed_not_mem_encode (unbroken_text htorn).1) hpart, List.nil_append, readAll,
    Text.remains]
  split
  · exact ⟨Nat.zero_le 1, fun read hread => absurd hread List.not_mem_nil⟩
  · refine ⟨List.length_filterMap_le .., fun read hread => ?_⟩
    obtain ⟨line, hmem, hsays⟩ := List.mem_filterMap.1 hread
    obtain rfl := List.mem_singleton.1 hmem
    exact shortened_of_ofLine? htorn hpart hsays

/-- What is read of a stream of results that was cut: those that are whole, and then at most one
thing, which is an error or the next result with digits missing. -/
theorem readAll_cut {results : List TestResult} (h : ∀ r ∈ results, Text.Field r.code) (n : Nat) :
    ∃ whole lost items, results = whole ++ lost ∧ Holds encode n whole lost ∧
      readAll (Text.lines ((results.flatMap encode).take n)) = whole.map .ok ++ items ∧
      items.length ≤ 1 ∧
      ∀ read, .ok read ∈ items → ∃ torn, lost.head? = some torn ∧ Shortened torn read := by
  obtain ⟨whole, lost, rfl, hholds⟩ := exists_holds encode n results
  have hwhole : List.Forall₂ Spells (whole.map fun r => Utf8.encode r.text) whole :=
    List.forall₂_map_left_iff.2
      (List.forall₂_same.2 fun r hr => spells_text (h r (List.mem_append_left _ hr)))
  let left := (lost.head?.toList.flatMap encode).take (n - (whole.flatMap encode).length)
  have hread : readAll (Text.lines (((whole ++ lost).flatMap encode).take n))
      = whole.map .ok ++ readAll (Text.lines left) := by
    rw [hholds.take_flatMap, flatMap_encode whole, readAll_unlines_append hwhole,
      ← flatMap_encode whole]
  refine ⟨whole, lost, _, rfl, hholds, hread, ?_⟩
  cases lost with
  | nil => simp [left, Text.lines_nil, readAll]
  | cons torn rest =>
      have htorn : Text.Field torn.code := h torn (by simp)
      have hpart : n - (whole.flatMap encode).length < torn.encode.length := by
        have hfit := hholds.fit
        have hbeyond := hholds.beyond torn rfl
        omega
      obtain ⟨hcount, hshort⟩ := readAll_take_encode htorn hpart
      have hsingle : left = torn.encode.take (n - (whole.flatMap encode).length) :=
        congrArg (List.take _) (List.append_nil _)
      rw [hsingle]
      exact ⟨hcount, fun read hmem => ⟨torn, rfl, hshort read hmem⟩⟩

end TestResult

/-! ## Runs -/

/-- A judge whose stream is cut anywhere: all results before the cut are read as they were sent, and
of the one that the cut falls into at most one thing is read. That is an error or, if the cut falls
behind the first digit of its score, a result of the same test and code whose score has the digits
that are left. Whatever strategy hears this, it is told no test, no code and no order that the judge
has not sent, and no score but the one of the last result that may lack digits. -/
theorem Strategy.run_on_cut_stream {σ : Type} (S : Strategy σ) (count : Option UInt32)
    (seed : Option (List UInt8)) (sink : Sink) (s : σ) {results : List TestResult}
    (h : ∀ r ∈ results, Text.Field r.code) (n : Nat) :
    let stream := (results.flatMap TestResult.encode).take n
    let run := S.run { count, seed, sink } s stream
    ∃ whole lost items, results = whole ++ lost ∧ Holds TestResult.encode n whole lost ∧
      TestResult.readAll (Text.lines stream) = whole.map .ok ++ items ∧ items.length ≤ 1 ∧
      (∀ read, .ok read ∈ items →
        ∃ torn, lost.head? = some torn ∧ TestResult.Shortened torn read) ∧
      ∀ (k : Nat) (report : TestReport), run.journal.reports[k]? = some report →
        ∃ sent, results[k]? = some sent ∧ report.test = sent.test ∧ report.code = sent.code ∧
          (Text.decimal report.score.toNat).toList <+: (Text.decimal sent.score.toNat).toList ∧
          (k < whole.length → report.score = sent.score) := by
  intro stream run
  obtain ⟨whole, lost, items, hresults, hholds, hread, hcount, hitems⟩ := TestResult.readAll_cut h n
  refine ⟨whole, lost, items, hresults, hholds, hread, hcount, hitems, ?_⟩
  intro k report hreport
  obtain ⟨rest, hpath⟩ := S.run_path { count, seed, sink } s stream
  obtain ⟨-, told, htold, hinbound⟩ := hpath.told
  have hreports : run.journal.reports = told.map .ofResult := (List.append_nil _).symm.trans htold
  rw [hreports, List.getElem?_map, Option.map_eq_some_iff] at hreport
  obtain ⟨read, hk, rfl⟩ := hreport
  have hheard : (whole.map .ok ++ items)[k]? = some (.ok read) := by
    rw [← hread]
    refine getElem?_of_prefix hinbound ?_
    rw [List.getElem?_map, hk]
    rfl
  by_cases hbefore : k < whole.length
  · -- a result before the cut is told as it was sent
    rw [List.getElem?_append_left (by simpa using hbefore), List.getElem?_map,
      Option.map_eq_some_iff] at hheard
    obtain ⟨sent, hsent, hsame⟩ := hheard
    obtain rfl := Except.ok.inj hsame
    refine ⟨sent, ?_, rfl, rfl, List.prefix_rfl, fun _ => rfl⟩
    rw [hresults, List.getElem?_append_left hbefore, hsent]
  · rw [List.getElem?_append_right (by simpa using hbefore), List.length_map] at hheard
    obtain ⟨torn, htorn, hshort⟩ := hitems read (List.mem_of_getElem? hheard)
    have hlast : k - whole.length = 0 := by
      have hlt := (List.getElem?_eq_some_iff.1 hheard).1
      omega
    refine ⟨torn, ?_, hshort.test, hshort.code, hshort.score, fun hlt => absurd hlt hbefore⟩
    rw [hresults, List.getElem?_append_right (Nat.le_of_not_lt hbefore), hlast,
      ← List.head?_eq_getElem?, htorn]

/-- Two results, of which the second is cut behind the first digit of its score. -/
theorem Strategy.run_on_cut_stream_of_two_results :
    let results : List TestResult := [⟨2, "WA", 0⟩, ⟨1, "OK", 100⟩]
    let stream := (results.flatMap TestResult.encode).take 13
    let S : Strategy Unit := { begin := Act.send (.run 2), onTestEnd := fun _ => Act.send (.run 1) }
    (∀ r ∈ results, Text.Field r.code) ∧
      (∀ (k : Nat) (report : TestReport), (S.run {} () stream).journal.reports[k]? = some report →
        ∃ sent, results[k]? = some sent ∧ report.test = sent.test ∧ report.code = sent.code) ∧
      (S.run {} () stream).journal.reports.map (·.score) = [0, 1] := by
  intro results stream S
  have hcodes : ∀ r ∈ results, Text.Field r.code :=
    List.forall_mem_cons.2 ⟨Text.field_of_isToken (by decide),
      List.forall_mem_singleton.2 (Text.field_of_isToken (by decide))⟩
  obtain ⟨whole, lost, items, -, -, -, -, -, htold⟩ :=
    S.run_on_cut_stream none none {} () hcodes 13
  refine ⟨hcodes, fun k report hk => ?_, by decide +kernel⟩
  obtain ⟨sent, hsent, htest, hcode, -⟩ := htold k report hk
  exact ⟨sent, hsent, htest, hcode⟩

/-- A cut can change what a submission is worth: of a score of one hundred two digits arrive, and the
run ends well with a score of ten. -/
theorem Sequential.cut_stream_costs_points :
    let sent : TestResult := ⟨1, "OK", 100⟩
    let stream := sent.encode.take 7
    let run := strategy.run {} (initial { tests := some [1] }) stream
    stream <+: sent.encode ∧ stream ≠ sent.encode ∧
      TestResult.readAll (Text.lines stream) = [.ok ⟨1, "OK", 10⟩] ∧
      run.result.toOption.map (·.score) = some 10 := by
  intro sent stream run
  exact ⟨List.take_prefix .., by decide +kernel, by decide +kernel, by decide +kernel⟩

end Valuer
