import Valuer.Proofs.Sequential.Report

set_option autoImplicit false

/-! # The order of the plan

When all tests of a plan are run, whatever comes of them, the verdict does not depend on the order
in which they are run (`strategy_ignores_order`). The running totals do: they are sums of other
scores in each order. But whether one of them is too large does not, because scores are not
negative, so that the largest total is the last, and this one is the sum of all scores. -/

namespace Valuer

/-- Two reports that differ in the order of their entries at most. -/
structure Report.Alike (a b : Report) : Prop where
  score_eq : a.score = b.score
  full_eq : a.full = b.full
  name_eq : a.log.name = b.log.name
  entries_perm : a.log.entries.Perm b.log.entries

namespace Sequential

/-- The results of tests, in order, when the code and the score of each test are fixed. -/
def answers (f : UInt32 → String × UInt32) (tests : List UInt32) : List TestResult :=
  tests.map fun t => ⟨t, (f t).1, (f t).2⟩

/-- The configuration with these tests to run, whatever comes of them. -/
def runningAll (config : Config) (tests : List UInt32) : Config :=
  { config with tests := some tests, stopOnFailure := false }

variable {config : Config} {count : Option UInt32} {tests tests' : List UInt32}
  {results : List TestResult} {f : UInt32 → String × UInt32}

theorem map_test_answers (f : UInt32 → String × UInt32) (tests : List UInt32) :
    (answers f tests).map (·.test) = tests := by
  rw [answers, List.map_map]
  exact List.map_id tests

/-- A run through all of its tests ends with the report if the points of all of them have the width
of a score, and with too many points otherwise. -/
theorem run_of_answers {ls : List Text.Line}
    (hrange : ∀ t ∈ tests, t ≠ 0 ∧ ∀ last, count = some last → t ≤ last) (hdistinct : tests.Nodup)
    (hcodes : ∀ t ∈ tests, isToken (f t).1 = true)
    (hspells : List.Forall₂ TestResult.Spells ls (answers f tests))
    (config : Config) (seed : Option (List UInt8)) (rest : List UInt8) :
    let points := JudgeLog.scoreSum ((answers f tests).map (entry (runningAll config tests)))
    let run := strategy.run { count, seed } (initial (runningAll config tests))
      (Text.unlines ls ++ rest)
    (points < UInt32.size → ∃ report, run.result = .ok report ∧
        ReportsOn (runningAll config tests) tests (answers f tests) report) ∧
      (UInt32.size ≤ points → Overflowed run.result) := by
  intro points run
  have hplan : plan (runningAll config tests) count = .ok tests :=
    plan_eq_ok_iff.2 ⟨rfl, fun last hlast t ht => (hrange t ht).2 last hlast⟩
  have htests : Runnable tests := ⟨fun hzero => (hrange 0 hzero).1 rfl, hdistinct⟩
  have hcovers : Covers (runningAll config tests) tests
      ((answers f tests).map (entry (runningAll config tests))) :=
    covers_of_all rfl ((map_test_entry _).trans (map_test_answers f tests))
  have hall : ∀ r ∈ answers f tests, isToken r.code = true := by
    intro r hr
    obtain ⟨t, ht, rfl⟩ := List.mem_map.1 hr
    exact hcodes t ht
  have hread := TestResult.readAll_unlines_append hspells rest
  obtain ⟨hfits, hover⟩ := run_of_read hplan htests ⟨_, hread.symm⟩ hcovers hall seed
  refine ⟨fun hsmall => ?_, hover⟩
  obtain ⟨report, hresult, hreports, -⟩ := hfits hsmall
  exact ⟨report, hresult, hreports⟩

/-- The entries of the same answers in another order. -/
theorem entries_perm (hperm : tests.Perm tests') :
    ((answers f tests).map (entry (runningAll config tests))).Perm
      ((answers f tests').map (entry (runningAll config tests'))) :=
  (hperm.map _).map _

/-- Reports on the same answers in another order are alike. -/
theorem ReportsOn.alike {report report' : Report} (hperm : tests.Perm tests')
    (h : ReportsOn (runningAll config tests) tests (answers f tests) report)
    (h' : ReportsOn (runningAll config tests') tests' (answers f tests') report') :
    report.Alike report' := by
  have hentries : report.log.entries.Perm report'.log.entries := by
    rw [h.entries_eq, h'.entries_eq]
    exact entries_perm hperm
  have hfull : report.full = true ↔ report'.full = true := by
    have htests : report.log.entries.map (·.test) = tests := by
      rw [h.entries_eq, map_test_entry, map_test_answers]
    have htests' : report'.log.entries.map (·.test) = tests' := by
      rw [h'.entries_eq, map_test_entry, map_test_answers]
    rw [h.full_iff, h'.full_iff, and_iff_right htests, and_iff_right htests']
    exact forall_congr' fun e => by rw [hentries.mem_iff]
  refine ⟨?_, Bool.eq_iff_iff.2 hfull, h.name_eq.trans h'.name_eq.symm, hentries⟩
  rw [← UInt32.toNat_inj, h.score_eq, h'.score_eq, JudgeLog.scoreSum_perm hentries]

/-- Tests that are all run, each with the same answer in either order, give reports that differ in
the order of their entries at most, or they give too many points in either order. It is the points
of all of them together that decide which. -/
theorem strategy_ignores_order {ls ls' : List Text.Line} (hperm : tests.Perm tests')
    (hrange : ∀ t ∈ tests, t ≠ 0 ∧ ∀ last, count = some last → t ≤ last) (hdistinct : tests.Nodup)
    (hcodes : ∀ t ∈ tests, isToken (f t).1 = true)
    (hspells : List.Forall₂ TestResult.Spells ls (answers f tests))
    (hspells' : List.Forall₂ TestResult.Spells ls' (answers f tests'))
    (config : Config) (seed : Option (List UInt8)) (rest rest' : List UInt8) :
    let points := JudgeLog.scoreSum ((answers f tests).map (entry (runningAll config tests)))
    let run := strategy.run { count, seed } (initial (runningAll config tests))
      (Text.unlines ls ++ rest)
    let run' := strategy.run { count, seed } (initial (runningAll config tests'))
      (Text.unlines ls' ++ rest')
    (points < UInt32.size ∧ ∃ report report', run.result = .ok report ∧
        run'.result = .ok report' ∧ report.Alike report') ∨
      UInt32.size ≤ points ∧ Overflowed run.result ∧ Overflowed run'.result := by
  intro points run run'
  have hrange' : ∀ t ∈ tests', t ≠ 0 ∧ ∀ last, count = some last → t ≤ last :=
    fun t ht => hrange t (hperm.mem_iff.2 ht)
  have hcodes' : ∀ t ∈ tests', isToken (f t).1 = true :=
    fun t ht => hcodes t (hperm.mem_iff.2 ht)
  obtain ⟨hfits, hover⟩ := run_of_answers hrange hdistinct hcodes hspells config seed rest
  obtain ⟨hfits', hover'⟩ :=
    run_of_answers hrange' (hperm.nodup_iff.1 hdistinct) hcodes' hspells' config seed rest'
  -- the points of all tests are the same in both orders, those of the first few are not
  rw [← JudgeLog.scoreSum_perm (entries_perm hperm)] at hfits' hover'
  rcases Nat.lt_or_ge points UInt32.size with hsmall | hlarge
  · obtain ⟨report, hresult, hreports⟩ := hfits hsmall
    obtain ⟨report', hresult', hreports'⟩ := hfits' hsmall
    exact .inl ⟨hsmall, report, report', hresult, hresult', hreports.alike hperm hreports'⟩
  · exact .inr ⟨hlarge, hover hlarge, hover' hlarge⟩

/-- Two tests of which one fails, run forth and back: the report holds their entries in the order of
the run. -/
theorem strategy_ignores_order_of_two_tests :
    let f : UInt32 → String × UInt32 := fun t => if t = 1 then ("OK", 40) else ("WA", 9)
    let answered : List UInt32 → List Text.Line :=
      fun tests => (answers f tests).map fun r => Utf8.encode r.text
    let points := JudgeLog.scoreSum ((answers f [1, 2]).map (entry (runningAll {} [1, 2])))
    let run := strategy.run { count := some 2 } (initial (runningAll {} [1, 2]))
      (Text.unlines (answered [1, 2]) ++ [])
    let run' := strategy.run { count := some 2 } (initial (runningAll {} [2, 1]))
      (Text.unlines (answered [2, 1]) ++ [255])
    run.result.toOption.map (fun report => report.log.entries.map (·.test)) = some [1, 2] ∧
      run'.result.toOption.map (fun report => report.log.entries.map (·.test)) = some [2, 1] ∧
      ((points < UInt32.size ∧ ∃ report report', run.result = .ok report ∧
          run'.result = .ok report' ∧ report.Alike report') ∨
        UInt32.size ≤ points ∧ Overflowed run.result ∧ Overflowed run'.result) := by
  intro f answered points run run'
  have hspells : ∀ t, isToken (f t).1 = true → TestResult.Spells
      (Utf8.encode (TestResult.text ⟨t, (f t).1, (f t).2⟩)) ⟨t, (f t).1, (f t).2⟩ :=
    fun t ht => TestResult.spells_text (Text.field_of_isToken ht)
  have hone : isToken (f 1).1 = true := by decide
  have htwo : isToken (f 2).1 = true := by decide
  have hrange : ∀ t ∈ [(1 : UInt32), 2],
      t ≠ 0 ∧ ∀ last, some (2 : UInt32) = some last → t ≤ last := by simp
  refine ⟨by decide +kernel, by decide +kernel, ?_⟩
  exact strategy_ignores_order (List.Perm.swap 2 1 []) hrange (by decide)
    (List.forall_mem_cons.2 ⟨hone, List.forall_mem_singleton.2 htwo⟩)
    (.cons (hspells 1 hone) (.cons (hspells 2 htwo) .nil))
    (.cons (hspells 2 htwo) (.cons (hspells 1 hone) .nil)) {} none [] [255]

end Sequential

end Valuer
