import Valuer.Proofs.LogEntries
import Valuer.Proofs.Sequential.Plan

set_option autoImplicit false

/-! # The tally of a sequential run

What the results of a run come to, said without the run: the entry of each result (`entry`), how far
along the plan the entries are (`OnPlan`) and when they are all that the plan asks for (`Covers`).
The state of the strategy holds nothing but the tally of the entries so far (`Tallied`), and a
result that is taken in adds its entry (`Tallied.advance_eq_ok`) or says why it cannot be kept. -/

namespace Valuer.Sequential

variable {config : Config} {tests left : List UInt32} {es fs : List LogEntry} {test : UInt32}

/-! ## Entries -/

/-- The verdict that a status code counts as: the one it belongs to, or else an internal error. -/
def countedAs (code : String) : Verdict :=
  match Verdict.ofCode code with
  | .ok v => v
  | .error _ => .internalError

/-- The entry of a result. A test that was passed is worth the configured score, or else the score
that the judge gave; any other is worth nothing. -/
def entry (config : Config) (r : TestResult) : LogEntry where
  test := r.test
  code := r.code
  verdict := countedAs r.code
  score := if countedAs r.code = .accepted then config.testScore.getD r.score else 0

theorem map_test_entry (results : List TestResult) :
    (results.map (entry config)).map (·.test) = results.map (·.test) := by
  rw [List.map_map]
  rfl

/-! ## Along the plan -/

/-- Entries that are all a plan asks for: one for each of its leading tests, in order, up to its
last test, or up to the first that was not passed if that ends the plan. -/
structure Covers (config : Config) (tests : List UInt32) (es : List LogEntry) : Prop where
  leading : es.map (·.test) <+: tests
  passed : config.stopOnFailure = true → ∀ e ∈ es.dropLast, e.verdict = .accepted
  ended : es.map (·.test) = tests ∨
    config.stopOnFailure = true ∧ ∃ e, es.getLast? = some e ∧ e.verdict ≠ .accepted

/-- Entries after which the plan goes on with the tests that are left. -/
structure OnPlan (config : Config) (tests : List UInt32) (es : List LogEntry)
    (left : List UInt32) : Prop where
  tests_eq : tests = es.map (·.test) ++ left
  passed : config.stopOnFailure = true → ∀ e ∈ es, e.verdict = .accepted

theorem OnPlan.covers (h : OnPlan config tests es []) : Covers config tests es where
  leading := ⟨[], h.tests_eq.symm⟩
  passed hstop e he := h.passed hstop e (List.dropLast_subset es he)
  ended := .inl ((List.append_nil _).symm.trans h.tests_eq.symm)

/-- A test that is left is new if the plan names each test once. -/
theorem OnPlan.new (h : OnPlan config tests es (test :: left)) (hnodup : tests.Nodup) :
    test ∉ es.map (·.test) := by
  rw [h.tests_eq] at hnodup
  exact fun hmem => List.disjoint_of_nodup_append hnodup hmem List.mem_cons_self

/-- The next entry ends the plan, or the plan goes on. -/
theorem OnPlan.next {e : LogEntry} (h : OnPlan config tests es (e.test :: left)) :
    if !e.verdict.isPassed && config.stopOnFailure then Covers config tests (es ++ [e])
    else OnPlan config tests (es ++ [e]) left := by
  have htests : tests = (es ++ [e]).map (·.test) ++ left := by
    rw [h.tests_eq, List.map_append, List.append_assoc]
    rfl
  split
  · next hstops =>
      rw [Bool.and_eq_true, Bool.not_eq_true'] at hstops
      refine ⟨⟨left, htests.symm⟩, ?_, .inr ⟨hstops.2, e, List.getLast?_concat, ?_⟩⟩
      · rw [List.dropLast_concat]
        exact h.passed
      · intro haccepted
        rw [haccepted] at hstops
        exact absurd hstops.1 (by decide)
  · next hgoes =>
      refine ⟨htests, fun hstop d hd => ?_⟩
      rcases List.mem_append.1 hd with hd | hd
      · exact h.passed hstop d hd
      · rw [List.mem_singleton.1 hd]
        rw [hstop, Bool.and_true, Bool.not_eq_true', Bool.not_eq_false] at hgoes
        exact beq_iff_eq.1 hgoes

/-- What covers a plan goes beyond all entries after which the plan goes on: the next of its tests
comes next. -/
theorem OnPlan.behind (h : OnPlan config tests es (test :: left)) (hf : Covers config tests fs)
    (hstart : es <+: fs ∨ fs <+: es) : ∃ e rest, fs = es ++ e :: rest ∧ e.test = test := by
  have hnot : ¬ fs <+: es := by
    -- either all tests of the plan came before this one, or a test before it was not passed
    rintro ⟨more, rfl⟩
    rcases hf.ended with hall | ⟨hstop, e, hlast, hfailed⟩
    · have hlength := congrArg List.length h.tests_eq
      rw [← hall] at hlength
      simp only [List.length_append, List.length_map, List.length_cons] at hlength
      omega
    · have hmem : e ∈ fs ++ more := List.mem_append_left _ (List.mem_of_getLast? hlast)
      exact hfailed (h.passed hstop e hmem)
  rcases hstart with ⟨rest, rfl⟩ | hshort
  · cases rest with
    | nil => exact absurd ⟨[], by simp⟩ hnot
    | cons e rest =>
        have hleading := hf.leading
        rw [h.tests_eq, List.map_append, List.prefix_append_right_inj, List.map_cons,
          List.cons_prefix_cons] at hleading
        exact ⟨e, rest, rfl, hleading.1⟩
  · exact absurd hshort hnot

/-- A plan is covered in one way only. -/
theorem Covers.eq_of_prefix (he : Covers config tests es) (hf : Covers config tests fs)
    (hstart : es <+: fs) : es = fs := by
  obtain ⟨more, rfl⟩ := hstart
  cases more with
  | nil => exact (List.append_nil es).symm
  | cons d more =>
      -- the plan has ended before the additional entry
      exfalso
      rcases he.ended with hall | ⟨hstop, e, hlast, hfailed⟩
      · have hlength := hf.leading.length_le
        rw [← hall] at hlength
        simp only [List.map_append, List.length_append, List.length_map, List.length_cons,
          List.map_cons] at hlength
        omega
      · have hmem : e ∈ (es ++ d :: more).dropLast := by
          rw [List.dropLast_append_cons]
          exact List.mem_append_left _ (List.mem_of_getLast? hlast)
        exact hfailed (hf.passed hstop e hmem)

/-- A plan that failures do not end is covered by all of its tests. -/
theorem Covers.tests_eq (h : Covers config tests es) (hgoes : config.stopOnFailure = false) :
    es.map (·.test) = tests := by
  rcases h.ended with htests | ⟨hstop, -⟩
  · exact htests
  · exact absurd (hgoes.symm.trans hstop) (by decide)

/-- One entry for each test covers a plan that failures do not end. -/
theorem covers_of_all (hgoes : config.stopOnFailure = false) (htests : es.map (·.test) = tests) :
    Covers config tests es where
  leading := ⟨[], (List.append_nil _).trans htests⟩
  passed hstop := absurd (hgoes.symm.trans hstop) (by decide)
  ended := .inl htests

/-! ## The state of the strategy -/

/-- The state holds the tally of the entries so far. -/
structure Tallied (config : Config) (es : List LogEntry) (s : State) : Prop where
  config_eq : s.config = config
  name_eq : s.log.name = config.name
  entries_eq : s.log.entries = es
  score_eq : s.score.toNat = JudgeLog.scoreSum es
  passed_iff : s.allPassed = true ↔ ∀ e ∈ es, e.verdict = .accepted

/-- Before the first result nothing is tallied, whatever the plan is. -/
theorem tallied_initial (config : Config) (tests : List UInt32) :
    Tallied config [] { initial config with remaining := tests } :=
  ⟨rfl, rfl, rfl, rfl, by simp [initial]⟩

/-- The state after a result, if the result can be kept: its points must fit the running score and
its entry the log. -/
def advance (s : State) (r : TestResult) : Except Error State :=
  let e := entry s.config r
  match JudgeLog.addScores s.score e.score with
  | none => .error (.complaint (.scoreOverflows r.test s.score e.score))
  | some total => (s.log.push e).map fun log =>
      { s with
        log
        score := total
        allPassed := s.allPassed && e.verdict.isPassed
        remaining := remainingAfter s e.verdict.isPassed }

namespace Tallied

variable {s next : State} {r : TestResult}

/-- A result that is kept adds its entry to the tally. -/
theorem advance_eq_ok (h : Tallied config es s) (hadvance : advance s r = .ok next) :
    Tallied config (es ++ [entry config r]) next ∧
      next.remaining = remainingAfter s (entry config r).verdict.isPassed := by
  obtain ⟨rfl, hname, hentries, hscore, hpassed⟩ := h
  unfold advance at hadvance
  simp only at hadvance
  split at hadvance
  · exact absurd hadvance (by simp)
  · next total htotal =>
      cases hpush : s.log.push (entry s.config r) with
      | error e =>
          rw [hpush] at hadvance
          exact absurd hadvance (by simp [Except.map])
      | ok log =>
          rw [hpush] at hadvance
          cases hadvance
          obtain ⟨-, hlogname, hlog⟩ := JudgeLog.push_eq_ok hpush
          refine ⟨⟨rfl, hlogname.trans hname, ?_, ?_, ?_⟩, rfl⟩
          · rw [hlog, hentries]
          · rw [JudgeLog.addScores_eq_some_iff.1 htotal, hscore, JudgeLog.scoreSum_append]
            rfl
          · rw [Bool.and_eq_true, hpassed, List.forall_mem_append, List.forall_mem_singleton]
            exact and_congr_right fun _ => beq_iff_eq

/-- A result is not kept if its points are too many, its code is unfit or its test was logged. -/
theorem advance_eq_error (h : Tallied config es s) {error : Error}
    (hadvance : advance s r = .error error) :
    (UInt32.size ≤ JudgeLog.scoreSum (es ++ [entry config r]) ∧
      error = .complaint (.scoreOverflows r.test s.score (entry config r).score)) ∨
    (isToken r.code = false ∧ error = .badStatusCode r.code) ∨
    (r.test ∈ es.map (·.test) ∧ error = .duplicateTest r.test) := by
  obtain ⟨rfl, -, rfl, hscore, -⟩ := h
  unfold advance at hadvance
  simp only at hadvance
  split at hadvance
  · next hover =>
      refine .inl ⟨?_, (Except.error.inj hadvance).symm⟩
      have hlarge := JudgeLog.addScores_eq_none_iff.1 hover
      rw [hscore] at hlarge
      rw [JudgeLog.scoreSum_append]
      exact hlarge
  · cases hpush : s.log.push (entry s.config r) with
    | error e =>
        rw [hpush] at hadvance
        cases hadvance
        exact .inr (JudgeLog.push_eq_error hpush)
    | ok log =>
        rw [hpush] at hadvance
        exact absurd hadvance (by simp [Except.map])

end Tallied

end Valuer.Sequential
