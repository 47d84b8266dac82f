import Valuer.Proofs.Calls
import Valuer.Proofs.Sequential.Course

set_option autoImplicit false

/-! # The running total and the log

The sequential strategy keeps two sums: the running total that it reports, and the scores in its
log. Whenever a result is told to it the two are the same, and the total of the log is there
(`exists_tallied_of_call`). Only points that would take this exact sum beyond the width of a score
are refused, and then nothing is kept of the result and nothing is said about it
(`visit_of_overflow`). -/

namespace Valuer

namespace Sequential

variable {config : Config} {count : Option UInt32} {tests : List UInt32} {es : List LogEntry}
  {inbound : List (Except Error TestResult)} {js : Journal} {s : State} {r : TestResult}
  {ctx : Context}

/-! ## Where a call finds a run -/

/-- A run that has heard a part of what its judge says stands somewhere. -/
theorem Stands.heed (hbound : ∀ last, count = some last → ∀ t ∈ tests, t ≤ last)
    {session : Session State} {part left : List (Except Error TestResult)}
    (h : Stands config count tests inbound js session (part ++ left)) :
    let went := Session.heed strategy session part
    Stands config count tests inbound (js ++ went.1) went.2 left := by
  induction part generalizing js session with
  | nil =>
      simp only [Session.heed, List.append_nil]
      exact h
  | cons said part ih =>
      simp only [Session.heed]
      split
      · next result hstatus =>
          -- where a run stands that has ended does not depend on what is left
          simp only [Stands, hstatus, List.append_nil] at h ⊢
          exact h
      · next test hstatus =>
          have hheard := h.hear hbound hstatus
          rw [← List.append_assoc]
          exact ih hheard

/-- The state that a call finds holds the tally of the results that were heard before, and they
are all that was heard. -/
theorem exists_tallied_of_call {seed : Option (List UInt8)} {sink : Sink}
    (c : strategy.Call { count, seed, sink } (initial config) inbound) :
    ∃ results : List TestResult, c.part = results.map .ok ∧
      Tallied config (results.map (entry config)) c.state := by
  obtain ⟨part, r, rest, rfl, hawaited⟩ := c
  cases hplan : plan config count with
  | error e =>
      -- without a plan no test is awaited
      obtain ⟨hended, -⟩ := start_of_plan_eq_error hplan seed sink
      rw [Session.heed_of_ended hended, hended] at hawaited
      exact absurd hawaited (by simp)
  | ok tests =>
      have hstands : let opening := Session.start strategy { count, seed, sink } (initial config)
          Stands config count tests (part ++ .ok r :: rest) opening.1 opening.2
            (part ++ .ok r :: rest) := stands_start hplan seed sink
      have hheeded := hstands.heed (plan_eq_ok_iff.1 hplan).2
      simp only [Stands, hawaited] at hheeded
      obtain ⟨results, hread, hawaits⟩ := hheeded
      exact ⟨results, (List.append_cancel_right hread).symm, hawaits.tallied⟩

/-! ## Points that are too many -/

/-- Points are awarded only for a code that says that the test was passed. -/
theorem ofCode_of_score (h : (entry config r).score ≠ 0) :
    Verdict.ofCode r.code = .ok (countedAs r.code) := by
  unfold countedAs
  cases hcode : Verdict.ofCode r.code with
  | ok v => rfl
  | error unknown =>
      refine absurd ?_ h
      simp only [entry, countedAs, hcode]
      rfl

/-- The error of a result whose points are too many for a total. -/
def overflow (config : Config) (total : UInt32) (r : TestResult) : Error :=
  .complaint (.scoreOverflows r.test total (entry config r).score)

theorem advance_of_overflow (h : UInt32.size ≤ s.score.toNat + (entry s.config r).score.toNat) :
    advance s r = .error (overflow s.config s.score r) := by
  simp only [advance, JudgeLog.addScores_eq_none_iff.2 h, overflow]

/-- A result whose points are too many is noted and refused. Nothing is sent, and neither the
context nor the state is other than before. -/
theorem visit_of_overflow (ctx : Context)
    (h : UInt32.size ≤ s.score.toNat + (entry s.config r).score.toNat) :
    Session.visit strategy (.testEnd (.ofResult r)) ctx s =
      { events := [.entered (.testEnd (.ofResult r)) ctx.view, .noted (keptRecord s.config r),
          .returned (.error (overflow s.config s.score r))]
        context := ctx
        state := s
        outcome := .error (overflow s.config s.score r) } := by
  have hscore : (entry s.config r).score ≠ 0 := by
    intro hzero
    have htotal : s.score.toNat < UInt32.size := s.score.toNat_lt_size
    rw [hzero, UInt32.toNat_zero] at h
    omega
  -- the code is known, so the jury is told nothing
  have hsettled : (settleVerdict (.ofResult r)).start s = .done (.ok (countedAs r.code), s) := by
    simp only [settleVerdict, TestReport.ofResult, ofCode_of_score hscore, Act.start_pure]
  have hkept := start_keep r s
  rw [advance_of_overflow h] at hkept
  have htaken : ((takeIn (.ofResult r)).start s).conduct ctx =
      ⟨[.noted (keptRecord s.config r)], ctx, (.error (overflow s.config s.score r), s)⟩ := by
    simp only [takeIn, Act.conduct_bind, hsettled, hkept, Dialogue.conduct, Dialogue.Outcome.after,
      List.nil_append]
  simp only [Session.visit, Strategy.respond, strategy, Act.conduct_bind, htaken]
  rfl

/-- What makes a run go on fails by a refusal or by the sink and for no reason of the strategy's
own. -/
theorem goingOn_outcome_ne_complaint (acts : Journal) (ctx : Context) (s : State)
    (complaint : Complaint) : (goingOn acts ctx s).outcome ≠ .error (.complaint complaint) :=
  fun hout => ctx.send_ne_complaint (onward s) complaint (Context.judge_eq_complaint hout)

/-- A call that fails for the running total has points that are too many for the log. -/
theorem overflows_of_visit (h : Tallied config es s) {test total points : UInt32}
    (hout : (Session.visit strategy (.testEnd (.ofResult r)) ctx s).outcome =
      .error (.complaint (.scoreOverflows test total points))) :
    UInt32.size ≤ JudgeLog.scoreSum es + (entry config r).score.toNat := by
  obtain ⟨acts, -, hvisit⟩ := visit_testEnd_cases r s ctx
  rcases hvisit with ⟨next, sink, -, -, hv⟩ | ⟨e, he, -, hcause⟩
  · rw [hv] at hout
    exact (goingOn_outcome_ne_complaint acts _ next _ hout).elim
  · obtain rfl := Except.error.inj (he.symm.trans hout)
    rcases hcause with hadvance | ⟨⟨fault, hfault⟩, -⟩
    · rcases h.advance_eq_error hadvance with ⟨hlarge, -⟩ | ⟨-, hcode⟩ | ⟨-, hthere⟩
      · rw [JudgeLog.scoreSum_append] at hlarge
        exact hlarge
      · exact absurd hcode (by simp)
      · exact absurd hthere (by simp)
    · exact absurd hfault (by simp)

/-! ## Whole runs -/

section Calls

variable {seed : Option (List UInt8)} {sink : Sink}

/-- The exact sum that the result of a call would take the log to. -/
def sumAfter (c : strategy.Call { count, seed, sink } (initial config) inbound) : Nat :=
  JudgeLog.scoreSum c.state.log.entries + (entry config c.result).score.toNat

/-- A call that finds the running total and the log in agreement, and that refuses points only where
the exact sum has not the width of a score. -/
structure Balanced (c : strategy.Call { count, seed, sink } (initial config) inbound) : Prop where
  /-- The log holds the entries of all results that were heard before, in order. -/
  entries_eq : ∃ results : List TestResult, c.part = results.map .ok ∧
    c.state.log.entries = results.map (entry config)
  total_eq : c.state.log.totalScore = .ok c.state.score
  overflows_iff : (∃ test total points,
      c.visit.outcome = .error (.complaint (.scoreOverflows test total points))) ↔
    UInt32.size ≤ sumAfter c
  /-- A call that refuses points sends nothing, and it ends the run as it has found it. -/
  refused : UInt32.size ≤ sumAfter c →
    (∀ m outcome, .sent m outcome ∉ c.visit.events) ∧ c.visit.state = c.state ∧
      strategy.play { count, seed, sink } (initial config) inbound =
        { journal := c.before ++ c.visit.events
          context := c.context
          state := c.state
          result := .error (overflow config c.state.score c.result) }

theorem score_of_call (c : strategy.Call { count, seed, sink } (initial config) inbound) :
    c.state.score.toNat = JudgeLog.scoreSum c.state.log.entries := by
  obtain ⟨results, -, htallied⟩ := exists_tallied_of_call c
  rw [htallied.score_eq, htallied.entries_eq]

/-- A call whose result is worth too much does nothing but note the result and fail. -/
theorem visit_of_sumAfter (c : strategy.Call { count, seed, sink } (initial config) inbound)
    (hlarge : UInt32.size ≤ sumAfter c) :
    c.visit =
      { events := [.entered (.testEnd (.ofResult c.result)) c.context.view,
          .noted (keptRecord config c.result),
          .returned (.error (overflow config c.state.score c.result))]
        context := c.context
        state := c.state
        outcome := .error (overflow config c.state.score c.result) } := by
  obtain ⟨results, -, htallied⟩ := exists_tallied_of_call c
  have hconfig : c.state.config = config := htallied.config_eq
  have hover : UInt32.size ≤ c.state.score.toNat + (entry c.state.config c.result).score.toNat := by
    rwa [score_of_call c, hconfig]
  have hvisit := visit_of_overflow c.context hover
  rw [hconfig] at hvisit
  exact hvisit

theorem balanced (c : strategy.Call { count, seed, sink } (initial config) inbound) :
    Balanced c := by
  obtain ⟨results, hpart, htallied⟩ := exists_tallied_of_call c
  constructor
  case entries_eq => exact ⟨results, hpart, htallied.entries_eq⟩
  case total_eq => exact JudgeLog.totalScore_eq_ok_iff.2 (score_of_call c)
  case overflows_iff =>
    constructor
    · rintro ⟨test, total, points, hout⟩
      rw [sumAfter, htallied.entries_eq]
      exact overflows_of_visit htallied hout
    · intro hlarge
      exact ⟨_, _, _, congrArg (·.outcome) (visit_of_sumAfter c hlarge)⟩
  case refused =>
    intro hlarge
    have hvisit := visit_of_sumAfter c hlarge
    have hfails : c.visit.outcome = .error (overflow config c.state.score c.result) := by
      rw [hvisit]
    refine ⟨fun m outcome => ?_, by rw [hvisit], ?_⟩
    · rw [hvisit]
      simp
    · rw [c.play_eq_of_error hfails, hvisit]

end Calls

/-- The total of a log is the exact sum of its scores, in whatever order, or an error that names the
log if the sum has not the width of a score. Every call for a result that the journal of a
sequential run shows finds a running total that is the total of the log so far. The call fails for
the running total exactly if the points of the result take this sum beyond the width of a score, and
then it has kept and sent nothing, and neither does the run from there on. -/
theorem strategy_totals_agree (config : Config) (count : Option UInt32) (seed : Option (List UInt8))
    (sink : Sink) (stream : List UInt8) :
    let run := strategy.run { count, seed, sink } (initial config) stream
    (∀ log : JudgeLog, log.totalScore =
      if JudgeLog.scoreSum log.entries < UInt32.size
      then .ok (.ofNat (JudgeLog.scoreSum log.entries))
      else .error (.complaint (.totalOverflows log.name))) ∧
    (∀ log log' : JudgeLog, log.name = log'.name → log.entries.Perm log'.entries →
      log.totalScore = log'.totalScore) ∧
    ∀ before report view after, run.journal = before ++ .entered (.testEnd report) view :: after →
      ∃ c : strategy.Call { count, seed, sink } (initial config)
          (TestResult.readAll (Text.lines stream)),
        c.before = before ∧ report = .ofResult c.result ∧ view = c.context.view ∧
          c.visit.events <+: .entered (.testEnd report) view :: after ∧ Balanced c := by
  intro run
  refine ⟨JudgeLog.totalScore_eq, fun log log' => JudgeLog.totalScore_perm, ?_⟩
  intro before report view after hjournal
  obtain ⟨c, hbefore, hreport, hview, hvisit⟩ := Strategy.Call.exists_of_entered hjournal
  exact ⟨c, hbefore, hreport, hview, hvisit, balanced c⟩

/-- Points that reach the bound exactly are kept, and so are none for a test that was not passed;
one point more is refused. -/
example :
    let judge := "1 OK 4294967290\n2 OK 5\n3 WA 7\n4 OK 1\n"
    let run := strategy.run { count := some 5 }
      (initial { name := "main", stopOnFailure := false }) (Utf8.encode judge)
    run.result = .error (.complaint (.scoreOverflows 4 4294967295 1)) ∧
      run.state.log.totalScore = .ok 4294967295 := by
  refine ⟨?_, ?_⟩ <;> rfl

end Sequential

end Valuer
