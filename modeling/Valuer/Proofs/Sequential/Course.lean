import Valuer.Proofs.Bookkeeping
import Valuer.Proofs.Failures
import Valuer.Proofs.Sequential.Hooks

set_option autoImplicit false

/-! # The course of a sequential run

Everything that can come of a sequential run, whatever the judge says and however the sink fails. A
run that awaits a test has dealt with the results of all tests before it and with nothing else
(`Awaits`). The next thing that the judge says ends the run, and then it is clear why (`Ending`), or
brings it to the next test. `strategy_ending` follows a run to its end. -/

namespace Valuer

namespace Sequential

variable {config : Config} {count : Option UInt32} {tests : List UInt32}
  {inbound left : List (Except Error TestResult)} {results : List TestResult} {js : Journal}

/-! ## What a run says -/

/-- What a run says when a number of tests are reported on: each test is asked for, and its result
is commented on. -/
def account (results : List TestResult) : List Message :=
  results.flatMap fun r => .run r.test :: remarks r

theorem account_concat (results : List TestResult) (r : TestResult) :
    account (results ++ [r]) = account results ++ .run r.test :: remarks r := by
  rw [account, List.flatMap_append, List.flatMap_singleton, account]

/-- What is said about the first results is said first. -/
theorem account_mono {first : List TestResult} (h : first <+: results) :
    account first <+: account results := by
  obtain ⟨later, rfl⟩ := h
  rw [account, account, List.flatMap_append]
  exact List.prefix_append ..

theorem isComment_of_mem_remarks {r : TestResult} {m : Message} (h : m ∈ remarks r) :
    m.isComment = true := by
  unfold remarks warnings at h
  rcases List.mem_append.1 h with h | h
  · split at h
    · exact absurd h List.not_mem_nil
    · rw [List.mem_singleton.1 h]
      rfl
  · rw [List.mem_singleton.1 h]
    rfl

/-- A reading that comments have no part in finds nothing but the requests. -/
theorem filterMap_account {α : Type} {f : Message → Option α}
    (hf : ∀ audience text, f (.comment audience text) = none) (results : List TestResult) :
    (account results).filterMap f = results.filterMap fun r => f (.run r.test) := by
  induction results with
  | nil => rfl
  | cons r rest ih =>
      have hcut : account (r :: rest) = (.run r.test :: remarks r) ++ account rest :=
        List.flatMap_cons
      have hremarks : (remarks r).filterMap f = [] :=
        Message.filterMap_of_comments hf fun m => isComment_of_mem_remarks
      rw [hcut, List.filterMap_append, List.filterMap_cons, hremarks, ih, List.filterMap_cons]
      cases f (.run r.test) <;> rfl

/-- The tests that are asked for are those that are reported on. -/
theorem filterMap_test?_account (results : List TestResult) :
    (account results).filterMap Message.test? = results.map (·.test) :=
  (filterMap_account (fun _ _ => rfl) results).trans
    (congrFun List.filterMap_eq_map results)

theorem filterMap_report?_account (results : List TestResult) :
    (account results).filterMap Message.report? = [] :=
  (filterMap_account (fun _ _ => rfl) results).trans (List.filterMap_eq_nil_iff.2 fun _ _ => rfl)

/-! ## How a run can end -/

/-- Why a run ends that has dealt with the results so far and awaits a test, by what the judge says
next. -/
inductive Failure (config : Config) (results : List TestResult) (test : UInt32) :
    Option (Except Error TestResult) → Error → Prop where
  | silent : Failure config results test none (.unexpectedEnd (.result test))
  | unreadable {e : Error} : Failure config results test (some (.error e)) e
  | mismatched {r : TestResult} (htest : r.test ≠ test) :
      Failure config results test (some (.ok r)) (.protocol (.wrongResult r.test test))
  | overflowing {r : TestResult} {total : UInt32} (htest : r.test = test)
      (hlarge : UInt32.size ≤ JudgeLog.scoreSum ((results ++ [r]).map (entry config))) :
      Failure config results test (some (.ok r))
        (.complaint (.scoreOverflows r.test total (entry config r).score))
  | unfit {r : TestResult} (htest : r.test = test) (hcode : isToken r.code = false) :
      Failure config results test (some (.ok r)) (.badStatusCode r.code)
  | repeated {r : TestResult} (htest : r.test = test) (hthere : test ∈ results.map (·.test)) :
      Failure config results test (some (.ok r)) (.duplicateTest r.test)

/-- The result that is said next comes right after those that were dealt with. -/
theorem prefix_of_next {r : TestResult} (hread : results.map .ok <+: inbound)
    (hnext : inbound[results.length]? = some (.ok r)) : (results ++ [r]).map .ok <+: inbound := by
  obtain ⟨left, hleft⟩ := hread
  rw [next_of_read hleft, List.head?_eq_some_iff] at hnext
  obtain ⟨rest, rfl⟩ := hnext
  exact ⟨rest, by simp [← hleft]⟩

/-- A journal of a run that asks for tests of the plan, in order, and sends no report. -/
def Unfinished (tests : List UInt32) (js : Journal) : Prop :=
  js.requests <+: tests ∧ js.delivered.filterMap Message.report? = []

/-- How a run through the tests of its plan ends. -/
inductive Ending (config : Config) (tests : List UInt32) (inbound : List (Except Error TestResult))
    (js : Journal) : Except Error Report → Prop where
  /-- All went well: the results that the plan asks for are reported. -/
  | reported {results : List TestResult} {s : State} (hread : results.map .ok <+: inbound)
      (hcovers : Covers config tests (results.map (entry config)))
      (htallied : Tallied config (results.map (entry config)) s)
      (hdelivered : js.delivered = account results ++ [.finish (reportOf s)])
      (hsound : js.refusal? = none) : Ending config tests inbound js (.ok (reportOf s))
  /-- The judge has not sent what could be reported on. -/
  | failed {results : List TestResult} {test : UInt32} {ahead : List UInt32} {e : Error}
      (hread : results.map .ok <+: inbound)
      (hplan : OnPlan config tests (results.map (entry config)) (test :: ahead))
      (hasked : js.requests = results.map (·.test) ++ [test])
      (hcause : Failure config results test inbound[results.length]? e)
      (hunfinished : Unfinished tests js) (hsound : js.refusal? = none) :
      Ending config tests inbound js (.error e)
  /-- The sink has lost a message. -/
  | lost {fault : StreamFault} (hlost : ∃ e ∈ js, e.isLost = true)
      (hunfinished : Unfinished tests js) (hsound : js.refusal? = none) :
      Ending config tests inbound js (.error (.stream fault))
  /-- The plan names test zero. -/
  | refused (hzero : 0 ∈ tests) (hunfinished : Unfinished tests js) :
      Ending config tests inbound js (.error (.protocol .testZero))

/-! ## Moments of a run -/

/-- The run is about to go on: the results so far are told and commented on. -/
structure Poised (config : Config) (count : Option UInt32) (tests : List UInt32)
    (results : List TestResult) (js : Journal) (ctx : Context) (s : State) : Prop where
  tallied : Tallied config (results.map (entry config)) s
  course : OnPlan config tests (results.map (entry config)) s.remaining ∨
    s.remaining = [] ∧ Covers config tests (results.map (entry config))
  count_eq : ctx.count = count
  phase_eq : ctx.phase = .running
  idle : ctx.Idle
  delivered_eq : js.delivered = account results
  sound : js.refusal? = none

/-- The run awaits a test: the results of all tests before it are told and commented on. -/
structure Awaits (config : Config) (count : Option UInt32) (tests : List UInt32)
    (results : List TestResult) (test : UInt32) (js : Journal) (session : Session State) :
    Prop where
  tallied : Tallied config (results.map (entry config)) session.state
  ahead : ∃ ahead, session.state.remaining = test :: ahead ∧
    OnPlan config tests (results.map (entry config)) (test :: ahead)
  count_eq : session.context.count = count
  fits : (Point.awaiting test).Fits session.context
  delivered_eq : js.delivered = account results ++ [.run test]
  sound : js.refusal? = none

/-- Where a run stands. -/
def Stands (config : Config) (count : Option UInt32) (tests : List UInt32)
    (inbound : List (Except Error TestResult)) (js : Journal) (session : Session State)
    (left : List (Except Error TestResult)) : Prop :=
  match session.status with
  | .awaiting test => ∃ results, results.map .ok ++ left = inbound ∧
      Awaits config count tests results test js session
  | .ended result => Ending config tests inbound js result

/-! ## Readings of asides -/

theorem isComment_of_aside {acts : Journal} (h : ∀ e ∈ acts, e.isAside = true) :
    ∀ m ∈ acts.delivered, m.isComment = true := by
  intro m hm
  obtain ⟨e, he, hdelivered⟩ := List.mem_filterMap.1 hm
  obtain rfl := Event.eq_of_delivered? hdelivered
  exact h _ he

theorem refusal?_of_aside {acts : Journal} (h : ∀ e ∈ acts, e.isAside = true) :
    acts.refusal? = none := by
  refine List.findSome?_eq_none_iff.2 fun e he => ?_
  have haside := h e he
  unfold Event.refused?
  split
  · exact absurd haside (by simp [Event.isAside])
  · rfl

/-! ## Going on -/

/-- Messages that report on leading tests of the plan, and on nothing else but tests that follow. -/
theorem unfinished_of_delivered {ms : List Message}
    (hdelivered : js.delivered = account results ++ ms)
    (htests : results.map (·.test) ++ ms.filterMap Message.test? <+: tests)
    (hreports : ms.filterMap Message.report? = []) : Unfinished tests js := by
  constructor
  · rw [Journal.requests, hdelivered, List.filterMap_append, filterMap_test?_account]
    exact htests
  · rw [hdelivered, List.filterMap_append, filterMap_report?_account, hreports]
    rfl

namespace Poised

variable {ctx : Context} {s : State}

theorem leading (h : Poised config count tests results js ctx s) :
    results.map (·.test) <+: tests := by
  have htests : (results.map (entry config)).map (·.test) = results.map (·.test) :=
    map_test_entry results
  rw [← htests]
  rcases h.course with hplan | ⟨-, hcovers⟩
  · exact ⟨_, hplan.tests_eq.symm⟩
  · exact hcovers.leading

/-- Nothing but test zero is refused to a run that keeps to its plan. -/
theorem objection? (h : Poised config count tests results js ctx s)
    (hbound : ∀ last, count = some last → ∀ t ∈ tests, t ≤ last) :
    ctx.objection? (onward s) = none ∨
      ctx.objection? (onward s) = some .testZero ∧ 0 ∈ tests := by
  have hpending := h.idle.1
  cases hremaining : s.remaining with
  | nil =>
      left
      simp [onward, hremaining, Context.objection?, Context.finishObjection?, h.phase_eq, hpending]
  | cons test ahead =>
      have hmem : test ∈ tests := by
        rcases h.course with hplan | ⟨hnil, -⟩
        · rw [hplan.tests_eq, hremaining]
          exact List.mem_append_right _ List.mem_cons_self
        · exact absurd (hnil.symm.trans hremaining) (by simp)
      simp only [onward, hremaining, Context.objection?, Context.runObjection?, h.phase_eq,
        hpending, h.count_eq]
      by_cases hzero : test = 0
      · exact .inr ⟨by simp [hzero], hzero ▸ hmem⟩
      · left
        cases hcount : count with
        | none => simp [hzero]
        | some last =>
            have hle : ¬ last < test := UInt32.not_lt.2 (hbound last hcount test hmem)
            simp [hzero, hle]

/-- A run whose next message fails has asked for the tests that it reported on and no other. -/
theorem unfinished {acts : Journal} (h : Poised config count tests results (js ++ acts) ctx s)
    {e : Error} (hsend : (ctx.send (onward s)).2 = .error e) :
    Unfinished tests (js ++ (goingOn acts ctx s).events) := by
  have hdelivered : Journal.delivered (js ++ (goingOn acts ctx s).events)
      = account results ++ [] := by
    rw [goingOn, ← List.append_assoc, Journal.delivered_append, h.delivered_eq, hsend]
    rfl
  refine unfinished_of_delivered hdelivered ?_ rfl
  rw [List.filterMap_nil, List.append_nil]
  exact h.leading

/-- The next message was sent: the run awaits a test, or it ends with the report. -/
theorem stands_of_sent {acts : Journal} {sink : Sink}
    (h : Poised config count tests results (js ++ acts) ctx s)
    (hread : results.map .ok ++ left = inbound)
    (hsend : ctx.send (onward s) = ({ ctx with sink }.accept (onward s), .ok ())) :
    let went := Session.settle (goingOn acts ctx s)
    Stands config count tests inbound (js ++ went.1) went.2 left := by
  obtain ⟨hpending, hreport, hviolation⟩ := h.idle
  cases hremaining : s.remaining with
  | nil =>
      -- what was sent is the report, and the run ends with it
      have hmessage : onward s = .finish (reportOf s) := by simp only [onward, hremaining]
      have hcovers : Covers config tests (results.map (entry config)) := by
        rcases h.course with hplan | ⟨-, hcovers⟩
        · exact (hremaining ▸ hplan).covers
        · exact hcovers
      rw [hmessage] at hsend
      simp only [Session.settle, goingOn, hmessage, hsend, Context.judge, Context.accept,
        hviolation, Context.status, Stands]
      refine .reported ⟨left, hread⟩ hcovers h.tallied ?_ ?_
      · rw [← List.append_assoc, ← List.append_assoc, Journal.delivered_append,
          Journal.delivered_append, h.delivered_eq, List.append_assoc]
        rfl
      · rw [← List.append_assoc, ← List.append_assoc]
        exact Journal.refusal?_append_eq_none (Journal.refusal?_append_eq_none h.sound rfl) rfl
  | cons test ahead =>
      -- what was sent is a request, so the plan has not ended
      have hmessage : onward s = .run test := by simp only [onward, hremaining]
      have hplan : OnPlan config tests (results.map (entry config)) (test :: ahead) := by
        rcases h.course with hplan | ⟨hnil, -⟩
        · exact hremaining ▸ hplan
        · exact absurd (hnil.symm.trans hremaining) (by simp)
      have hstate : handedOver s = s := by simp only [handedOver, hremaining]
      rw [hmessage] at hsend
      simp only [Session.settle, goingOn, hmessage, hsend, hstate, Context.judge, Context.accept,
        hviolation, hreport, Context.status, Stands]
      refine ⟨results, hread, h.tallied, ⟨ahead, hremaining, hplan⟩, h.count_eq,
        ⟨h.phase_eq, rfl, rfl, rfl⟩, ?_, ?_⟩
      · rw [← List.append_assoc, Journal.delivered_append, h.delivered_eq]
        rfl
      · rw [← List.append_assoc]
        exact Journal.refusal?_append_eq_none h.sound rfl

/-- A run that is about to go on awaits the next test or ends. -/
theorem stands {acts : Journal} (h : Poised config count tests results (js ++ acts) ctx s)
    (hbound : ∀ last, count = some last → ∀ t ∈ tests, t ≤ last)
    (hread : results.map .ok ++ left = inbound) :
    let went := Session.settle (goingOn acts ctx s)
    Stands config count tests inbound (js ++ went.1) went.2 left := by
  rcases h.objection? hbound with hallowed | ⟨hrefused, hzero⟩
  · rcases Context.send_of_allowed hallowed with ⟨sink, -, hsend⟩ | ⟨sink, fault, -, hsend⟩
    · exact h.stands_of_sent hread hsend
    · have hout : (goingOn acts ctx s).outcome = .error (.stream fault) := by
        rw [goingOn, hsend]
        rfl
      simp only [Session.settle_of_error hout, Stands]
      refine .lost ⟨.sent (onward s) (.error (.stream fault)), ?_, rfl⟩
        (h.unfinished (congrArg Prod.snd hsend)) ?_
      · simp [goingOn, hsend]
      · rw [goingOn, hsend, ← List.append_assoc]
        exact Journal.refusal?_append_eq_none h.sound rfl
  · have hsend := Context.send_of_refused hrefused
    have hout : (goingOn acts ctx s).outcome = .error (.protocol .testZero) := by
      rw [goingOn, hsend]
      rfl
    simp only [Session.settle_of_error hout, Stands]
    exact .refused hzero (h.unfinished (congrArg Prod.snd hsend))

end Poised

namespace Awaits

variable {test : UInt32} {session : Session State}

theorem requests_eq (h : Awaits config count tests results test js session) :
    js.requests = results.map (·.test) ++ [test] := by
  rw [Journal.requests, h.delivered_eq, List.filterMap_append, filterMap_test?_account]
  rfl

/-- As long as nothing but comments is sent the run has not gone beyond the test that it awaits. -/
theorem unfinished (h : Awaits config count tests results test js session) {more : Journal}
    (hmore : ∀ m ∈ more.delivered, m.isComment = true) :
    Unfinished tests (js ++ more) ∧ (js ++ more).requests = results.map (·.test) ++ [test] := by
  obtain ⟨ahead, -, hplan⟩ := h.ahead
  have htests : more.delivered.filterMap Message.test? = [] :=
    Message.filterMap_of_comments (fun _ _ => rfl) hmore
  have hrequests : (js ++ more).requests = results.map (·.test) ++ [test] := by
    rw [Journal.requests_append, h.requests_eq, Journal.requests, htests, List.append_nil]
  refine ⟨⟨?_, ?_⟩, hrequests⟩
  · rw [hrequests, hplan.tests_eq, map_test_entry]
    exact ⟨ahead, by simp⟩
  · rw [Journal.delivered_append, List.filterMap_append, h.delivered_eq, List.filterMap_append,
      filterMap_report?_account, filterMap_report?_of_comments hmore]
    rfl

/-- What the judge says next is a reason for the run to end. -/
theorem failed (h : Awaits config count tests results test js session)
    (hread : results.map .ok ++ left = inbound) {e : Error}
    (hcause : Failure config results test left.head? e) {more : Journal}
    (hmore : ∀ m ∈ more.delivered, m.isComment = true) (hsound : more.refusal? = none) :
    Ending config tests inbound (js ++ more) (.error e) := by
  obtain ⟨ahead, -, hplan⟩ := h.ahead
  obtain ⟨hunfinished, hasked⟩ := h.unfinished hmore
  refine .failed ⟨left, hread⟩ hplan hasked ?_ hunfinished
    (Journal.refusal?_append_eq_none h.sound hsound)
  rw [next_of_read hread]
  exact hcause

/-- A result that is taken in leaves the run about to go on. -/
theorem poised (h : Awaits config count tests results test js session) {r : TestResult}
    (htest : r.test = test) {next : State} (hadvance : advance session.state r = .ok next)
    {more : Journal} (hdelivered : more.delivered = remarks r) (hsound : more.refusal? = none)
    (sink : Sink) :
    Poised config count tests (results ++ [r]) (js ++ more)
      { session.context with pending := none, sink } next := by
  obtain ⟨ahead, hremaining, hplan⟩ := h.ahead
  obtain ⟨htallied, hafter⟩ := h.tallied.advance_eq_ok hadvance
  have hentries : (results ++ [r]).map (entry config)
      = results.map (entry config) ++ [entry config r] := List.map_append
  refine ⟨hentries ▸ htallied, ?_, h.count_eq, h.fits.1, ⟨rfl, h.fits.2.2⟩, ?_,
    Journal.refusal?_append_eq_none h.sound hsound⟩
  · subst htest
    have hcourse := OnPlan.next (e := entry config r) hplan
    rw [hentries, hafter, remainingAfter, hremaining, h.tallied.config_eq]
    split at hcourse
    · next hstops => exact .inr ⟨if_pos hstops, hcourse⟩
    · next hgoes =>
        left
        rw [if_neg hgoes]
        exact hcourse
  · rw [Journal.delivered_append, h.delivered_eq, hdelivered, account_concat, htest,
      List.append_assoc]
    rfl

/-- A hook that breaks off over a result ends the run: the result cannot be kept, or a comment on it
was lost. -/
theorem brokenOff (h : Awaits config count tests results test js session) {r : TestResult}
    {rest : List (Except Error TestResult)} (hread : results.map .ok ++ .ok r :: rest = inbound)
    (htest : r.test = test) {more : Journal} (hmore : ∀ m ∈ more.delivered, m.isComment = true)
    (hsound : more.refusal? = none) {e : Error}
    (hcause : advance session.state r = .error e ∨
      (∃ fault, e = .stream fault) ∧ ∃ d ∈ more, d.isLost = true) :
    Ending config tests inbound (js ++ more) (.error e) := by
  rcases hcause with hadvance | ⟨⟨fault, rfl⟩, d, hd, hlost⟩
  · have hentries : (results ++ [r]).map (entry config)
        = results.map (entry config) ++ [entry config r] := List.map_append
    refine h.failed hread ?_ hmore hsound
    rcases h.tallied.advance_eq_error hadvance with ⟨hlarge, rfl⟩ | ⟨hcode, rfl⟩ | ⟨hthere, rfl⟩
    · exact .overflowing htest (hentries ▸ hlarge)
    · exact .unfit htest hcode
    · rw [map_test_entry, htest] at hthere
      exact .repeated htest hthere
  · exact .lost ⟨d, List.mem_append_right _ hd, hlost⟩ (h.unfinished hmore).1
      (Journal.refusal?_append_eq_none h.sound hsound)

/-- A result that was taken in brings the run to the next test or to its end. -/
theorem wentOn (h : Awaits config count tests results test js session)
    (hbound : ∀ last, count = some last → ∀ t ∈ tests, t ≤ last) {r : TestResult}
    {rest : List (Except Error TestResult)} (hread : results.map .ok ++ .ok r :: rest = inbound)
    (htest : r.test = test) {next : State} (hadvance : advance session.state r = .ok next)
    {acts : Journal} (hdelivered : acts.delivered = remarks r) (hsound : acts.refusal? = none)
    (sink : Sink) :
    let went := Session.settle (goingOn acts { session.context with pending := none, sink } next)
    Stands config count tests inbound (js ++ .heard (some (.ok r)) :: went.1) went.2 rest := by
  -- what was heard sends nothing, so it goes with the comments on it
  have hheard : Journal.delivered (.heard (some (.ok r)) :: acts) = remarks r := hdelivered
  have hpoised := h.poised htest hadvance hheard hsound sink
  rw [List.append_cons js] at hpoised
  intro went
  rw [List.append_cons js]
  refine hpoised.stands hbound ?_
  rw [List.map_append, List.append_assoc]
  exact hread

/-- What the judge says next brings a run to the next test or to its end. -/
theorem stands_hear (h : Awaits config count tests results test js session)
    (hbound : ∀ last, count = some last → ∀ t ∈ tests, t ≤ last)
    (hread : results.map .ok ++ left = inbound) :
    let went := Session.hear strategy session test left.head?
    Stands config count tests inbound (js ++ went.1) went.2 left.tail := by
  have hnone : ∀ m ∈ Journal.delivered [], m.isComment = true :=
    fun _ hm => absurd hm List.not_mem_nil
  cases left with
  | nil => exact h.failed hread .silent hnone rfl
  | cons said rest =>
      cases said with
      | error e => exact h.failed hread .unreadable hnone rfl
      | ok r =>
          simp only [Session.hear, List.head?_cons, List.tail_cons]
          split
          · next htest =>
              obtain ⟨acts, haside, hvisit⟩ :=
                visit_testEnd_cases r session.state { session.context with pending := none }
              have hcomments := isComment_of_aside haside
              have hsound := refusal?_of_aside haside
              rcases hvisit with
                ⟨next, sink, hadvance, hdelivered, hv⟩ | ⟨e, hout, hevents, hcause⟩
              · rw [hv]
                exact h.wentOn hbound hread htest hadvance hdelivered hsound sink
              · rw [Session.settle_of_error hout, hevents]
                have hmore : ∀ m ∈ Journal.delivered (.heard (some (.ok r)) :: acts),
                    m.isComment = true := hcomments
                refine h.brokenOff hread htest hmore hsound (hcause.imp_right ?_)
                rintro ⟨hfault, d, hd, hlost⟩
                exact ⟨hfault, d, List.mem_cons_of_mem _ hd, hlost⟩
          · next htest => exact h.failed hread (.mismatched htest) hnone rfl

end Awaits

/-! ## Whole runs -/

/-- A run without a plan ends before it has sent anything. -/
theorem start_of_plan_eq_error {e : Error} (h : plan config count = .error e)
    (seed : Option (List UInt8)) (sink : Sink) :
    let opening := Session.start strategy { count, seed, sink } (initial config)
    opening.2.status = .ended (.error e) ∧ opening.1.delivered = [] ∧
      opening.1.refusal? = none := by
  obtain ⟨events, haside, hdelivered, hvisit⟩ := visit_init (initial config)
    { count, seed, sink, phase := .initialized }
  simp only [initial, h] at hvisit
  simp only [Session.start, Session.move, Context.enter, initial, hvisit]
  exact ⟨trivial, hdelivered, refusal?_of_aside (List.forall_mem_cons.2 ⟨rfl, haside⟩)⟩

/-- A run with a plan awaits its first test, or ends. -/
theorem stands_start (h : plan config count = .ok tests) (seed : Option (List UInt8))
    (sink : Sink) :
    let opening := Session.start strategy { count, seed, sink } (initial config)
    Stands config count tests inbound opening.1 opening.2 inbound := by
  obtain ⟨events, haside, hdelivered, hvisit⟩ := visit_init (initial config)
    { count, seed, sink, phase := .initialized }
  simp only [initial, h] at hvisit
  obtain ⟨hplanned, hbound⟩ := plan_eq_ok_iff.1 h
  have hopened : ∀ d ∈ Event.moved .notStarted .initialized :: events, d.isAside = true :=
    List.forall_mem_cons.2 ⟨rfl, haside⟩
  -- the call of the hook is kept folded: only that nothing is sent with it counts
  generalize hview : Event.entered .begin
    (Context.view { count, seed, sink, phase := .running }) = entered
  have hpoised : Poised config count tests []
      ((.moved .notStarted .initialized :: events ++ [.moved .initialized .running]) ++ [entered])
      { count, seed, sink, phase := .running } { initial config with remaining := tests } := by
    refine ⟨tallied_initial config tests, .inl ⟨rfl, ?_⟩, rfl, rfl, ⟨rfl, rfl, rfl⟩, ?_, ?_⟩
    · exact fun _ e he => absurd he List.not_mem_nil
    · rw [← hview, List.append_assoc, Journal.delivered_append]
      exact (List.append_nil _).trans hdelivered
    · rw [← hview, List.append_assoc]
      exact Journal.refusal?_append_eq_none (refusal?_of_aside hopened) rfl
  simp only [Session.start, Session.move, Context.enter, initial, hvisit, Context.judge,
    visit_begin]
  rw [hview, ← List.cons_append, List.append_cons (_ :: events)]
  exact hpoised.stands hbound rfl

/-- What a run hears next leads from where it stands to where it stands then. -/
theorem Stands.hear (hbound : ∀ last, count = some last → ∀ t ∈ tests, t ≤ last)
    {session : Session State} {test : UInt32} (hstatus : session.status = .awaiting test)
    (h : Stands config count tests inbound js session left) :
    let went := Session.hear strategy session test left.head?
    Stands config count tests inbound (js ++ went.1) went.2 left.tail := by
  simp only [Stands, hstatus] at h
  obtain ⟨results, hread, hawaits⟩ := h
  exact hawaits.stands_hear hbound hread

/-- A run that stands somewhere is carried on to its end. -/
theorem ending_follow (hbound : ∀ last, count = some last → ∀ t ∈ tests, t ≤ last)
    {session : Session State} (h : Stands config count tests inbound js session left) :
    Ending config tests inbound (js ++ (Session.follow strategy session left).1)
      (Session.follow strategy session left).2.result := by
  obtain ⟨rest, result, hended, hlast⟩ := Session.follow_induct strategy
    (motive := Stands config count tests inbound) (Stands.hear hbound) h
  simp only [Stands, hended] at hlast
  simp only [Session.result, hended]
  exact hlast

/-- A run without a plan ends with the reason for that, and has sent nothing. -/
theorem strategy_unplanned {e : Error} (h : plan config count = .error e)
    (seed : Option (List UInt8)) (sink : Sink) (stream : List UInt8) :
    let run := strategy.run { count, seed, sink } (initial config) stream
    run.result = .error e ∧ run.journal.delivered = [] ∧ run.journal.refusal? = none := by
  obtain ⟨hstatus, hdelivered, hsound⟩ := start_of_plan_eq_error h seed sink
  simp only [Strategy.run, Strategy.play, Session.follow_of_ended hstatus, List.append_nil]
  exact ⟨by rw [Session.result, hstatus], hdelivered, hsound⟩

/-- How a sequential run with a plan ends, whatever its judge says and however its sink fails. -/
theorem strategy_ending (h : plan config count = .ok tests) (seed : Option (List UInt8))
    (sink : Sink) (stream : List UInt8) :
    let run := strategy.run { count, seed, sink } (initial config) stream
    Ending config tests (TestResult.readAll (Text.lines stream)) run.journal run.result :=
  ending_follow (plan_eq_ok_iff.1 h).2 (stands_start h seed sink)

end Sequential

end Valuer
