import Valuer.Proofs.ResultLines
import Valuer.Proofs.Sequential.Course
import Valuer.Proofs.WireAgreement

set_option autoImplicit false

/-! # What a sequential run reports

A report is never about anything but results that the judge has sent: it holds the entry of each
one, in the order of the plan, and their exact sum (`strategy_reports`). A judge that sends what the
plan asks for gets its report, and the whole transcript of the run is known before
(`strategy_transcript`). With a configuration that was accepted a run breaks no rule of the
protocol, whatever the judge sends (`strategy_keeps_protocol`). -/

namespace Valuer.Sequential

variable {config : Config} {count : Option UInt32} {tests : List UInt32}
  {results : List TestResult} {js : Journal} {report : Report}

/-! ## Reports -/

/-- Tests that are asked for are covered without stopping, or up to the first that fails. -/
theorem Covers.full_iff {es : List LogEntry} (h : Covers config tests es) :
    (∀ e ∈ es, e.verdict = .accepted)
      ↔ es.map (·.test) = tests ∧ ∀ e ∈ es, e.verdict = .accepted := by
  refine ⟨fun hall => ⟨?_, hall⟩, And.right⟩
  rcases h.ended with htests | ⟨-, e, hlast, hfailed⟩
  · exact htests
  · exact absurd (hall e (List.mem_of_getLast? hlast)) hfailed

/-- What a report says about the results that a plan asks for. -/
structure ReportsOn (config : Config) (tests : List UInt32) (results : List TestResult)
    (report : Report) : Prop where
  name_eq : report.log.name = config.name
  entries_eq : report.log.entries = results.map (entry config)
  score_eq : report.score.toNat = JudgeLog.scoreSum report.log.entries
  full_iff : report.full = true ↔
    report.log.entries.map (·.test) = tests ∧ ∀ e ∈ report.log.entries, e.verdict = .accepted

namespace ReportsOn

/-- Every result that was reported on has a code that can be logged. -/
theorem isToken_of_mem (h : ReportsOn config tests results report) {r : TestResult}
    (hr : r ∈ results) : isToken r.code = true := by
  have hmem : entry config r ∈ report.log.entries := h.entries_eq ▸ List.mem_map_of_mem hr
  exact report.log.tokens _ hmem

theorem nodup (h : ReportsOn config tests results report) : (results.map (·.test)).Nodup := by
  have hdistinct := report.log.distinct
  rw [h.entries_eq, map_test_entry] at hdistinct
  exact hdistinct

theorem scoreSum_lt (h : ReportsOn config tests results report) :
    JudgeLog.scoreSum (results.map (entry config)) < UInt32.size := by
  rw [← h.entries_eq, ← h.score_eq]
  exact report.score.toNat_lt_size

end ReportsOn

theorem Tallied.reportsOn {s : State} (h : Tallied config (results.map (entry config)) s)
    (hcovers : Covers config tests (results.map (entry config))) :
    ReportsOn config tests results (reportOf s) := by
  have hentries : (reportOf s).log.entries = results.map (entry config) := h.entries_eq
  refine ⟨h.name_eq, hentries, ?_, ?_⟩
  · rw [hentries]
    exact h.score_eq
  · rw [hentries, ← hcovers.full_iff]
    exact h.passed_iff

/-- A run that ends with a report has a plan, and has dealt with the results that this asks for. -/
theorem exists_covering_of_reported {seed : Option (List UInt8)} {sink : Sink}
    {stream : List UInt8}
    (h : (strategy.run { count, seed, sink } (initial config) stream).result = .ok report) :
    ∃ tests results s, plan config count = .ok tests ∧ report = reportOf s ∧
      results.map .ok <+: TestResult.readAll (Text.lines stream) ∧
      Covers config tests (results.map (entry config)) ∧
      Tallied config (results.map (entry config)) s ∧
      (strategy.run { count, seed, sink } (initial config) stream).journal.delivered
        = account results ++ [.finish report] := by
  cases hplan : plan config count with
  | error e =>
      obtain ⟨hresult, -, -⟩ := strategy_unplanned hplan seed sink stream
      exact absurd (hresult.symm.trans h) (by simp)
  | ok tests =>
      have hending := strategy_ending hplan seed sink stream
      simp only [h] at hending
      cases hending with
      | @reported results s hread hcovers htallied hdelivered hsound =>
          exact ⟨tests, results, s, rfl, rfl, hread, hcovers, htallied, hdelivered⟩

/-- Whatever the configuration, the judge and the sink: a run that ends with a report has gone
through the plan as far as it had to, and reports on the results that the judge has sent for its
tests, each test once. The score is the exact sum of the entries, and so is the total of the log. -/
theorem strategy_reports {seed : Option (List UInt8)} {sink : Sink} {stream : List UInt8}
    (h : (strategy.run { count, seed, sink } (initial config) stream).result = .ok report) :
    ∃ tests results, planned config count = some tests ∧
      results.map .ok <+: TestResult.readAll (Text.lines stream) ∧
      Covers config tests report.log.entries ∧ (report.log.entries.map (·.test)).Nodup ∧
      ReportsOn config tests results report ∧ report.log.totalScore = .ok report.score := by
  obtain ⟨tests, results, s, hplan, rfl, hread, hcovers, htallied, -⟩ :=
    exists_covering_of_reported h
  have hreports := htallied.reportsOn hcovers
  refine ⟨tests, results, (plan_eq_ok_iff.1 hplan).1, hread, ?_, (reportOf s).log.distinct,
    hreports, JudgeLog.totalScore_eq_ok_iff.2 hreports.score_eq⟩
  rw [hreports.entries_eq]
  exact hcovers

/-- A failed test ends the plan: the third test is not asked for, and the report is not full. -/
theorem strategy_reports_up_to_failure :
    let config : Config := { tests := some [3, 1, 2] }
    let stream := TestResult.encode ⟨3, "OK", 40⟩ ++ TestResult.encode ⟨1, "WA", 9⟩
    let report : Report :=
      { score := 40
        full := false
        log :=
          { name := "main"
            entries := [⟨3, "OK", .accepted, 40⟩, ⟨1, "WA", .rejected, 0⟩]
            distinct := by decide
            tokens := by decide } }
    (strategy.run { count := some 3 } (initial config) stream).result = .ok report ∧
      ∃ tests results, planned config (some 3) = some tests ∧
        results.map .ok <+: TestResult.readAll (Text.lines stream) ∧
        Covers config tests report.log.entries ∧ (report.log.entries.map (·.test)).Nodup ∧
        ReportsOn config tests results report ∧ report.log.totalScore = .ok report.score := by
  intro config stream report
  have hresult : (strategy.run { count := some 3 } (initial config) stream).result
      = .ok report := by decide +kernel
  exact ⟨hresult, strategy_reports hresult⟩

/-! ## Transcripts -/

section Transcript

variable {done later : List TestResult} {r : TestResult} {test : UInt32} {ahead : List UInt32}

/-- What a stream starts with is comparable. -/
theorem prefix_or_prefix_of_read {inbound : List (Except Error TestResult)}
    (hdone : done.map .ok <+: inbound) (hresults : results.map .ok <+: inbound) :
    done <+: results ∨ results <+: done := by
  have hback : ∀ rs : List TestResult,
      (rs.map (Except.ok (ε := Error))).filterMap Except.toOption = rs := by
    intro rs
    rw [List.filterMap_map]
    exact List.filterMap_some
  have hstart := List.prefix_or_prefix_of_prefix
    (hdone.filterMap Except.toOption) (hresults.filterMap Except.toOption)
  rw [hback, hback] at hstart
  exact hstart

theorem Covers.results_eq (hdone : Covers config tests (done.map (entry config)))
    (hresults : Covers config tests (results.map (entry config))) (hstart : done <+: results) :
    done = results := by
  have hlength := congrArg List.length (hdone.eq_of_prefix hresults (hstart.map _))
  rw [List.length_map, List.length_map] at hlength
  exact hstart.eq_of_length hlength

/-- While a plan goes on, the next of the results that cover it is that of the test awaited. -/
theorem OnPlan.next_result (h : OnPlan config tests (done.map (entry config)) (test :: ahead))
    (hcovers : Covers config tests (results.map (entry config)))
    (hstart : done <+: results ∨ results <+: done) :
    ∃ r later, results = done ++ r :: later ∧ r.test = test := by
  have hentries : done.map (entry config) <+: results.map (entry config) ∨
      results.map (entry config) <+: done.map (entry config) :=
    hstart.imp (·.map _) (·.map _)
  obtain ⟨e, rest, hsplit, htest⟩ := h.behind hcovers hentries
  rcases hstart with ⟨more, rfl⟩ | hshort
  · rw [List.map_append, List.append_cancel_left_eq, List.map_eq_cons_iff] at hsplit
    obtain ⟨r, later, rfl, rfl, -⟩ := hsplit
    exact ⟨r, later, rfl, htest⟩
  · have hlength := congrArg List.length hsplit
    have hle := hshort.length_le
    simp only [List.length_map, List.length_append, List.length_cons] at hlength
    omega

/-- A result that the plan asks for and that can be logged is no reason to fail, unless its points
are too many. -/
theorem Failure.overflows {e : Error} (h : Failure config done test (some (.ok r)) e)
    (htest : r.test = test) (hcode : isToken r.code = true) (hnew : test ∉ done.map (·.test)) :
    UInt32.size ≤ JudgeLog.scoreSum ((done ++ [r]).map (entry config)) ∧
      ∃ total, e = .complaint (.scoreOverflows r.test total (entry config r).score) := by
  cases h with
  | mismatched hother => exact absurd htest hother
  | @overflowing _ total _ hlarge => exact ⟨hlarge, total, rfl⟩
  | unfit _ hunfit => exact absurd hcode (by simp [hunfit])
  | repeated _ hthere => exact absurd hthere hnew

/-- A run is ended by points that do not have the width of a score. -/
def Overflowed (result : Except Error Report) : Prop :=
  ∃ test total score, result = .error (.complaint (.scoreOverflows test total score))

/-- A run whose sink loses nothing and whose judge sends what the plan asks for ends with the
report, or with too many points. -/
theorem Ending.of_read {inbound : List (Except Error TestResult)}
    {result : Except Error Report} (h : Ending config tests inbound js result)
    (htests : Runnable tests) (hread : results.map .ok <+: inbound)
    (hcovers : Covers config tests (results.map (entry config)))
    (hcodes : ∀ r ∈ results, isToken r.code = true) (hkept : ∀ e ∈ js, e.isLost = false) :
    (∃ s, result = .ok (reportOf s) ∧ Tallied config (results.map (entry config)) s ∧
        js.delivered = account results ++ [.finish (reportOf s)]) ∨
      UInt32.size ≤ JudgeLog.scoreSum (results.map (entry config)) ∧ Overflowed result := by
  cases h with
  | @reported done s hdone hcovered htallied hdelivered _ =>
      have hsame : done = results := by
        rcases prefix_or_prefix_of_read hdone hread with hstart | hstart
        · exact hcovered.results_eq hcovers hstart
        · exact (hcovers.results_eq hcovered hstart).symm
      exact .inl ⟨s, rfl, hsame ▸ htallied, hsame ▸ hdelivered⟩
  | @failed done test ahead e hdone hplan hasked hcause _ _ =>
      obtain ⟨r, later, hresults, htest⟩ :=
        hplan.next_result hcovers (prefix_or_prefix_of_read hdone hread)
      subst hresults
      -- the next thing on the stream is the result of the test awaited
      have hnext : inbound[done.length]? = some (.ok r) := by
        obtain ⟨more, hmore⟩ := hread
        rw [← hmore]
        simp
      rw [hnext] at hcause
      have hnew := hplan.new htests.2
      rw [map_test_entry] at hnew
      have hcode := hcodes r (List.mem_append_right _ List.mem_cons_self)
      obtain ⟨hlarge, total, rfl⟩ := hcause.overflows htest hcode hnew
      refine .inr ⟨?_, _, _, _, rfl⟩
      rw [List.append_cons, List.map_append, JudgeLog.scoreSum_append]
      omega
  | lost hlost _ _ =>
      obtain ⟨e, he, hlost⟩ := hlost
      exact absurd hlost (by simp [hkept e he])
  | refused hzero _ => exact absurd hzero htests.1

end Transcript

/-- What a run that lost nothing has written before its report. -/
structure Wrote (run : Run State) (before : List Message) (report : Report) : Prop where
  delivered_eq : run.journal.delivered = before ++ [.finish report]
  bytes_eq : run.context.sink.bytes = (before ++ [Message.finish report]).flatMap Message.encode
  unreported : before.filterMap Message.report? = []

section Unlimited

variable {seed : Option (List UInt8)} {stream : List UInt8}

theorem wrote_of_delivered
    (h : (strategy.run { count, seed } (initial config) stream).journal.delivered
      = account results ++ [.finish report]) :
    Wrote (strategy.run { count, seed } (initial config) stream) (account results) report := by
  obtain ⟨left, hpath⟩ := strategy.run_path { count, seed } (initial config) stream
  have hunlimited : Sink.Unlimited {} := ⟨rfl, rfl⟩
  exact ⟨h, h ▸ hpath.bytes_eq_of_unlimited hunlimited rfl, filterMap_report?_account results⟩

/-- A judge that sends what the plan asks for gets the report if the points have the width of a
score, and otherwise the complaint that they have not. -/
theorem run_of_read (hplan : plan config count = .ok tests) (htests : Runnable tests)
    (hread : results.map .ok <+: TestResult.readAll (Text.lines stream))
    (hcovers : Covers config tests (results.map (entry config)))
    (hcodes : ∀ r ∈ results, isToken r.code = true) (seed : Option (List UInt8)) :
    let points := JudgeLog.scoreSum (results.map (entry config))
    let run := strategy.run { count, seed } (initial config) stream
    (points < UInt32.size → ∃ report, run.result = .ok report ∧
        ReportsOn config tests results report ∧ Wrote run (account results) report) ∧
      (UInt32.size ≤ points → Overflowed run.result) := by
  intro points run
  obtain ⟨left, hpath⟩ := strategy.run_path { count, seed } (initial config) stream
  have hunlimited : Sink.Unlimited {} := ⟨rfl, rfl⟩
  have hkept := hpath.isLost_eq_false_of_unlimited hunlimited rfl
  have hending := strategy_ending hplan seed {} stream
  rcases hending.of_read htests hread hcovers hcodes hkept with
    ⟨s, hresult, htallied, hdelivered⟩ | ⟨hlarge, hover⟩
  · have hreports := htallied.reportsOn hcovers
    refine ⟨fun _ => ⟨reportOf s, hresult, hreports, wrote_of_delivered hdelivered⟩, ?_⟩
    exact fun hlarge => absurd hreports.scoreSum_lt (Nat.not_lt.2 hlarge)
  · exact ⟨fun hfits => absurd hlarge (Nat.not_le.2 hfits), fun _ => hover⟩

end Unlimited

/-- A judge that sends a result for each test that the plan asks for, in order, gets its report,
whatever follows on the stream, and every byte that is written is known: a request and the comments
for each of these tests, then the report. Nothing but the report is written for an empty plan. -/
theorem strategy_transcript {ls : List Text.Line} (hplanned : planned config count = some tests)
    (hrange : ∀ t ∈ tests, 1 ≤ t ∧ ∀ last, count = some last → t ≤ last)
    (hdistinct : tests.Nodup) (hcovers : Covers config tests (results.map (entry config)))
    (hspells : List.Forall₂ TestResult.Spells ls results)
    (hcodes : ∀ r ∈ results, isToken r.code = true)
    (hsum : JudgeLog.scoreSum (results.map (entry config)) < UInt32.size)
    (seed : Option (List UInt8)) (rest : List UInt8) :
    let run := strategy.run { count, seed } (initial config) (Text.unlines ls ++ rest)
    ∃ report, run.result = .ok report ∧ ReportsOn config tests results report ∧
      run.context.sink.bytes = (account results ++ [Message.finish report]).flatMap Message.encode ∧
      (tests = [] → run.context.sink.bytes = (Message.finish report).encode ∧
        report.score = 0 ∧ report.full = true) := by
  intro run
  have hplan : plan config count = .ok tests :=
    plan_eq_ok_iff.2 ⟨hplanned, fun last hlast t ht => (hrange t ht).2 last hlast⟩
  have htests : Runnable tests :=
    ⟨fun hzero => absurd (hrange 0 hzero).1 (by decide), hdistinct⟩
  have hread := TestResult.readAll_unlines_append hspells rest
  obtain ⟨report, hresult, hreports, hwrote⟩ :=
    (run_of_read hplan htests ⟨_, hread.symm⟩ hcovers hcodes seed).1 hsum
  refine ⟨report, hresult, hreports, hwrote.bytes_eq, ?_⟩
  rintro rfl
  obtain rfl : results = [] := by
    have hnone := List.prefix_nil.1 hcovers.leading
    rw [List.map_map, List.map_eq_nil_iff] at hnone
    exact hnone
  refine ⟨hwrote.bytes_eq.trans (List.append_nil _), ?_, ?_⟩
  · have hscore := hreports.score_eq
    rw [hreports.entries_eq] at hscore
    exact UInt32.toNat_inj.1 hscore
  · refine hreports.full_iff.2 ?_
    rw [hreports.entries_eq]
    exact ⟨rfl, fun e he => absurd he List.not_mem_nil⟩

/-- Two results and then nothing that could be read: the judge gets its report all the same. -/
theorem strategy_transcript_of_two_results :
    let config : Config := { tests := some [2, 1], testScore := some 50 }
    let results : List TestResult := [⟨2, "OK", 40⟩, ⟨1, "ODD", 9⟩]
    let run := strategy.run {} (initial config)
      (Text.unlines (results.map fun r => Utf8.encode r.text) ++ [255, 10])
    ∃ report, run.result = .ok report ∧ ReportsOn config [2, 1] results report ∧
      run.context.sink.bytes
        = (account results ++ [Message.finish report]).flatMap Message.encode := by
  intro config results run
  have hcovers : Covers config [2, 1] (results.map (entry config)) :=
    ⟨by decide +kernel, by decide +kernel, .inl (by decide +kernel)⟩
  have hspells : List.Forall₂ TestResult.Spells (results.map fun r => Utf8.encode r.text) results :=
    .cons (TestResult.spells_text (Text.field_of_isToken (by decide)))
      (.cons (TestResult.spells_text (Text.field_of_isToken (by decide))) .nil)
  have hplanned : planned config none = some [2, 1] := rfl
  have hpositive : ∀ t ∈ [(2 : UInt32), 1], 1 ≤ t := by simp
  obtain ⟨report, hresult, hreports, hbytes, -⟩ := strategy_transcript hplanned
    (fun t ht => ⟨hpositive t ht, by simp⟩) (by decide) hcovers hspells (by decide)
    (by decide +kernel) none [255, 10]
  refine ⟨report, hresult, hreports, ?_⟩
  simp only [run, hbytes]

/-! ## Protocol -/

/-- What a run that keeps to the protocol has said to its judge and how it has ended. No message was
refused and no test reported twice; leading tests of the plan were asked for, each once; the judge
is blamed only for a result of another test than the one awaited; and the report was sent if the run
has ended with it, and none otherwise. -/
structure Proper (tests : List UInt32) (inbound : List (Except Error TestResult)) (js : Journal)
    (result : Except Error Report) : Prop where
  allowed : ∀ m v, .sent m (.error (.protocol v)) ∉ js
  distinct : ∀ test, result ≠ .error (.duplicateTest test)
  leading : js.requests <+: tests
  once : js.requests.Nodup
  blamed : ∀ v, result = .error (.protocol v) →
    ∃ (done : List TestResult) (r : TestResult) (pending : UInt32),
      (done ++ [r]).map .ok <+: inbound ∧ js.requests = done.map (·.test) ++ [pending] ∧
      r.test ≠ pending ∧ v = .wrongResult r.test pending
  reported : js.delivered.filterMap Message.report? = result.toOption.toList

section Protocol

variable {inbound : List (Except Error TestResult)} {result : Except Error Report}

theorem allowed_of_refusal? (h : js.refusal? = none) (m : Message) (v : Violation) :
    .sent m (.error (.protocol v)) ∉ js := by
  intro hmem
  exact absurd (List.findSome?_eq_none_iff.1 h _ hmem) (by simp [Event.refused?])

/-- A run that could not be planned keeps to the protocol: it has said nothing. -/
theorem proper_of_silent {e : Error} (hcause : ∃ cause, e = .complaint cause)
    (hdelivered : js.delivered = []) (hsound : js.refusal? = none) :
    Proper tests inbound js (.error e) := by
  obtain ⟨cause, rfl⟩ := hcause
  have hrequests : js.requests = [] := by
    rw [Journal.requests, hdelivered]
    rfl
  refine ⟨allowed_of_refusal? hsound, by simp, ?_, ?_, by simp, ?_⟩
  · rw [hrequests]
    exact List.nil_prefix
  · rw [hrequests]
    exact List.nodup_nil
  · rw [hdelivered]
    rfl

/-- The judge is to blame for a result of another test; no other failure is one of the protocol. -/
theorem Failure.blame {test : UInt32} {next : Option (Except Error TestResult)} {e : Error}
    (h : Failure config results test next e) (hnew : test ∉ results.map (·.test))
    (hreadable : ∀ e, next = some (.error e) →
      (∃ text, e = .malformed text) ∨ e = .stream .notUtf8) :
    (∃ r, next = some (.ok r) ∧ r.test ≠ test ∧ e = .protocol (.wrongResult r.test test)) ∨
      (∀ v, e ≠ .protocol v) ∧ ∀ test, e ≠ .duplicateTest test := by
  cases h with
  | silent => exact .inr ⟨by simp, by simp⟩
  | unreadable =>
      rcases hreadable e rfl with ⟨text, rfl⟩ | rfl <;> exact .inr ⟨by simp, by simp⟩
  | @mismatched r htest => exact .inl ⟨r, rfl, htest, rfl⟩
  | overflowing _ _ => exact .inr ⟨by simp, by simp⟩
  | unfit _ _ => exact .inr ⟨by simp, by simp⟩
  | repeated _ hthere => exact absurd hthere hnew

/-- A run whose sink loses nothing keeps to the protocol if its plan names tests that can be run. -/
theorem Ending.proper (h : Ending config tests inbound js result) (htests : Runnable tests)
    (hreadable : ∀ e, .error e ∈ inbound → (∃ text, e = .malformed text) ∨ e = .stream .notUtf8)
    (hkept : ∀ e ∈ js, e.isLost = false) : Proper tests inbound js result := by
  cases h with
  | @reported results s hread hcovers htallied hdelivered hsound =>
      have hrequests : js.requests = results.map (·.test) := by
        rw [Journal.requests, hdelivered, List.filterMap_append, filterMap_test?_account]
        exact List.append_nil _
      have hleading : js.requests <+: tests := by
        have hentries := hcovers.leading
        rw [map_test_entry] at hentries
        exact hrequests ▸ hentries
      refine ⟨allowed_of_refusal? hsound, by simp, hleading, ?_, by simp, ?_⟩
      · exact hleading.sublist.nodup htests.2
      · rw [hdelivered, List.filterMap_append, filterMap_report?_account]
        rfl
  | @failed results test ahead e hread hplan hasked hcause hunfinished hsound =>
      obtain ⟨hleading, hreports⟩ := hunfinished
      have hnew := hplan.new htests.2
      rw [map_test_entry] at hnew
      have hblame := hcause.blame hnew fun e he => hreadable e (List.mem_of_getElem? he)
      refine ⟨allowed_of_refusal? hsound, ?_, hleading, ?_, ?_, hreports⟩
      · rintro t heq
        cases heq
        rcases hblame with ⟨r, -, -, hprotocol⟩ | ⟨-, hnone⟩
        · exact absurd hprotocol (by simp)
        · exact hnone t rfl
      · exact hleading.sublist.nodup htests.2
      · rintro v heq
        cases heq
        rcases hblame with ⟨r, hnext, hother, hprotocol⟩ | ⟨hnone, -⟩
        · cases hprotocol
          exact ⟨results, r, test, prefix_of_next hread hnext, hasked, hother, rfl⟩
        · exact absurd rfl (hnone v)
  | lost hlost _ _ =>
      obtain ⟨e, he, hlost⟩ := hlost
      exact absurd hlost (by simp [hkept e he])
  | refused hzero _ => exact absurd hzero htests.1

end Protocol

/-- With a configuration that was accepted and a sink that never fails, a run keeps to the protocol,
whatever its judge sends. What its judge can read is the report if the run has ended with it, and no
report otherwise. -/
theorem strategy_keeps_protocol {text : String} (hconfig : Config.ofText text = .ok config)
    (count : Option UInt32) (seed : Option (List UInt8)) (stream : List UInt8) :
    let run := strategy.run { count, seed } (initial config) stream
    Proper ((planned config count).getD []) (TestResult.readAll (Text.lines stream)) run.journal
        run.result ∧
      ∀ report, .ok (.finish report) ∈ Message.readAll (Text.lines run.context.sink.bytes)
        ↔ run.result = .ok report := by
  intro run
  obtain ⟨left, hpath⟩ := strategy.run_path { count, seed } (initial config) stream
  have hunlimited : Sink.Unlimited {} := ⟨rfl, rfl⟩
  have hkept := hpath.isLost_eq_false_of_unlimited hunlimited rfl
  have hproper : Proper ((planned config count).getD []) (TestResult.readAll (Text.lines stream))
      run.journal run.result := by
    cases hplan : plan config count with
    | error e =>
        obtain ⟨hresult, hdelivered, hsound⟩ := strategy_unplanned hplan seed {} stream
        exact hresult ▸ proper_of_silent (complaint_of_plan_eq_error hplan) hdelivered hsound
    | ok tests =>
        obtain ⟨hplanned, -⟩ := plan_eq_ok_iff.1 hplan
        rw [hplanned]
        exact (strategy_ending hplan seed {} stream).proper (runnable_of_planned hconfig hplanned)
          (fun e => TestResult.error_of_mem_readAll) hkept
  refine ⟨hproper, fun report => ?_⟩
  have hreport : report ∈ run.journal.delivered.filterMap Message.report?
      ↔ run.result = .ok report := by
    rw [hproper.reported]
    cases run.result <;> simp [Except.toOption, eq_comm]
  -- the judge reads the report on the wire, which is that of a message that was sent
  rw [hpath.readAll_of_unlimited hunlimited rfl, ← hreport, List.mem_map, List.mem_filterMap]
  constructor
  · rintro ⟨m, hm, hwire⟩
    refine ⟨m, hm, ?_⟩
    rw [← Message.report?_onWire, Except.ok.inj hwire]
    rfl
  · rintro ⟨m, hm, hwire⟩
    refine ⟨m, hm, ?_⟩
    cases m with
    | finish r => exact congrArg _ (congrArg _ (Option.some.inj hwire))
    | run test | comment audience text => exact absurd hwire (by simp [Message.report?])

/-- A judge that answers for another test than the one awaited is to blame. -/
theorem strategy_keeps_protocol_of_listed_tests :
    let config : Config := { tests := some [2, 1] }
    let stream := TestResult.encode ⟨1, "OK", 40⟩
    let run := strategy.run {} (initial config) stream
    Config.ofText "tests: [2, 1]" = .ok config ∧
      Proper [2, 1] (TestResult.readAll (Text.lines stream)) run.journal run.result ∧
      ∀ report, .ok (.finish report) ∈ Message.readAll (Text.lines run.context.sink.bytes)
        ↔ run.result = .ok report := by
  intro config stream run
  have hconfig : Config.ofText "tests: [2, 1]" = .ok config := by decide +kernel
  exact ⟨hconfig, strategy_keeps_protocol hconfig none none stream⟩

end Valuer.Sequential
