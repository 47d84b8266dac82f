import Valuer.Proofs.Course
import Valuer.Proofs.JournalViews

set_option autoImplicit false

/-! # The books of a run

What a run remembers agrees with what it did. At each point the context is in the state that the
point needs (`Point.Fits`), and the messages that were sent, the results that were told and the test
that is awaited balance (`Books`): every test that was asked for is either reported or the one
awaited, and a report is sent at most once, with nothing but comments after it. -/

namespace Valuer

/-! ## What may be sent -/

namespace Context

variable {ctx : Context}

theorem runObjection?_eq_none {test : UInt32} (h : ctx.runObjection? test = none) :
    ctx.phase = .running ∧ ctx.pending = none ∧ test ≠ 0 ∧
      ∀ count, ctx.count = some count → test ≤ count := by
  unfold runObjection? at h
  split at h
  · exact absurd h (by simp)
  · next hphase =>
      split at h
      · exact absurd h (by simp)
      · next hpending =>
          split at h
          · exact absurd h (by simp)
          · next hzero =>
              refine ⟨Decidable.not_not.1 hphase, hpending, hzero, ?_⟩
              intro count hcount
              rw [hcount] at h
              simp only at h
              split at h
              · exact absurd h (by simp)
              · next hbeyond => exact UInt32.not_lt.1 hbeyond

theorem finishObjection?_eq_none (h : ctx.finishObjection? = none) :
    ctx.phase = .running ∧ ctx.pending = none := by
  unfold finishObjection? at h
  split at h
  · exact absurd h (by simp)
  · next hphase => exact ⟨Decidable.not_not.1 hphase, Option.map_eq_none_iff.1 h⟩

/-- No test is awaited, no report was sent and nothing was refused. -/
def Idle (ctx : Context) : Prop :=
  ctx.pending = none ∧ ctx.report = none ∧ ctx.violation = none

/-- Tests may be asked for, or else the report was sent and no test is awaited. -/
def Working (ctx : Context) : Prop :=
  (ctx.phase = .running ∧ ctx.report = none) ∨
    (ctx.phase = .finished ∧ ctx.report ≠ none ∧ ctx.pending = none)

/-- The report was sent in a hook that refused nothing. -/
def Finished (ctx : Context) (report : Report) : Prop :=
  ctx.phase = .finished ∧ ctx.report = some report ∧ ctx.pending = none ∧ ctx.violation = none

end Context

/-- What the context is like at a point. -/
def Point.Fits : Point → Context → Prop
  | .fresh, ctx => ctx.phase = .notStarted ∧ ctx.Idle
  | .calling .init, ctx => ctx.phase = .initialized ∧ ctx.Idle
  | .calling _, ctx => ctx.phase = .running ∧ ctx.Idle
  | .inside .init, ctx => ctx.phase = .initialized ∧ ctx.pending = none ∧ ctx.report = none
  | .inside _, ctx => ctx.Working
  | .prepared, ctx => ctx.phase = .initialized ∧ ctx.Idle
  | .awaiting test, ctx =>
      ctx.phase = .running ∧ ctx.pending = some test ∧ ctx.report = none ∧ ctx.violation = none
  | .concluding report, ctx => ctx.Finished report
  | .over (.ok report), ctx => ctx.Finished report
  | .over (.error _), _ => True

theorem Point.fits_fresh (count : Option UInt32) (seed : Option (List UInt8)) (sink : Sink) :
    Point.fresh.Fits { count, seed, sink } :=
  ⟨rfl, rfl, rfl, rfl⟩

theorem Point.fits_refuse {hook : Hook} {ctx : Context} (h : (Point.inside hook).Fits ctx)
    (v : Violation) : (Point.inside hook).Fits (ctx.refuse v) := by
  cases hook <;> exact h

/-- A message that was allowed leaves the context fit for the rest of the hook. -/
theorem Point.fits_accept {hook : Hook} {ctx : Context} (h : (Point.inside hook).Fits ctx)
    {m : Message} (hobjection : ctx.objection? m = none) (sink : Sink) :
    (Point.inside hook).Fits (Context.accept { ctx with sink } m) := by
  cases m with
  | comment audience text => cases hook <;> exact h
  | run test =>
      obtain ⟨hphase, hpending, -, -⟩ := Context.runObjection?_eq_none hobjection
      cases hook with
      -- nothing but comments is allowed while the strategy prepares itself
      | init => exact absurd (h.1.symm.trans hphase) (by decide)
      | begin | testEnd report =>
          rcases h with ⟨-, hreport⟩ | ⟨hfinished, -⟩
          · exact .inl ⟨hphase, hreport⟩
          · exact absurd (hfinished.symm.trans hphase) (by decide)
  | finish report =>
      obtain ⟨hphase, hpending⟩ := Context.finishObjection?_eq_none hobjection
      cases hook with
      | init => exact absurd (h.1.symm.trans hphase) (by decide)
      | begin | testEnd result => exact .inr ⟨rfl, by simp [Context.accept], hpending⟩

theorem Context.Working.running {ctx : Context} (h : ctx.Working) (hreport : ctx.report = none) :
    ctx.phase = .running := by
  rcases h with ⟨hphase, -⟩ | ⟨-, hsome, -⟩
  · exact hphase
  · exact absurd hreport hsome

theorem Context.Working.finished {ctx : Context} (h : ctx.Working) {report : Report}
    (hreport : ctx.report = some report) : ctx.phase = .finished ∧ ctx.pending = none := by
  rcases h with ⟨-, hnone⟩ | ⟨hphase, -, hpending⟩
  · exact absurd (hnone.symm.trans hreport) (by simp)
  · exact ⟨hphase, hpending⟩

theorem Point.working_of_fits {hook : Hook} {ctx : Context} (h : (Point.inside hook).Fits ctx)
    (hhook : hook ≠ .init) : ctx.Working := by
  cases hook with
  | init => exact absurd rfl hhook
  | begin | testEnd report => exact h

theorem Point.report_eq_none {hook : Hook} {ctx : Context} (h : (Point.inside hook).Fits ctx)
    (hphase : ctx.phase = .running) : ctx.report = none := by
  cases hook with
  | init => exact h.2.2
  | begin | testEnd report =>
      rcases h with ⟨-, hreport⟩ | ⟨hfinished, -⟩
      · exact hreport
      · exact absurd (hfinished.symm.trans hphase) (by decide)

/-- Every step leads from a fitting context to a fitting context. -/
theorem Step.fits {a b : Moment} {e : Event} (h : Step a e b) (ha : a.point.Fits a.context) :
    b.point.Fits b.context := by
  cases h with
  | prepare => exact ⟨rfl, ha.2⟩
  | begin => exact ⟨rfl, ha.2⟩
  | @call hook =>
      cases hook with
      | init => exact ⟨ha.1, ha.2.1, ha.2.2.1⟩
      | begin | testEnd report => exact .inl ⟨ha.1, ha.2.2.1⟩
  | look => exact ha
  | note record => exact ha
  | refuse _ => exact Point.fits_refuse ha _
  | deliver hobjection _ => exact Point.fits_accept ha hobjection _
  | @lose hook => cases hook <;> exact ha
  | abort => trivial
  | stop _ => trivial
  | ready hviolation => exact ⟨ha.1, ha.2.1, ha.2.2, hviolation⟩
  | pause hhook hviolation hreport hpending =>
      have hphase := (Point.working_of_fits ha hhook).running hreport
      exact ⟨hphase, hpending, hreport, hviolation⟩
  | settle hhook hviolation hreport =>
      obtain ⟨hphase, hpending⟩ := (Point.working_of_fits ha hhook).finished hreport
      exact ⟨hphase, hreport, hpending, hviolation⟩
  | stall => trivial
  | conclude => exact ha
  | exhaust => trivial
  | misread => trivial
  | mismatch _ => trivial
  | receive _ => exact ⟨ha.1, rfl, ha.2.2.1, ha.2.2.2⟩

/-! ## The balance of requests and results -/

/-- The tests that were asked for and not told yet. -/
def Moment.owed (m : Moment) : List UInt32 :=
  match m.point with
  | .calling (.testEnd report) => [report.test]
  | _ => m.context.pending.toList

/-- Messages of which the last that is no comment is the given report, and no other is a report. -/
def ClosedBy : Option Report → List Message → Prop
  | none, ms => ms.filterMap Message.report? = []
  | some report, ms => ∃ before after, ms = before ++ .finish report :: after ∧
      before.filterMap Message.report? = [] ∧ ∀ m ∈ after, m.isComment = true

/-- How the journal of a run and the moment it has come to agree. -/
structure Books (count : Option UInt32) (js : Journal) (m : Moment) : Prop where
  count_eq : m.context.count = count
  balance : js.requests = js.reports.map (·.test) ++ m.owed
  in_range : ∀ test ∈ js.requests, test ≠ 0 ∧ ∀ c, count = some c → test ≤ c
  closed : ClosedBy m.context.report js.delivered

theorem ClosedBy.comment {report : Option Report} {ms : List Message} (h : ClosedBy report ms)
    (audience : Audience) (text : String) : ClosedBy report (ms ++ [.comment audience text]) := by
  cases report with
  | none =>
      rw [ClosedBy, List.filterMap_append, h]
      rfl
  | some report =>
      obtain ⟨before, after, rfl, hbefore, hafter⟩ := h
      refine ⟨before, after ++ [.comment audience text], ?_, hbefore, ?_⟩
      · rw [List.append_assoc, List.cons_append]
      · intro m hm
        rcases List.mem_append.1 hm with hm | hm
        · exact hafter m hm
        · rw [List.mem_singleton.1 hm]
          rfl

theorem filterMap_report?_of_comments {ms : List Message} (h : ∀ m ∈ ms, m.isComment = true) :
    ms.filterMap Message.report? = [] :=
  Message.filterMap_of_comments (fun _ _ => rfl) h

/-- Closed messages hold the report that closes them and no other. -/
theorem ClosedBy.reports_eq {report : Option Report} {ms : List Message} (h : ClosedBy report ms) :
    ms.filterMap Message.report? = report.toList := by
  cases report with
  | none => exact h
  | some report =>
      obtain ⟨before, after, rfl, hbefore, hafter⟩ := h
      rw [List.filterMap_append, hbefore, List.filterMap_cons, filterMap_report?_of_comments hafter]
      rfl

/-- After a report that closes messages there are comments alone. -/
theorem ClosedBy.comments_after {report last : Report} {ms before after : List Message}
    (h : ClosedBy (some report) ms) (hms : ms = before ++ .finish last :: after) :
    ∀ m ∈ after, m.isComment = true := by
  obtain ⟨before', after', hsplit, hbefore, hafter⟩ := h
  rw [hms] at hsplit
  rcases List.append_eq_append_iff.1 hsplit with ⟨mid, rfl, hmid⟩ | ⟨mid, rfl, hmid⟩
  · cases mid with
    | nil =>
        have htail := (List.cons.inj hmid).2
        rw [htail]
        exact hafter
    | cons m mid =>
        -- the given report would stand before the one that closes
        obtain ⟨rfl, -⟩ := List.cons.inj hmid
        rw [List.filterMap_append, List.filterMap_cons] at hbefore
        exact absurd hbefore (by simp [Message.report?])
  · cases mid with
    | nil =>
        have htail := (List.cons.inj hmid).2
        rw [← htail]
        exact hafter
    | cons m mid =>
        obtain ⟨rfl, htail⟩ := List.cons.inj hmid
        intro c hc
        exact hafter c (by rw [htail]; exact List.mem_append_right _ (List.mem_cons_of_mem _ hc))

namespace Books

variable {count : Option UInt32} {js : Journal} {a b : Moment} {e : Event}

/-- An event that sends nothing, tells no result and leaves what is owed keeps the balance. -/
theorem quiet (h : Books count js a) (hdelivered : e.delivered? = none)
    (hcalled : e.called?.bind Hook.report? = none) (hcount : b.context.count = a.context.count)
    (hreport : b.context.report = a.context.report) (howed : b.owed = a.owed) :
    Books count (js ++ [e]) b := by
  have hrequests : (js ++ [e]).requests = js.requests := by
    rw [Journal.requests_concat, hdelivered, Option.bind_none, Option.toList_none, List.append_nil]
  refine ⟨hcount.trans h.count_eq, ?_, ?_, ?_⟩
  · rw [hrequests, howed, Journal.reports_concat_of_none js hcalled]
    exact h.balance
  · rw [hrequests]
    exact h.in_range
  · rw [hreport, Journal.delivered_concat, hdelivered, Option.toList_none, List.append_nil]
    exact h.closed

end Books

/-- A message that was allowed and sent keeps the balance. -/
theorem Books.deliver {count : Option UInt32} {js : Journal} {hook : Hook} {ctx : Context}
    {inbound : List (Except Error TestResult)} (h : Books count js ⟨.inside hook, ctx, inbound⟩)
    (hfits : (Point.inside hook).Fits ctx) {m : Message} (hobjection : ctx.objection? m = none)
    (sink : Sink) :
    Books count (js ++ [Event.sent m (.ok ())])
      ⟨.inside hook, Context.accept { ctx with sink } m, inbound⟩ := by
  obtain ⟨hcount, hbalance, hrange, hclosed⟩ := h
  have hdelivered : (js ++ [Event.sent m (.ok ())]).delivered = js.delivered ++ [m] :=
    Journal.delivered_concat ..
  have hrequests : (js ++ [Event.sent m (.ok ())]).requests = js.requests ++ m.test?.toList :=
    Journal.requests_concat ..
  have hreports : (js ++ [Event.sent m (.ok ())]).reports = js.reports :=
    Journal.reports_concat_of_none js rfl
  cases m with
  | comment audience text =>
      have hsame : (js ++ [Event.sent (.comment audience text) (.ok ())]).requests = js.requests :=
        hrequests.trans (List.append_nil _)
      refine ⟨hcount, ?_, ?_, ?_⟩
      · rw [hsame, hreports]
        exact hbalance
      · rw [hsame]
        exact hrange
      · rw [hdelivered]
        exact hclosed.comment audience text
  | run test =>
      obtain ⟨hphase, hpending, hzero, hbound⟩ := Context.runObjection?_eq_none hobjection
      have hreport : ctx.report = none := Point.report_eq_none hfits hphase
      refine ⟨hcount, ?_, ?_, ?_⟩
      · simp only [Moment.owed, hpending, Option.toList_none, List.append_nil] at hbalance
        rw [hrequests, hreports, hbalance]
        rfl
      · rw [hrequests]
        intro t ht
        rcases List.mem_append.1 ht with ht | ht
        · exact hrange t ht
        · rw [List.mem_singleton.1 ht]
          exact ⟨hzero, fun c hc => hbound c (hcount.trans hc)⟩
      · simp only [hreport] at hclosed
        simp only [hdelivered, Context.accept, hreport, ClosedBy, List.filterMap_append]
        rw [hclosed]
        rfl
  | finish report =>
      obtain ⟨hphase, hpending⟩ := Context.finishObjection?_eq_none hobjection
      have hreport : ctx.report = none := Point.report_eq_none hfits hphase
      have hsame : (js ++ [Event.sent (.finish report) (.ok ())]).requests = js.requests :=
        hrequests.trans (List.append_nil _)
      refine ⟨hcount, ?_, ?_, ?_⟩
      · rw [hsame, hreports]
        exact hbalance
      · rw [hsame]
        exact hrange
      · simp only [hreport] at hclosed
        exact ⟨js.delivered, [], hdelivered, hclosed, by simp⟩

/-- Every step keeps the balance. -/
theorem Step.books {count : Option UInt32} {js : Journal} {a b : Moment} {e : Event}
    (h : Step a e b) (hfits : a.point.Fits a.context) (hbooks : Books count js a) :
    Books count (js ++ [e]) b := by
  cases h with
  | @call hook ctx inbound =>
      cases hook with
      | init | begin => exact hbooks.quiet rfl rfl rfl rfl rfl
      | testEnd report =>
          -- what was owed to the strategy has been told to it
          obtain ⟨hcount, hbalance, hrange, hclosed⟩ := hbooks
          have hpending : ctx.pending = none := hfits.2.1
          have hrequests : (js ++ [Event.entered (.testEnd report) ctx.view]).requests
              = js.requests := by
            rw [Journal.requests_concat]
            exact List.append_nil _
          have hreports : (js ++ [Event.entered (.testEnd report) ctx.view]).reports
              = js.reports ++ [report] := Journal.reports_concat ..
          refine ⟨hcount, ?_, ?_, ?_⟩
          · rw [hrequests, hreports, hbalance, List.map_append]
            simp only [Moment.owed, hpending, Option.toList_none, List.append_nil]
            rfl
          · rw [hrequests]
            exact hrange
          · rw [Journal.delivered_concat]
            exact (List.append_nil js.delivered).symm ▸ hclosed
  | deliver hobjection hwrite => exact hbooks.deliver hfits hobjection _
  | @receive test ctx r rest htest =>
      have hpending : ctx.pending = some test := hfits.2.1
      refine hbooks.quiet rfl rfl rfl rfl ?_
      -- the test that was awaited is the one that the hook is about to be told
      simp only [Moment.owed, hpending, TestReport.ofResult, htest]
      rfl
  | _ => exact hbooks.quiet rfl rfl rfl rfl rfl

/-- From a fresh context, the context fits and the books balance at every moment of a run. -/
theorem Path.books {ctx : Context} {inbound : List (Except Error TestResult)} {js : Journal}
    {m : Moment} (hctx : Point.fresh.Fits ctx) (h : Path ⟨.fresh, ctx, inbound⟩ js m) :
    m.point.Fits m.context ∧ Books ctx.count js m := by
  have hstart : Books ctx.count [] ⟨.fresh, ctx, inbound⟩ := by
    obtain ⟨-, hpending, hreport, -⟩ := hctx
    refine ⟨rfl, ?_, by simp [Journal.requests, Journal.delivered], ?_⟩
    · simp only [Moment.owed, hpending]
      rfl
    · simp only [hreport]
      rfl
  refine h.induct (motive := fun js m => m.point.Fits m.context ∧ Books ctx.count js m)
    ⟨hctx, hstart⟩ ?_
  intro js b e c _ hb hstep
  exact ⟨hstep.fits hb.1, hstep.books hb.1 hb.2⟩

end Valuer
