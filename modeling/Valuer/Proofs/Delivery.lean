import Valuer.Proofs.Failures

set_option autoImplicit false

/-! # What a strategy is told

A run calls `init`, then `begin`, then `onTestEnd` for one result after the other. The results are
the first ones of the judge's stream, none left out and none told twice, each as the judge sent it
and each of the test that was asked for last. The stream is read only to learn the result of a test
that was asked for, and then it is read as soon as the hook returns; whatever else it says there
ends the run with no hook called. -/

namespace Valuer

/-! ## The order of the hooks -/

/-- The hooks that were called when a run has come to a point. -/
def Point.Called : Point → List Hook → Prop
  | .fresh, calls => calls = []
  | .calling .init, calls => calls = []
  | .inside .init, calls => calls = [.init]
  | .prepared, calls => calls = [.init]
  | .calling .begin, calls => calls = [.init]
  | .over _, calls => calls <+: .init :: .begin :: (calls.filterMap Hook.report?).map .testEnd
  | _, calls => calls = .init :: .begin :: (calls.filterMap Hook.report?).map .testEnd

namespace Point.Called

variable {hook : Hook} {calls : List Hook}

/-- A run may end in any hook. -/
theorem ended (h : (Point.inside hook).Called calls) (result : Except Error Report) :
    (Point.over result).Called calls := by
  cases hook with
  | init =>
      obtain rfl : calls = [.init] := h
      exact List.prefix_append [Hook.init] _
  | begin | testEnd report => exact ⟨[], (List.append_nil _).trans h⟩

/-- Tests may be awaited once both preparing hooks were called. -/
theorem started (h : (Point.inside hook).Called calls) (hhook : hook ≠ .init) :
    calls = .init :: .begin :: (calls.filterMap Hook.report?).map .testEnd := by
  cases hook with
  | init => exact absurd rfl hhook
  | begin | testEnd report => exact h

theorem call (h : (Point.calling hook).Called calls) :
    (Point.inside hook).Called (calls ++ [hook]) := by
  cases hook with
  | init =>
      obtain rfl : calls = [] := h
      rfl
  | begin =>
      obtain rfl : calls = [.init] := h
      rfl
  | testEnd report =>
      have hcalls : calls = .init :: .begin :: (calls.filterMap Hook.report?).map .testEnd := h
      show calls ++ [.testEnd report] = _
      rw [Journal.filterMap_concat, List.map_append, ← List.cons_append, ← List.cons_append,
        ← hcalls]
      rfl

end Point.Called

theorem Step.called {js : Journal} {a b : Moment} {e : Event} (h : Step a e b)
    (ha : a.point.Called js.calls) : b.point.Called (js ++ [e]).calls := by
  cases hcalled : e.called? with
  | some hook =>
      cases h with
      | call =>
          rw [Journal.calls_concat]
          exact Point.Called.call ha
      | _ => exact absurd hcalled (by simp [Event.called?])
  | none =>
      rw [Journal.calls_concat_of_none js hcalled]
      cases h with
      | call => exact absurd hcalled (by simp [Event.called?])
      | abort => exact Point.Called.ended ha _
      | stop _ => exact Point.Called.ended ha _
      | stall _ _ _ _ => exact Point.Called.ended ha _
      | pause hhook _ _ _ => exact Point.Called.started ha hhook
      | settle hhook _ _ => exact Point.Called.started ha hhook
      | conclude => exact ⟨[], (List.append_nil _).trans ha⟩
      | exhaust => exact ⟨[], (List.append_nil _).trans ha⟩
      | misread => exact ⟨[], (List.append_nil _).trans ha⟩
      | mismatch _ => exact ⟨[], (List.append_nil _).trans ha⟩
      | _ => exact ha

/-! ## The results that were told -/

/-- A result that was read and that the strategy is about to be told. -/
def Moment.announced (m : Moment) : List TestReport :=
  match m.point with
  | .calling (.testEnd report) => [report]
  | _ => []

/-- The results that were told are the first ones of the stream, and what follows them is still to
be read. Of a run that is over the last thing that was read need not be told. -/
def Moment.Told (inbound : List (Except Error TestResult)) (m : Moment)
    (reports : List TestReport) : Prop :=
  ∃ results : List TestResult, reports ++ m.announced = results.map .ofResult ∧
    match m.point with
    | .over _ => results.map .ok <+: inbound
    | _ => results.map .ok ++ m.inbound = inbound

theorem Step.told {inbound : List (Except Error TestResult)} {js : Journal} {a b : Moment}
    {e : Event} (h : Step a e b) (ha : a.Told inbound js.reports) :
    b.Told inbound (js ++ [e]).reports := by
  obtain ⟨results, hreports, hinbound⟩ := ha
  cases h with
  | @call hook ctx left =>
      cases hook with
      | init | begin =>
          rw [Journal.reports_concat_of_none js rfl]
          exact ⟨results, hreports, hinbound⟩
      | testEnd report =>
          refine ⟨results, ?_, hinbound⟩
          rw [Journal.reports_concat]
          exact (List.append_nil _).trans hreports
  | @receive test ctx r rest htest =>
      -- what was read is now announced, and it was the first thing to be read
      have htold : js.reports = results.map .ofResult := (List.append_nil _).symm.trans hreports
      refine ⟨results ++ [r], ?_, ?_⟩
      · rw [Journal.reports_concat_of_none js rfl, htold, List.map_append]
        rfl
      · rw [List.map_append, List.append_assoc]
        exact hinbound
  | abort | stop _ | stall _ _ _ _ | conclude | exhaust | misread | mismatch _ =>
      rw [Journal.reports_concat_of_none js rfl]
      exact ⟨results, hreports, _, hinbound⟩
  | _ =>
      rw [Journal.reports_concat_of_none js rfl]
      exact ⟨results, hreports, hinbound⟩

/-- At every moment of a run the hooks were called in order, and told the results in order. -/
theorem Path.told {ctx : Context} {inbound : List (Except Error TestResult)} {js : Journal}
    {m : Moment} (h : Path ⟨.fresh, ctx, inbound⟩ js m) :
    m.point.Called js.calls ∧ m.Told inbound js.reports := by
  refine h.induct (motive := fun js m => m.point.Called js.calls ∧ m.Told inbound js.reports) ?_ ?_
  · exact ⟨(rfl : Journal.calls [] = []), [], rfl, rfl⟩
  · intro js b e c _ hb hstep
    exact ⟨hstep.called hb.1, hstep.told hb.2⟩

/-! ## Whole runs -/

/-- The phase in which a hook is called. -/
def Hook.phase : Hook → Phase
  | .init => .initialized
  | _ => .running

/-- What has happened when a hook is called, and what the hook can see. -/
theorem Path.before_call {ctx : Context} {inbound : List (Except Error TestResult)}
    {before after : Journal} {hook : Hook} {view : View} {last : Moment}
    (hctx : Point.fresh.Fits ctx)
    (h : Path ⟨.fresh, ctx, inbound⟩ (before ++ .entered hook view :: after) last) :
    before.Sound ∧ before.delivered.filterMap Message.report? = [] ∧
      view.phase = hook.phase ∧ view.pending = none := by
  obtain ⟨b, d, hpath, hstep, -⟩ := h.split_at
  obtain ⟨hfits, hbooks⟩ := hpath.books hctx
  have htraces := hpath.traces hctx
  cases hstep with
  | @call _ now left =>
      have hidle : now.phase = hook.phase ∧ now.Idle := by cases hook <;> exact hfits
      obtain ⟨hphase, hpending, hreport, -⟩ := hidle
      refine ⟨?_, ?_, hphase, hpending⟩
      · cases hook <;> exact htraces
      · rw [hbooks.closed.reports_eq, hreport]
        rfl

/-- A run that is over does nothing more. -/
theorem Path.eq_of_over {js : Journal} {result : Except Error Report} {ctx : Context}
    {inbound : List (Except Error TestResult)} {last : Moment}
    (h : Path ⟨.over result, ctx, inbound⟩ js last) :
    js = [] ∧ last = ⟨.over result, ctx, inbound⟩ := by
  cases h with
  | nil => exact ⟨rfl, rfl⟩
  | cons step rest => nomatch step

theorem Path.entered_of_calling {js : Journal} {hook : Hook} {ctx last : Context}
    {inbound rest : List (Except Error TestResult)} {result : Except Error Report}
    (h : Path ⟨.calling hook, ctx, inbound⟩ js ⟨.over result, last, rest⟩) :
    ∃ later, js = .entered hook ctx.view :: later := by
  cases h with
  | cons step rest =>
      cases step with
      | call => exact ⟨_, rfl⟩

/-- A run that awaits a test has told the results of all tests that were asked for but this one.
What it reads next is the first thing in the stream that was not told. -/
theorem Path.owes_of_awaiting {ctx now : Context} {inbound left : List (Except Error TestResult)}
    {js : Journal} {test : UInt32} (hctx : Point.fresh.Fits ctx)
    (h : Path ⟨.fresh, ctx, inbound⟩ js ⟨.awaiting test, now, left⟩) :
    js.requests = js.reports.map (·.test) ++ [test] ∧ left.head? = inbound[js.reports.length]? := by
  obtain ⟨hfits, hbooks⟩ := h.books hctx
  obtain ⟨-, results, hreports, hinbound⟩ := h.told
  have hpending : now.pending = some test := hfits.2.1
  have hrequests := hbooks.balance
  simp only [Moment.owed, hpending] at hrequests
  have htold : js.reports = results.map .ofResult := (List.append_nil _).symm.trans hreports
  have hread : results.map .ok ++ left = inbound := hinbound
  refine ⟨hrequests, ?_⟩
  rw [htold, List.length_map, next_of_read hread]

/-- A run that awaits a test reads at once. -/
theorem Path.heard_of_awaiting {js : Journal} {test : UInt32} {ctx last : Context}
    {inbound rest : List (Except Error TestResult)} {result : Except Error Report}
    (h : Path ⟨.awaiting test, ctx, inbound⟩ js ⟨.over result, last, rest⟩) :
    ∃ later, js = .heard inbound.head? :: later := by
  cases h with
  | cons step rest =>
      cases step with
      | exhaust | misread | mismatch _ | receive _ => exact ⟨_, rfl⟩

/-- A hook that returns without a refusal while a test is owed lets the run await that test. -/
theorem Step.awaiting_of_owed {a b : Moment} {test : UInt32} (h : Step a (.returned (.ok ())) b)
    (hfits : a.point.Fits a.context) (hviolation : a.context.violation = none)
    (howed : a.owed = [test]) : b = ⟨.awaiting test, a.context, a.inbound⟩ := by
  have hpending : a.context.pending = some test := by
    cases h <;> exact Option.toList_eq_singleton_iff.1 howed
  cases h with
  | stop hsome => exact absurd (hviolation.symm.trans hsome) (by simp)
  | ready _ => exact absurd (hfits.2.1.symm.trans hpending) (by simp)
  | pause _ _ _ hawaited =>
      obtain rfl := Option.some.inj (hawaited.symm.trans hpending)
      rfl
  | settle hhook _ hreport =>
      have hidle := ((Point.working_of_fits hfits hhook).finished hreport).2
      exact absurd (hidle.symm.trans hpending) (by simp)
  | stall _ _ _ hidle => exact absurd (hidle.symm.trans hpending) (by simp)

/-- A run reads when it has to: if a hook returns, nothing was refused and one test more was asked
for than was told, the next event is a read, and it reads the first thing that was not told. -/
theorem Path.heard_of_owed {ctx last : Context} {inbound rest : List (Except Error TestResult)}
    {before after : Journal} {test : UInt32} {result : Except Error Report}
    (hctx : Point.fresh.Fits ctx)
    (h : Path ⟨.fresh, ctx, inbound⟩ (before ++ .returned (.ok ()) :: after)
      ⟨.over result, last, rest⟩)
    (hrefusal : before.refusal? = none)
    (hrequests : before.requests = before.reports.map (·.test) ++ [test]) :
    ∃ later, after = .heard inbound[before.reports.length]? :: later := by
  obtain ⟨b, d, hpath, hstep, hrest⟩ := h.split_at
  obtain ⟨hfits, hbooks⟩ := hpath.books hctx
  have hviolation := (hstep.violation_of_returned (hpath.traces hctx)).trans hrefusal
  have howed : b.owed = [test] :=
    List.append_cancel_left (hbooks.balance.symm.trans hrequests)
  obtain rfl := hstep.awaiting_of_owed hfits hviolation howed
  have hhead := ((hpath.trans (.single hstep)).owes_of_awaiting hctx).2
  rw [Journal.reports_concat_of_none before rfl] at hhead
  obtain ⟨later, hlater⟩ := hrest.heard_of_awaiting
  exact ⟨later, hhead ▸ hlater⟩

/-- What comes of something that is read while a test is awaited: the result of that test is told
at once, and anything else is the last event of the run. -/
def Journal.Answers (after : Journal) (test : UInt32) (heard : Option (Except Error TestResult))
    (result : Except Error Report) : Prop :=
  match heard with
  | none => after = [] ∧ result = .error (.unexpectedEnd (.result test))
  | some (.error e) => after = [] ∧ result = .error e
  | some (.ok r) =>
      if r.test = test then
        ∃ (view : View) (later : Journal), after = .entered (.testEnd (.ofResult r)) view :: later
      else after = [] ∧ result = .error (.protocol (.wrongResult r.test test))

/-- What a run reads and what it does with it. -/
theorem Path.after_heard {ctx last : Context} {inbound rest : List (Except Error TestResult)}
    {before after : Journal} {heard : Option (Except Error TestResult)}
    {result : Except Error Report} (hctx : Point.fresh.Fits ctx)
    (h : Path ⟨.fresh, ctx, inbound⟩ (before ++ .heard heard :: after) ⟨.over result, last, rest⟩) :
    ∃ test, before.requests = before.reports.map (·.test) ++ [test] ∧
      heard = inbound[before.reports.length]? ∧ after.Answers test heard result := by
  obtain ⟨b, d, hpath, hstep, hrest⟩ := h.split_at
  cases hstep with
  | @exhaust test now =>
      obtain ⟨hrequests, hhead⟩ := hpath.owes_of_awaiting hctx
      obtain ⟨rfl, hlast⟩ := hrest.eq_of_over
      cases hlast
      exact ⟨test, hrequests, hhead, rfl, rfl⟩
  | @misread test now e left =>
      obtain ⟨hrequests, hhead⟩ := hpath.owes_of_awaiting hctx
      obtain ⟨rfl, hlast⟩ := hrest.eq_of_over
      cases hlast
      exact ⟨test, hrequests, hhead, rfl, rfl⟩
  | @mismatch test now r left htest =>
      obtain ⟨hrequests, hhead⟩ := hpath.owes_of_awaiting hctx
      obtain ⟨rfl, hlast⟩ := hrest.eq_of_over
      cases hlast
      refine ⟨test, hrequests, hhead, ?_⟩
      rw [Journal.Answers, if_neg htest]
      exact ⟨rfl, rfl⟩
  | @receive test now r left htest =>
      obtain ⟨hrequests, hhead⟩ := hpath.owes_of_awaiting hctx
      obtain ⟨later, hlater⟩ := hrest.entered_of_calling
      refine ⟨test, hrequests, hhead, ?_⟩
      rw [Journal.Answers, if_pos htest]
      exact ⟨_, later, hlater⟩

theorem getElem?_of_prefix {α : Type} {l m : List α} (h : l <+: m) {k : Nat} {a : α}
    (hk : l[k]? = some a) : m[k]? = some a := by
  obtain ⟨hlength, hget⟩ := List.getElem?_eq_some_iff.1 hk
  rw [List.prefix_iff_getElem?.1 h k hlength, hget]

/-- Whatever a strategy does, whatever its judge says and however its sink fails: the hooks are
called in order and only while nothing has gone wrong and the report was not sent, each in its phase
and with no test awaited. The results that the strategy is told are the first ones of the judge's
stream, field by field, each of the test that was asked for at its place; what was asked for is what
stands first on the wire, if the sink fails only for want of room. The stream is read only when one
test more was asked for than was told, and anything but the result of that test ends the run; when a
hook returns with such a test and with nothing refused, the stream is read at once. -/
theorem Strategy.run_tells_faithfully {σ : Type} (S : Strategy σ) (count : Option UInt32)
    (seed : Option (List UInt8)) (sink : Sink) (s : σ) (stream : List UInt8) :
    let run := S.run { count, seed, sink } s stream
    let inbound := TestResult.readAll (Text.lines stream)
    run.journal.calls <+: .init :: .begin :: run.journal.reports.map .testEnd ∧
      (∀ (before : Journal) (hook : Hook) (view : View) (after : Journal),
        run.journal = before ++ .entered hook view :: after →
        (∀ e, .returned (.error e) ∉ before) ∧ before.refusal? = none ∧
          before.delivered.filterMap Message.report? = [] ∧
          view.phase = hook.phase ∧ view.pending = none) ∧
      (∀ (k : Nat) (report : TestReport), run.journal.reports[k]? = some report →
        ∃ result : TestResult, inbound[k]? = some (.ok result) ∧ report.test = result.test ∧
          report.code = result.code ∧ report.score = result.score ∧
          report.verdict = Verdict.ofCode result.code ∧
          run.journal.requests[k]? = some report.test) ∧
      (∀ room, sink = { room } →
        run.journal.delivered.map (fun m => .ok m.onWire)
          <+: Message.readAll (Text.lines run.context.sink.bytes)) ∧
      (∀ (before : Journal) (heard : Option (Except Error TestResult)) (after : Journal),
        run.journal = before ++ .heard heard :: after →
        ∃ test, before.requests = before.reports.map (·.test) ++ [test] ∧
          heard = inbound[before.reports.length]? ∧ after.Answers test heard run.result) ∧
      ∀ (before after : Journal) (test : UInt32),
        run.journal = before ++ .returned (.ok ()) :: after → before.refusal? = none →
        before.requests = before.reports.map (·.test) ++ [test] →
        ∃ later, after = .heard inbound[before.reports.length]? :: later := by
  intro run inbound
  have hfresh := Point.fits_fresh count seed sink
  obtain ⟨rest, hpath⟩ := S.run_path { count, seed, sink } s stream
  obtain ⟨hcalled, results, hreports, hinbound⟩ := hpath.told
  refine ⟨hcalled, ?_, ?_, ?_, ?_, ?_⟩
  · intro before hook view after hjournal
    obtain ⟨hsound, hreport, hview⟩ := Path.before_call hfresh (hjournal ▸ hpath)
    refine ⟨?_, hsound.refusal?_eq_none, hreport, hview⟩
    intro e hmem
    exact absurd (hsound _ hmem) (by simp [Event.isFault])
  · intro k report hk
    have htold : run.journal.reports = results.map .ofResult :=
      (List.append_nil _).symm.trans hreports
    have hresult := hk
    rw [htold, List.getElem?_map, Option.map_eq_some_iff] at hresult
    obtain ⟨result, hresult, rfl⟩ := hresult
    refine ⟨result, ?_, rfl, rfl, rfl, rfl, ?_⟩
    · refine getElem?_of_prefix hinbound ?_
      rw [List.getElem?_map, hresult]
      rfl
    · -- the results that were told are those of the first tests that were asked for
      have hasked : run.journal.reports.map (·.test) <+: run.journal.requests :=
        ⟨_, (hpath.books hfresh).2.balance.symm⟩
      refine getElem?_of_prefix hasked ?_
      rw [List.getElem?_map, hk]
      rfl
  · rintro room rfl
    have hsteady : ({ room } : Sink).Steady := rfl
    have hempty : ({ room } : Sink).bytes = [] := rfl
    have hread := hpath.delivered_prefix_readAll hsteady hempty
    exact hread
  · intro before heard after hjournal
    exact Path.after_heard hfresh (hjournal ▸ hpath)
  · intro before after test hjournal hrefusal hrequests
    exact Path.heard_of_owed hfresh (hjournal ▸ hpath) hrefusal hrequests

end Valuer
