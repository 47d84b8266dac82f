import Valuer.Proofs.SinkWrites
import Valuer.Session

set_option autoImplicit false

/-! # The course of a run

What can happen next at each point of a run, whatever the strategy does. `Step` says it once: a
moment is where the run stands, its context, and what the judge has still to say, and each event
leads from one moment to the next. A journal is then a path of steps, and `play_path` says that
every run is one. What holds of every path from the start of a run is proved by going along it
(`Path.induct`), one step at a time, and never by opening a session again. -/

namespace Valuer

/-- Where a run stands between two events. -/
inductive Point where
  | fresh
  /-- The hook is about to be called. -/
  | calling (hook : Hook)
  | inside (hook : Hook)
  /-- The strategy has prepared itself. -/
  | prepared
  | awaiting (test : UInt32)
  /-- The report was sent and its hook has returned. -/
  | concluding (report : Report)
  | over (result : Except Error Report)

structure Moment where
  point : Point
  context : Context
  /-- What the judge has still to say. -/
  inbound : List (Except Error TestResult)

/-! ## Steps -/

/-- One event of a run. What a strategy does in a hook is free; how it goes is not. -/
inductive Step : Moment → Event → Moment → Prop where
  | prepare {ctx inbound} :
      Step ⟨.fresh, ctx, inbound⟩ (.moved ctx.phase .initialized)
        ⟨.calling .init, ctx.enter .initialized, inbound⟩
  | begin {ctx inbound} :
      Step ⟨.prepared, ctx, inbound⟩ (.moved ctx.phase .running)
        ⟨.calling .begin, ctx.enter .running, inbound⟩
  | call {hook ctx inbound} :
      Step ⟨.calling hook, ctx, inbound⟩ (.entered hook ctx.view) ⟨.inside hook, ctx, inbound⟩
  | look {hook ctx inbound} :
      Step ⟨.inside hook, ctx, inbound⟩ (.looked ctx.view) ⟨.inside hook, ctx, inbound⟩
  | note {hook ctx inbound} (record : Record) :
      Step ⟨.inside hook, ctx, inbound⟩ (.noted record) ⟨.inside hook, ctx, inbound⟩
  | refuse {hook ctx inbound m v} (hobjection : ctx.objection? m = some v) :
      Step ⟨.inside hook, ctx, inbound⟩ (.sent m (.error (.protocol v)))
        ⟨.inside hook, ctx.refuse v, inbound⟩
  | deliver {hook ctx inbound m sink} (hobjection : ctx.objection? m = none)
      (hwrite : ctx.sink.write m.encode = (sink, .ok ())) :
      Step ⟨.inside hook, ctx, inbound⟩ (.sent m (.ok ()))
        ⟨.inside hook, Context.accept { ctx with sink } m, inbound⟩
  | lose {hook ctx inbound m sink fault} (hobjection : ctx.objection? m = none)
      (hwrite : ctx.sink.write m.encode = (sink, .error (.stream fault))) :
      Step ⟨.inside hook, ctx, inbound⟩ (.sent m (.error (.stream fault)))
        ⟨.inside hook, { ctx with sink }, inbound⟩
  | abort {hook ctx inbound e} :
      Step ⟨.inside hook, ctx, inbound⟩ (.returned (.error e)) ⟨.over (.error e), ctx, inbound⟩
  | stop {hook ctx inbound v} (hviolation : ctx.violation = some v) :
      Step ⟨.inside hook, ctx, inbound⟩ (.returned (.ok ()))
        ⟨.over (.error (.protocol v)), ctx, inbound⟩
  | ready {ctx inbound} (hviolation : ctx.violation = none) :
      Step ⟨.inside .init, ctx, inbound⟩ (.returned (.ok ())) ⟨.prepared, ctx, inbound⟩
  | pause {hook ctx inbound test} (hhook : hook ≠ .init) (hviolation : ctx.violation = none)
      (hreport : ctx.report = none) (hpending : ctx.pending = some test) :
      Step ⟨.inside hook, ctx, inbound⟩ (.returned (.ok ())) ⟨.awaiting test, ctx, inbound⟩
  | settle {hook ctx inbound report} (hhook : hook ≠ .init) (hviolation : ctx.violation = none)
      (hreport : ctx.report = some report) :
      Step ⟨.inside hook, ctx, inbound⟩ (.returned (.ok ())) ⟨.concluding report, ctx, inbound⟩
  | stall {hook ctx inbound} (hhook : hook ≠ .init) (hviolation : ctx.violation = none)
      (hreport : ctx.report = none) (hpending : ctx.pending = none) :
      Step ⟨.inside hook, ctx, inbound⟩ (.returned (.ok ()))
        ⟨.over (.error (.protocol .stalled)), ctx, inbound⟩
  | conclude {report ctx inbound} :
      Step ⟨.concluding report, ctx, inbound⟩ (.concluded report) ⟨.over (.ok report), ctx, inbound⟩
  | exhaust {test ctx} :
      Step ⟨.awaiting test, ctx, []⟩ (.heard none)
        ⟨.over (.error (.unexpectedEnd (.result test))), ctx, []⟩
  | misread {test ctx e rest} :
      Step ⟨.awaiting test, ctx, .error e :: rest⟩ (.heard (some (.error e)))
        ⟨.over (.error e), ctx, rest⟩
  | mismatch {test ctx r rest} (htest : r.test ≠ test) :
      Step ⟨.awaiting test, ctx, .ok r :: rest⟩ (.heard (some (.ok r)))
        ⟨.over (.error (.protocol (.wrongResult r.test test))), ctx, rest⟩
  | receive {test ctx r rest} (htest : r.test = test) :
      Step ⟨.awaiting test, ctx, .ok r :: rest⟩ (.heard (some (.ok r)))
        ⟨.calling (.testEnd (.ofResult r)), { ctx with pending := none }, rest⟩

/-- Events in a row. -/
inductive Path : Moment → Journal → Moment → Prop where
  | nil (a : Moment) : Path a [] a
  | cons {a b c : Moment} {e : Event} {js : Journal} (step : Step a e b) (rest : Path b js c) :
      Path a (e :: js) c

namespace Path

variable {a b c : Moment} {js ks : Journal} {e : Event}

theorem single (h : Step a e b) : Path a [e] b :=
  .cons h (.nil b)

theorem trans (h : Path a js b) (k : Path b ks c) : Path a (js ++ ks) c := by
  induction h with
  | nil => exact k
  | cons step rest ih => exact .cons step (ih k)

theorem split (h : Path a (js ++ ks) c) : ∃ b, Path a js b ∧ Path b ks c := by
  induction js generalizing a with
  | nil => exact ⟨a, .nil a, h⟩
  | cons e js ih =>
      cases h with
      | cons step rest =>
          obtain ⟨b, hjs, hks⟩ := ih rest
          exact ⟨b, .cons step hjs, hks⟩

/-- Every event on a path is a step of it. -/
theorem split_at (h : Path a (js ++ e :: ks) c) :
    ∃ b d, Path a js b ∧ Step b e d ∧ Path d ks c := by
  obtain ⟨b, hjs, hrest⟩ := h.split
  cases hrest with
  | cons step hks => exact ⟨b, _, hjs, step, hks⟩

/-- What holds at the start and is kept by every step holds along every path. The path so far is
at hand in each step. -/
theorem induct {motive : Journal → Moment → Prop} (hnil : motive [] a)
    (hstep : ∀ {js b e c}, Path a js b → motive js b → Step b e c → motive (js ++ [e]) c)
    (h : Path a js b) : motive js b := by
  have hall : ∀ {b js c}, Path b js c → ∀ {sofar}, Path a sofar b → motive sofar b →
      motive (sofar ++ js) c := by
    intro b js c h
    induction h with
    | nil => intro sofar _ hmotive; rw [List.append_nil]; exact hmotive
    | cons step rest ih =>
        intro sofar hpath hmotive
        have hnext := ih (hpath.trans (single step)) (hstep hpath hmotive step)
        rw [List.append_assoc] at hnext
        exact hnext
  exact hall h (.nil a) hnil

end Path

/-! ## Every session takes such steps -/

namespace Context

variable {ctx : Context} {m : Message}

theorem send_of_refused {v : Violation} (h : ctx.objection? m = some v) :
    ctx.send m = (ctx.refuse v, .error (.protocol v)) := by
  rw [send, h]

/-- A message that is allowed is written or lost; if it is lost, nothing but the sink changes. -/
theorem send_of_allowed (h : ctx.objection? m = none) :
    (∃ sink, ctx.sink.write m.encode = (sink, .ok ()) ∧
        ctx.send m = ({ ctx with sink }.accept m, .ok ())) ∨
      ∃ sink fault, ctx.sink.write m.encode = (sink, .error (.stream fault)) ∧
        ctx.send m = ({ ctx with sink }, .error (.stream fault)) := by
  simp only [send, h, deliver]
  rcases hwrite : ctx.sink.write m.encode with ⟨sink, _ | _⟩
  · obtain ⟨fault, rfl⟩ := Sink.stream_of_write_error hwrite
    exact .inr ⟨sink, fault, rfl, rfl⟩
  · exact .inl ⟨sink, rfl, rfl⟩

variable (ctx m) in
/-- A message is refused, written or lost. -/
theorem send_cases :
    (∃ v, ctx.objection? m = some v ∧ ctx.send m = (ctx.refuse v, .error (.protocol v))) ∨
      (∃ sink, ctx.objection? m = none ∧ ctx.sink.write m.encode = (sink, .ok ()) ∧
        ctx.send m = ({ ctx with sink }.accept m, .ok ())) ∨
      ∃ sink fault, ctx.objection? m = none ∧
        ctx.sink.write m.encode = (sink, .error (.stream fault)) ∧
        ctx.send m = ({ ctx with sink }, .error (.stream fault)) := by
  cases hobjection : ctx.objection? m with
  | some v => exact .inl ⟨v, rfl, send_of_refused hobjection⟩
  | none =>
      rcases send_of_allowed hobjection with hwritten | hlost
      · obtain ⟨sink, hwrite, hsend⟩ := hwritten
        exact .inr (.inl ⟨sink, rfl, hwrite, hsend⟩)
      · obtain ⟨sink, fault, hwrite, hsend⟩ := hlost
        exact .inr (.inr ⟨sink, fault, rfl, hwrite, hsend⟩)

/-- Sending a message fails by a refusal or by the sink. -/
theorem send_ne_complaint (ctx : Context) (m : Message) (complaint : Complaint) :
    (ctx.send m).2 ≠ .error (.complaint complaint) := by
  rcases ctx.send_cases m with ⟨v, -, hsend⟩ | ⟨sink, -, -, hsend⟩ |
    ⟨sink, fault, -, -, hsend⟩ <;> simp [hsend]

end Context

theorem Step.send {hook : Hook} {ctx : Context} {inbound : List (Except Error TestResult)}
    (m : Message) :
    Step ⟨.inside hook, ctx, inbound⟩ (.sent m (ctx.send m).2)
      ⟨.inside hook, (ctx.send m).1, inbound⟩ := by
  rcases ctx.send_cases m with ⟨v, hobjection, hsend⟩ | ⟨sink, hobjection, hwrite, hsend⟩ |
    ⟨sink, fault, hobjection, hwrite, hsend⟩ <;> rw [hsend]
  · exact .refuse hobjection
  · exact .deliver hobjection hwrite
  · exact .lose hobjection hwrite

theorem Dialogue.conduct_path {α : Type} (d : Dialogue α) (hook : Hook) (ctx : Context)
    (inbound : List (Except Error TestResult)) :
    Path ⟨.inside hook, ctx, inbound⟩ (d.conduct ctx).events
      ⟨.inside hook, (d.conduct ctx).context, inbound⟩ := by
  induction d generalizing ctx with
  | done a => exact .nil _
  | look next ih => exact .cons .look (ih ctx.view ctx)
  | send m next ih => exact .cons (.send m) (ih (ctx.send m).2 (ctx.send m).1)
  | note record next ih => exact .cons (.note record) (ih ctx)

theorem Context.judge_eq_ok {ctx : Context} {outcome : Except Error Unit}
    (h : ctx.judge outcome = .ok ()) : outcome = .ok () ∧ ctx.violation = none := by
  unfold Context.judge at h
  split at h
  · exact absurd h (by simp)
  · exact absurd h (by simp)
  · next hviolation => exact ⟨rfl, hviolation⟩

/-- A complaint that ends a run is the strategy's own. -/
theorem Context.judge_eq_complaint {ctx : Context} {outcome : Except Error Unit}
    {complaint : Complaint} (h : ctx.judge outcome = .error (.complaint complaint)) :
    outcome = .error (.complaint complaint) := by
  unfold Context.judge at h
  split at h
  · exact h
  · exact absurd h (by simp)
  · exact absurd h (by simp)

/-- A hook that does not go well ends the run: by its own error, or else by the first refusal. -/
theorem Step.leave {hook : Hook} {ctx : Context} {inbound : List (Except Error TestResult)}
    {outcome : Except Error Unit} {e : Error} (h : ctx.judge outcome = .error e) :
    Step ⟨.inside hook, ctx, inbound⟩ (.returned outcome) ⟨.over (.error e), ctx, inbound⟩ := by
  unfold Context.judge at h
  split at h
  · cases h
    exact .abort
  · next v hviolation =>
      cases h
      exact .stop hviolation
  · exact absurd h (by simp)

/-- Where a session stands, as a point of its course. -/
def Status.point : Status → Point
  | .awaiting test => .awaiting test
  | .ended result => .over result

namespace Session

variable {σ : Type}

/-- Where a session stands, as a moment of its course. -/
def moment (session : Session σ) (inbound : List (Except Error TestResult)) : Moment :=
  ⟨session.status.point, session.context, inbound⟩

/-- A hook is called and carried out. -/
theorem entered_path (S : Strategy σ) (hook : Hook) (ctx : Context) (s : σ)
    (inbound : List (Except Error TestResult)) :
    ∃ acts outcome, (visit S hook ctx s).events = acts ++ [.returned outcome] ∧
      (visit S hook ctx s).context.judge outcome = (visit S hook ctx s).outcome ∧
      Path ⟨.calling hook, ctx, inbound⟩ acts
        ⟨.inside hook, (visit S hook ctx s).context, inbound⟩ :=
  ⟨_, _, rfl, rfl, .cons .call (Dialogue.conduct_path _ hook ctx inbound)⟩

theorem visit_path_of_error (S : Strategy σ) (hook : Hook) (ctx : Context) (s : σ)
    (inbound : List (Except Error TestResult)) {e : Error}
    (hout : (visit S hook ctx s).outcome = .error e) :
    Path ⟨.calling hook, ctx, inbound⟩ (visit S hook ctx s).events
      ⟨.over (.error e), (visit S hook ctx s).context, inbound⟩ := by
  obtain ⟨acts, outcome, hevents, hjudge, hpath⟩ := entered_path S hook ctx s inbound
  rw [hevents]
  exact hpath.trans (.single (.leave (hjudge.trans hout)))

/-- Where a hook that went well leads is left open: it depends on the hook and the context. -/
theorem visit_path_of_ok (S : Strategy σ) (hook : Hook) (ctx : Context) (s : σ)
    (inbound : List (Except Error TestResult)) {last : Point}
    (hout : (visit S hook ctx s).outcome = .ok ())
    (hlast : (visit S hook ctx s).context.violation = none →
      Step ⟨.inside hook, (visit S hook ctx s).context, inbound⟩ (.returned (.ok ()))
        ⟨last, (visit S hook ctx s).context, inbound⟩) :
    Path ⟨.calling hook, ctx, inbound⟩ (visit S hook ctx s).events
      ⟨last, (visit S hook ctx s).context, inbound⟩ := by
  obtain ⟨acts, outcome, hevents, hjudge, hpath⟩ := entered_path S hook ctx s inbound
  obtain ⟨rfl, hviolation⟩ := Context.judge_eq_ok (hjudge.trans hout)
  rw [hevents]
  exact hpath.trans (.single (hlast hviolation))

theorem settle_of_error {v : Visit σ} {e : Error} (h : v.outcome = .error e) :
    settle v = (v.events, ⟨v.context, v.state, .ended (.error e)⟩) := by
  simp only [settle, h]

/-- After `begin` and each result the session is concluded, goes on, or stalls. -/
theorem settle_path (S : Strategy σ) {hook : Hook} (hhook : hook ≠ .init) (ctx : Context) (s : σ)
    (inbound : List (Except Error TestResult)) :
    Path ⟨.calling hook, ctx, inbound⟩ (settle (visit S hook ctx s)).1
      ((settle (visit S hook ctx s)).2.moment inbound) := by
  cases hout : (visit S hook ctx s).outcome with
  | error e =>
      rw [settle_of_error hout]
      exact visit_path_of_error S hook ctx s inbound hout
  | ok _ =>
      have hvisit := @visit_path_of_ok σ S hook ctx s inbound
      cases hreport : (visit S hook ctx s).context.report with
      | some report =>
          simp only [settle, hout, Context.status, hreport]
          exact (hvisit hout fun hnone => .settle hhook hnone hreport).trans (.single .conclude)
      | none =>
          cases hpending : (visit S hook ctx s).context.pending with
          | some test =>
              simp only [settle, hout, Context.status, hreport, hpending]
              exact hvisit hout fun hnone => .pause hhook hnone hreport hpending
          | none =>
              simp only [settle, hout, Context.status, hreport, hpending]
              exact hvisit hout fun hnone => .stall hhook hnone hreport hpending

theorem start_path (S : Strategy σ) (ctx : Context) (s : σ)
    (inbound : List (Except Error TestResult)) :
    Path ⟨.fresh, ctx, inbound⟩ (start S ctx s).1 ((start S ctx s).2.moment inbound) := by
  unfold start
  simp only [move]
  split
  · next e he =>
      exact .cons .prepare (visit_path_of_error S .init (ctx.enter .initialized) s inbound he)
  · next hok =>
      have hinit := visit_path_of_ok S .init (ctx.enter .initialized) s inbound hok .ready
      exact .cons .prepare (hinit.trans (.cons .begin (settle_path S (by simp) _ _ inbound)))

/-- What a session that awaits a test does with the next thing its judge says. -/
theorem hear_path (S : Strategy σ) {session : Session σ} {test : UInt32}
    (hstatus : session.status = .awaiting test) (inbound : List (Except Error TestResult)) :
    Path (session.moment inbound) (hear S session test inbound.head?).1
      ((hear S session test inbound.head?).2.moment inbound.tail) := by
  have hmoment : session.moment inbound = ⟨.awaiting test, session.context, inbound⟩ := by
    rw [moment, hstatus]
    rfl
  rw [hmoment]
  match inbound with
  | [] => exact .single .exhaust
  | .error e :: rest => exact .single .misread
  | .ok r :: rest =>
      simp only [hear, List.head?_cons, List.tail_cons]
      split
      · next htest => exact .cons (.receive htest) (settle_path S (by simp) _ _ rest)
      · next htest => exact .single (.mismatch htest)

/-- A session is carried on to its end. -/
theorem follow_path (S : Strategy σ) (session : Session σ)
    (inbound : List (Except Error TestResult)) :
    ∃ rest, Path (session.moment inbound) (follow S session inbound).1
      ⟨.over (follow S session inbound).2.result, (follow S session inbound).2.context, rest⟩ := by
  induction inbound generalizing session with
  | nil =>
      simp only [follow]
      split
      · next hstatus =>
          refine ⟨[], ?_⟩
          rw [result, moment, hstatus]
          exact .nil _
      · next test hstatus => exact ⟨[], hear_path S hstatus []⟩
  | cons r rest ih =>
      simp only [follow]
      split
      · next hstatus =>
          refine ⟨r :: rest, ?_⟩
          rw [result, moment, hstatus]
          exact .nil _
      · next test hstatus =>
          obtain ⟨left, hleft⟩ := ih (hear S session test (some r)).2
          exact ⟨left, (hear_path S hstatus (r :: rest)).trans hleft⟩

end Session

/-! ## Following a session -/

/-- What is kept by each thing that a session hears holds when the session has ended. -/
theorem Session.follow_induct {σ : Type} (S : Strategy σ)
    {motive : Journal → Session σ → List (Except Error TestResult) → Prop}
    (hstep : ∀ {js session test inbound}, session.status = .awaiting test →
      motive js session inbound →
      motive (js ++ (hear S session test inbound.head?).1) (hear S session test inbound.head?).2
        inbound.tail)
    {js : Journal} {session : Session σ} {inbound : List (Except Error TestResult)}
    (h : motive js session inbound) :
    ∃ left result, (follow S session inbound).2.status = .ended result ∧
      motive (js ++ (follow S session inbound).1) (follow S session inbound).2 left := by
  induction inbound generalizing js session with
  | nil =>
      simp only [follow]
      split
      · next result hstatus => exact ⟨[], result, hstatus, (List.append_nil js).symm ▸ h⟩
      · next test hstatus => exact ⟨[], _, rfl, hstep hstatus h⟩
  | cons r rest ih =>
      simp only [follow]
      split
      · next result hstatus => exact ⟨r :: rest, result, hstatus, (List.append_nil js).symm ▸ h⟩
      · next test hstatus =>
          obtain ⟨left, result, hended, hlast⟩ := ih (hstep hstatus h)
          exact ⟨left, result, hended, (List.append_assoc js _ _).symm ▸ hlast⟩

theorem Session.follow_of_ended {σ : Type} {S : Strategy σ} {session : Session σ}
    {result : Except Error Report} (h : session.status = .ended result)
    (inbound : List (Except Error TestResult)) : follow S session inbound = ([], session) := by
  cases inbound <;> simp only [follow, h]

/-! ## Whole runs -/

/-- Every run takes its course: its journal is a path of steps from the start to its result. -/
theorem Strategy.play_path {σ : Type} (S : Strategy σ) (ctx : Context) (s : σ)
    (inbound : List (Except Error TestResult)) :
    ∃ rest, Path ⟨.fresh, ctx, inbound⟩ (S.play ctx s inbound).journal
      ⟨.over (S.play ctx s inbound).result, (S.play ctx s inbound).context, rest⟩ := by
  obtain ⟨rest, hfollow⟩ := Session.follow_path S (Session.start S ctx s).2 inbound
  exact ⟨rest, (Session.start_path S ctx s inbound).trans hfollow⟩

theorem Strategy.run_path {σ : Type} (S : Strategy σ) (ctx : Context) (s : σ)
    (stream : List UInt8) :
    ∃ rest, Path ⟨.fresh, ctx, TestResult.readAll (Text.lines stream)⟩ (S.run ctx s stream).journal
      ⟨.over (S.run ctx s stream).result, (S.run ctx s stream).context, rest⟩ :=
  S.play_path ctx s (TestResult.readAll (Text.lines stream))

/-- What a run reads next, when so many results are read and the rest of the stream is left. -/
theorem next_of_read {results : List TestResult} {inbound left : List (Except Error TestResult)}
    (h : results.map .ok ++ left = inbound) : inbound[results.length]? = left.head? := by
  rw [← h, List.getElem?_append_right (by simp), List.length_map, Nat.sub_self,
    List.head?_eq_getElem?]

end Valuer
