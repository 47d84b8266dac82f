import Valuer.Proofs.Bookkeeping
import Valuer.Proofs.Transcript

set_option autoImplicit false

/-! # Where failures lead

A run does not survive a fault: the hook in which a message is refused, or that returns an error, is
its last one, and its result says so. A message that is lost is not remembered by the run at all,
but the sink that lost it is full: the report cannot be sent any more. -/

namespace Valuer

/-- No message was refused and no hook has returned an error. -/
def Journal.Sound (js : Journal) : Prop :=
  ∀ e ∈ js, e.isFault = false

theorem Journal.Sound.append {js ks : Journal} (hjs : Sound js) (hks : Sound ks) :
    Sound (js ++ ks) :=
  List.forall_mem_append.2 ⟨hjs, hks⟩

theorem Journal.Sound.refusal?_eq_none {js : Journal} (hjs : Sound js) : refusal? js = none :=
  List.findSome?_eq_none_iff.2 fun e he => Event.refused?_eq_none (hjs e he)

theorem Journal.Sound.concat {js : Journal} {e : Event} (hjs : Sound js) (he : e.isFault = false) :
    Sound (js ++ [e]) :=
  hjs.append (List.forall_mem_singleton.2 he)

/-- A hook in which nothing was refused has done nothing wrong so far. -/
theorem Journal.sound_of_refusal?_eq_none {acts : Journal} (hacts : ∀ e ∈ acts, e.isAct = true)
    (hnone : refusal? acts = none) : Sound acts := by
  intro e he
  exact Event.isFault_eq_false (hacts e he) (List.findSome?_eq_none_iff.1 hnone e he)

/-! ## Faults -/

/-- A journal that has come to a hook that refuses for the given reason, if it refuses at all. All
that was before the hook is sound. -/
def Journal.Within (js : Journal) (hook : Hook) (refusal : Option Violation) : Prop :=
  ∃ (before : Journal) (view : View) (acts : Journal), js = before ++ .entered hook view :: acts ∧
    before.Sound ∧ (∀ e ∈ acts, e.isAct = true) ∧ acts.refusal? = refusal

/-- A journal whose last hook is the only one with a fault, and the result that comes of it: the
hook's own error, or else the first refusal. -/
def Journal.StoppedWith (js : Journal) (result : Except Error Report) : Prop :=
  ∃ (before : Journal) (hook : Hook) (view : View) (acts : Journal) (outcome : Except Error Unit),
    js = before ++ .entered hook view :: (acts ++ [.returned outcome]) ∧
    before.Sound ∧ (∀ e ∈ acts, e.isAct = true) ∧
    match outcome with
    | .error e => result = .error e
    | .ok () => ∃ v, acts.refusal? = some v ∧ result = .error (.protocol v)

/-- What a journal can look like at a point. -/
def Point.Traces : Point → Context → Journal → Prop
  | .inside hook, ctx, js => js.Within hook ctx.violation
  | .over result, _, js => js.Sound ∨ js.StoppedWith result
  | _, _, js => js.Sound

namespace Journal.Within

variable {js : Journal} {hook : Hook} {refusal : Option Violation}

theorem act (h : js.Within hook refusal) {e : Event} (hact : e.isAct = true) :
    Journal.Within (js ++ [e]) hook (refusal.or e.refused?) := by
  obtain ⟨before, view, acts, rfl, hbefore, hacts, hrefusal⟩ := h
  refine ⟨before, view, acts ++ [e], ?_, hbefore, ?_, ?_⟩
  · rw [List.append_assoc, List.cons_append]
  · exact List.forall_mem_append.2 ⟨hacts, List.forall_mem_singleton.2 hact⟩
  · rw [← hrefusal]
    refine List.findSome?_append.trans ?_
    rw [List.findSome?_singleton]
    rfl

/-- What a strategy does without being refused changes nothing about the first refusal. -/
theorem idle (h : js.Within hook refusal) {e : Event} (hact : e.isAct = true)
    (hrefused : e.refused? = none) : Journal.Within (js ++ [e]) hook refusal := by
  have hnext := h.act hact
  rw [hrefused, Option.or_none] at hnext
  exact hnext

/-- All that was refused so far was refused in this hook. -/
theorem refusal?_eq (h : js.Within hook refusal) : js.refusal? = refusal := by
  obtain ⟨before, view, acts, rfl, hbefore, -, rfl⟩ := h
  have hnone := hbefore.refusal?_eq_none
  unfold Journal.refusal? at hnone ⊢
  rw [List.findSome?_append, hnone, Option.none_or]
  rfl

/-- A hook that refuses nothing and returns no error leaves the journal sound. -/
theorem sound (h : js.Within hook refusal) (hnone : refusal = none) :
    Journal.Sound (js ++ [.returned (.ok ())]) := by
  obtain ⟨before, view, acts, rfl, hbefore, hacts, hrefusal⟩ := h
  have hinside := Journal.sound_of_refusal?_eq_none hacts (hrefusal.trans hnone)
  refine Journal.Sound.concat (hbefore.append ?_) rfl
  exact List.forall_mem_cons.2 ⟨rfl, hinside⟩

theorem stopped (h : js.Within hook refusal) {outcome : Except Error Unit}
    {result : Except Error Report}
    (hresult : match outcome with
      | .error e => result = .error e
      | .ok () => ∃ v, refusal = some v ∧ result = .error (.protocol v)) :
    Journal.StoppedWith (js ++ [.returned outcome]) result := by
  obtain ⟨before, view, acts, rfl, hbefore, hacts, rfl⟩ := h
  refine ⟨before, hook, view, acts, outcome, ?_, hbefore, hacts, hresult⟩
  rw [List.append_assoc, List.cons_append]

end Journal.Within

/-- Every step leads from a journal of its point to a journal of the next. -/
theorem Step.traces {js : Journal} {a b : Moment} {e : Event} (h : Step a e b)
    (hfits : a.point.Fits a.context) (ha : a.point.Traces a.context js) :
    b.point.Traces b.context (js ++ [e]) := by
  cases h with
  | prepare => exact Journal.Sound.concat ha rfl
  | begin => exact Journal.Sound.concat ha rfl
  | @call hook ctx inbound =>
      -- a hook is called with nothing refused, so what it refuses starts its own account
      have hviolation : ctx.violation = none := by cases hook <;> exact hfits.2.2.2
      have hsound : js.Sound := by cases hook <;> exact ha
      exact ⟨js, ctx.view, [], rfl, hsound, by simp, hviolation.symm⟩
  | look => exact Journal.Within.idle ha rfl rfl
  | note record => exact Journal.Within.idle ha rfl rfl
  | @refuse hook ctx inbound m v hobjection =>
      have hviolation : (ctx.refuse v).violation = ctx.violation.or (some v) := by
        unfold Context.refuse
        cases ctx.violation <;> rfl
      have hnext := Journal.Within.act ha (e := .sent m (.error (.protocol v))) rfl
      -- the context keeps the first refusal, and so does the journal
      show Journal.Within _ hook (ctx.refuse v).violation
      rw [hviolation]
      exact hnext
  | @deliver hook ctx inbound m sink hobjection hwrite =>
      have hnext := Journal.Within.idle ha (e := .sent m (.ok ())) rfl rfl
      cases m <;> exact hnext
  | lose _ _ => exact Journal.Within.idle ha rfl rfl
  | abort => exact .inr (Journal.Within.stopped ha rfl)
  | stop hviolation => exact .inr (Journal.Within.stopped ha ⟨_, hviolation, rfl⟩)
  | ready hviolation => exact Journal.Within.sound ha hviolation
  | pause _ hviolation _ _ => exact Journal.Within.sound ha hviolation
  | settle _ hviolation _ => exact Journal.Within.sound ha hviolation
  | stall _ hviolation _ _ => exact .inl (Journal.Within.sound ha hviolation)
  | conclude => exact .inl (Journal.Sound.concat ha rfl)
  | exhaust => exact .inl (Journal.Sound.concat ha rfl)
  | misread => exact .inl (Journal.Sound.concat ha rfl)
  | mismatch _ => exact .inl (Journal.Sound.concat ha rfl)
  | receive _ => exact Journal.Sound.concat ha rfl

theorem Path.traces {ctx : Context} {inbound : List (Except Error TestResult)} {js : Journal}
    {m : Moment} (hctx : Point.fresh.Fits ctx) (h : Path ⟨.fresh, ctx, inbound⟩ js m) :
    m.point.Traces m.context js := by
  refine h.induct (motive := fun js m => m.point.Traces m.context js) ?_ ?_
  · intro e he
    exact absurd he List.not_mem_nil
  · intro js b e c hpath hb hstep
    exact hstep.traces (hpath.books hctx).1 hb

/-- When a hook returns, the run knows what was refused first. -/
theorem Step.violation_of_returned {js : Journal} {a b : Moment} {outcome : Except Error Unit}
    (h : Step a (.returned outcome) b) (ha : a.point.Traces a.context js) :
    a.context.violation = js.refusal? := by
  cases h with
  | abort | stop _ | ready _ | pause _ _ _ _ | settle _ _ _ | stall _ _ _ _ =>
      exact (Journal.Within.refusal?_eq ha).symm

/-! ## Losses -/

/-- A message goes well, is refused, or is lost. -/
theorem Step.outcome_of_sent {a b : Moment} {m : Message} {outcome : Except Error Unit}
    (h : Step a (.sent m outcome) b) :
    outcome = .ok () ∨ (Event.sent m outcome).isFault = true ∨
      (Event.sent m outcome).isLost = true := by
  cases h with
  | refuse _ => exact .inr (.inl rfl)
  | deliver _ _ => exact .inl rfl
  | lose _ _ => exact .inr (.inr rfl)

/-- What is neither a comment nor refused is sent before the report. -/
theorem Step.report_eq_none_of_sent {a b : Moment} {m : Message} {outcome : Except Error Unit}
    (h : Step a (.sent m outcome) b) (hfits : a.point.Fits a.context) (hm : m.isComment = false)
    (hsound : (Event.sent m outcome).isFault = false) : a.context.report = none := by
  have hphase : ∀ ctx : Context, ctx.objection? m = none → ctx.phase = .running := by
    intro ctx hobjection
    cases m with
    | run test => exact (Context.runObjection?_eq_none hobjection).1
    | comment audience text => exact absurd hm (by simp [Message.isComment])
    | finish report => exact (Context.finishObjection?_eq_none hobjection).1
  cases h with
  | refuse _ => exact absurd hsound (by simp [Event.isFault])
  | deliver hobjection _ => exact Point.report_eq_none hfits (hphase _ hobjection)
  | lose hobjection _ => exact Point.report_eq_none hfits (hphase _ hobjection)

/-- After the report nothing but comments is sent in a run that refuses nothing. -/
theorem Path.isComment_of_sent {ctx : Context} {inbound : List (Except Error TestResult)}
    {before after : Journal} {report : Report} {last : Moment} (hctx : Point.fresh.Fits ctx)
    (h : Path ⟨.fresh, ctx, inbound⟩ (before ++ .sent (.finish report) (.ok ()) :: after) last)
    (hsound : Journal.Sound (before ++ .sent (.finish report) (.ok ()) :: after)) {m : Message}
    {outcome : Except Error Unit} (hsent : Event.sent m outcome ∈ after) : m.isComment = true := by
  by_cases hm : m.isComment = true
  · exact hm
  · exfalso
    obtain ⟨mid, post, rfl⟩ := List.append_of_mem hsent
    rw [← List.cons_append, ← List.append_assoc] at h hsound
    obtain ⟨b, d, hpath, hstep, -⟩ := h.split_at
    -- when it was sent the report was not, but the report is in the journal before it
    obtain ⟨hfits, hbooks⟩ := hpath.books hctx
    have hfault := hsound _ (List.mem_append_right _ List.mem_cons_self)
    have hnone := hstep.report_eq_none_of_sent hfits (Bool.eq_false_iff.2 hm) hfault
    have hreports := hbooks.closed.reports_eq
    rw [hnone, Journal.delivered_append, List.filterMap_append] at hreports
    exact absurd (List.append_eq_nil_iff.1 hreports).2 (List.cons_ne_nil report _)

/-! ## Whole runs -/

theorem Path.sound_of_reported {ctx : Context} {inbound rest : List (Except Error TestResult)}
    {js : Journal} {last : Context} {report : Report} (hctx : Point.fresh.Fits ctx)
    (h : Path ⟨.fresh, ctx, inbound⟩ js ⟨.over (.ok report), last, rest⟩) : js.Sound := by
  rcases h.traces hctx with hsound | ⟨before, hook, view, acts, outcome, -, -, -, hresult⟩
  · exact hsound
  · cases outcome with
    | error e => exact absurd hresult (by simp)
    | ok u =>
        obtain ⟨v, -, hresult⟩ := hresult
        exact absurd hresult (by simp)

/-- How a run goes that ends with a report: everything up to the report went well, it is in the
sink, and all that was sent after it are comments. -/
theorem Path.sent_of_reported {ctx : Context} {inbound rest : List (Except Error TestResult)}
    {js : Journal} {last : Context} {report : Report} (hctx : Point.fresh.Fits ctx)
    (hsteady : ctx.sink.Steady) (hempty : ctx.sink.bytes = [])
    (h : Path ⟨.fresh, ctx, inbound⟩ js ⟨.over (.ok report), last, rest⟩) :
    ∃ (before after : Journal) (tail : List UInt8),
      js = before ++ .sent (.finish report) (.ok ()) :: after ∧
      (∀ m outcome, .sent m outcome ∈ before → outcome = .ok ()) ∧
      (∀ m outcome, .sent m outcome ∈ after → m.isComment = true) ∧
      last.sink.bytes
        = before.delivered.flatMap Message.encode ++ (Message.finish report).encode ++ tail := by
  obtain ⟨hfits, hbooks⟩ := h.books hctx
  have hsound := h.sound_of_reported hctx
  have hclosed : ClosedBy (some report) js.delivered := hfits.2.1 ▸ hbooks.closed
  obtain ⟨ms, ns, hdelivered, -, -⟩ := hclosed
  obtain ⟨before, after, rfl, -, -⟩ := Journal.exists_of_delivered_eq hdelivered
  obtain ⟨b, d, hpath, hstep, hrest⟩ := h.split_at
  -- the report was taken, so nothing was lost before it
  have hb := hpath.transcribed hsteady hempty
  have hkept := hb.isLost_eq_false hstep
  have hbytes := hstep.bytes_eq_of_sent hb
  obtain ⟨tail, htail⟩ := hrest.prefix_bytes
  refine ⟨before, after, tail, rfl, ?_, ?_, ?_⟩
  · intro m outcome hsent
    obtain ⟨pre, post, rfl⟩ := List.append_of_mem hsent
    obtain ⟨_, _, -, hsend, -⟩ := hpath.split_at
    rcases hsend.outcome_of_sent with hok | hfault | hlost
    · exact hok
    · exact absurd hfault (by simp [hsound _ (List.mem_append_left _ hsent)])
    · exact absurd hlost (by simp [hkept _ hsent])
  · intro m outcome hsent
    exact h.isComment_of_sent hctx hsound hsent
  · rw [← htail, hbytes]

/-- A refusal is in the last hook of its run, and comes out unless the hook has an error of its
own. -/
theorem Path.stopped_of_refused {ctx : Context} {inbound rest : List (Except Error TestResult)}
    {js : Journal} {last : Context} {result : Except Error Report} (hctx : Point.fresh.Fits ctx)
    (h : Path ⟨.fresh, ctx, inbound⟩ js ⟨.over result, last, rest⟩) {m : Message} {v : Violation}
    (hrefused : Event.sent m (.error (.protocol v)) ∈ js) :
    ∃ (before : Journal) (hook : Hook) (view : View) (acts : Journal)
      (outcome : Except Error Unit) (first : Violation),
      js = before ++ .entered hook view :: (acts ++ [.returned outcome]) ∧
      .sent m (.error (.protocol v)) ∈ acts ∧ before.Sound ∧
      (∀ e ∈ acts, e.isAct = true) ∧ acts.refusal? = some first ∧
      (∀ e, outcome = .error e → result = .error e) ∧
      (outcome = .ok () → result = .error (.protocol first)) := by
  rcases h.traces hctx with
    hsound | ⟨before, hook, view, acts, outcome, rfl, hbefore, hacts, hresult⟩
  · exact absurd (hsound _ hrefused) (by simp [Event.isFault])
  · have hmem : Event.sent m (.error (.protocol v)) ∈ acts := by
      rcases List.mem_append.1 hrefused with hmem | hmem
      · exact absurd (hbefore _ hmem) (by simp [Event.isFault])
      · simpa using hmem
    have hsome : acts.refusal? ≠ none := by
      intro hnone
      exact absurd (List.findSome?_eq_none_iff.1 hnone _ hmem) (by simp [Event.refused?])
    obtain ⟨first, hfirst⟩ := Option.ne_none_iff_exists'.1 hsome
    refine ⟨before, hook, view, acts, outcome, first, rfl, hmem, hbefore, hacts, hfirst, ?_, ?_⟩
    · rintro e rfl
      exact hresult
    · rintro rfl
      obtain ⟨w, hw, hresult⟩ := hresult
      rw [hfirst] at hw
      cases hw
      exact hresult

/-- Nothing that goes wrong hides behind a run that ends with a report, even if the strategy drops
every error it gets and the sink fills up at any byte. Such a run has sent its report exactly once
and in full, and whatever it sent went well but for comments after the report. The first message
that is refused ends its run with the hook it was sent in: nothing is read any more and no hook is
called, and the result is the hook's own error or else that refusal. -/
theorem Strategy.run_hides_no_failure {σ : Type} (S : Strategy σ) (count : Option UInt32)
    (seed : Option (List UInt8)) (room : Option Nat) (s : σ) (stream : List UInt8) :
    let run := S.run { count, seed, sink := { room } } s stream
    (∀ report, run.result = .ok report →
      (∀ m outcome, .sent m outcome ∈ run.journal → m.isComment = false → outcome = .ok ()) ∧
      run.journal.delivered.filterMap Message.report? = [report] ∧
      ∃ (before after : Journal) (tail : List UInt8),
        run.journal = before ++ .sent (.finish report) (.ok ()) :: after ∧
        (∀ m outcome, .sent m outcome ∈ before → outcome = .ok ()) ∧
        (∀ m outcome, .sent m outcome ∈ after → m.isComment = true) ∧
        run.context.sink.bytes
          = before.delivered.flatMap Message.encode ++ (Message.finish report).encode ++ tail) ∧
    ∀ m v, .sent m (.error (.protocol v)) ∈ run.journal →
      ∃ (before : Journal) (hook : Hook) (view : View) (acts : Journal)
        (outcome : Except Error Unit) (first : Violation),
        run.journal = before ++ .entered hook view :: (acts ++ [.returned outcome]) ∧
        .sent m (.error (.protocol v)) ∈ acts ∧ before.refusal? = none ∧
        (∀ e ∈ acts, e.isAct = true) ∧ acts.refusal? = some first ∧
        (∀ e, outcome = .error e → run.result = .error e) ∧
        (outcome = .ok () → run.result = .error (.protocol first)) := by
  intro run
  have hfresh := Point.fits_fresh count seed { room }
  obtain ⟨rest, hpath⟩ := S.run_path { count, seed, sink := { room } } s stream
  refine ⟨?_, ?_⟩
  · intro report hresult
    have hover : Path _ run.journal ⟨.over (.ok report), run.context, rest⟩ := hresult ▸ hpath
    obtain ⟨hfits, hbooks⟩ := hover.books hfresh
    have hsent := hover.sent_of_reported hfresh rfl rfl
    refine ⟨?_, ?_, hsent⟩
    · intro m outcome hmem hm
      obtain ⟨before, after, -, hjournal, hbefore, hafter, -⟩ := hsent
      rw [hjournal] at hmem
      rcases List.mem_append.1 hmem with hmem | hmem
      · exact hbefore m outcome hmem
      · rcases List.mem_cons.1 hmem with heq | hmem
        · cases heq
          rfl
        · exact absurd (hafter m outcome hmem) (by simp [hm])
    · rw [hbooks.closed.reports_eq, hfits.2.1]
      rfl
  · intro m v hmem
    obtain ⟨before, hook, view, acts, outcome, first, hjournal, hacts, hsound, hstopped⟩ :=
      hpath.stopped_of_refused hfresh hmem
    exact ⟨before, hook, view, acts, outcome, first, hjournal, hacts, hsound.refusal?_eq_none,
      hstopped⟩

/-- A strategy that drops the error of its report is not taken for one that has sent it: with room
for all but the last byte the run stalls. -/
example :
    let report : Report := { score := 100, full := true, log := {} }
    let careless : Strategy Unit := { begin := discard (Act.send (.finish report)).attempt }
    (careless.run { sink := { room := some 29 } } () []).result = .error (.protocol .stalled) ∧
      (careless.run { sink := { room := some 30 } } () []).result = .ok report := by
  constructor <;> rfl

end Valuer
