import Valuer.Proofs.Bookkeeping

set_option autoImplicit false

/-! # Contexts are never left half changed

What a context goes through, whatever calls it (`Context.Reached`): messages are sent in any order,
fitting or not, and between them a run does its part. A message that is refused, or that the sink
does not take, leaves the rest of the context as it was, and one that is taken changes what it is
about and nothing else (`Context.Atomic`). So the phase, the test awaited and the report never
disagree (`Context.Reached.consistent_atomic`). -/

namespace Valuer

namespace Context

/-! ## How a context changes -/

/-- What one event does to a context. Only the phases come in order; whatever else a run does to a
context, it may do at any time. -/
inductive Change : Context → Event → Context → Prop where
  | send {ctx : Context} (m : Message) : Change ctx (.sent m (ctx.send m).2) (ctx.send m).1
  | prepare {ctx : Context} (hphase : ctx.phase = .notStarted) :
      Change ctx (.moved ctx.phase .initialized) (ctx.enter .initialized)
  | begin {ctx : Context} (hphase : ctx.phase = .initialized) :
      Change ctx (.moved ctx.phase .running) (ctx.enter .running)
  /-- The result of the test that was awaited is taken. -/
  | resolve {ctx : Context} (r : TestResult) :
      Change ctx (.heard (some (.ok r))) { ctx with pending := none }
  /-- The first refusal is taken and ends the run. -/
  | check {ctx : Context} (outcome : Except Error Unit) :
      Change ctx (.returned outcome) { ctx with violation := none }
  /-- The report is taken and ends the run. -/
  | conclude {ctx : Context} (report : Report) :
      Change ctx (.concluded report) { ctx with report := none }
  /-- Whatever else happens leaves the context as it is. -/
  | stay {ctx : Context} {e : Event} (hquiet : ∀ m outcome, e ≠ .sent m outcome) :
      Change ctx e ctx

theorem Change.of_send {ctx next : Context} {m : Message} {outcome : Except Error Unit}
    (h : ctx.send m = (next, outcome)) : Change ctx (.sent m outcome) next := by
  have hsend : Change ctx _ _ := .send m
  rw [h] at hsend
  exact hsend

/-- The contexts that can come of a given one, each with all that has happened on the way. -/
inductive Reached (given : Context) : Journal → Context → Prop where
  | nil : Reached given [] given
  | concat {js : Journal} {e : Event} {ctx next : Context} (sofar : Reached given js ctx)
      (change : Change ctx e next) : Reached given (js ++ [e]) next

end Context

/-- Every step of a run changes its context in one of these ways. -/
theorem Step.change {a b : Moment} {e : Event} (h : Step a e b) (hfits : a.point.Fits a.context) :
    Context.Change a.context e b.context := by
  cases h with
  | prepare => exact .prepare hfits.1
  | begin => exact .begin hfits.1
  | refuse hobjection => exact .of_send (Context.send_of_refused hobjection)
  | deliver hobjection hwrite =>
      exact .of_send (by simp only [Context.send, hobjection, Context.deliver, hwrite])
  | lose hobjection hwrite =>
      exact .of_send (by simp only [Context.send, hobjection, Context.deliver, hwrite])
  | receive htest => exact .resolve _
  | _ => exact .stay fun _ _ => Event.noConfusion

/-- Every context of a run is reached. -/
theorem Path.reached {ctx : Context} {inbound : List (Except Error TestResult)} {js : Journal}
    {m : Moment} (hctx : Point.fresh.Fits ctx) (h : Path ⟨.fresh, ctx, inbound⟩ js m) :
    Context.Reached ctx js m.context := by
  refine h.induct (motive := fun js m => Context.Reached ctx js m.context) .nil ?_
  intro js b e c hpath hreached hstep
  exact .concat hreached (hstep.change (hpath.books hctx).1)

namespace Context

/-! ## What a message changes -/

/-- Whether a message is taken, refused or lost, nothing is changed but what it is about. -/
structure Atomic (ctx : Context) : Prop where
  /-- A message that is refused is remembered as the first refusal, if it is that. -/
  refused : ∀ m v, (ctx.send m).2 = .error (.protocol v) →
    (ctx.send m).1 = { ctx with violation := some (ctx.violation.getD v) }
  /-- A message fails otherwise only in the sink, which may have taken its leading bytes. -/
  lost : ∀ m e, (ctx.send m).2 = .error e → (∀ v, e ≠ .protocol v) →
    ∃ fault sink written, e = .stream fault ∧ (ctx.send m).1 = { ctx with sink } ∧
      sink.bytes = ctx.sink.bytes ++ written ∧ written <+: m.encode
  run : ∀ test, (ctx.send (.run test)).2 = .ok () → ∃ sink,
    (ctx.send (.run test)).1 = { ctx with pending := some test, sink } ∧
      sink.bytes = ctx.sink.bytes ++ (Message.run test).encode
  comment : ∀ audience text, (ctx.send (.comment audience text)).2 = .ok () → ∃ sink,
    (ctx.send (.comment audience text)).1 = { ctx with sink } ∧
      sink.bytes = ctx.sink.bytes ++ (Message.comment audience text).encode
  finish : ∀ report, (ctx.send (.finish report)).2 = .ok () → ∃ sink,
    (ctx.send (.finish report)).1 = { ctx with phase := .finished, report := some report, sink } ∧
      sink.bytes = ctx.sink.bytes ++ (Message.finish report).encode

variable {ctx : Context} {m : Message}

/-- A message that is taken is written as a whole. -/
theorem send_of_taken (h : (ctx.send m).2 = .ok ()) :
    ∃ sink, (ctx.send m).1 = { ctx with sink }.accept m ∧
      sink.bytes = ctx.sink.bytes ++ m.encode := by
  rcases ctx.send_cases m with ⟨v, -, hsend⟩ | ⟨sink, -, hwrite, hsend⟩ |
    ⟨sink, fault, -, -, hsend⟩ <;> rw [hsend] at h ⊢
  · exact absurd h (by simp)
  · exact ⟨sink, rfl, Sink.bytes_of_write_ok hwrite⟩
  · exact absurd h (by simp)

theorem atomic (ctx : Context) : ctx.Atomic where
  refused m v h := by
    rcases ctx.send_cases m with ⟨w, -, hsend⟩ | ⟨sink, -, -, hsend⟩ |
      ⟨sink, fault, -, -, hsend⟩ <;> rw [hsend] at h ⊢
    · cases h
      rfl
    · exact absurd h (by simp)
    · exact absurd h (by simp)
  lost m e h he := by
    rcases ctx.send_cases m with ⟨v, -, hsend⟩ | ⟨sink, -, -, hsend⟩ |
      ⟨sink, fault, -, hwrite, hsend⟩ <;> rw [hsend] at h ⊢
    · exact absurd (Except.error.inj h).symm (he v)
    · exact absurd h (by simp)
    · obtain ⟨written, hbytes, hprefix⟩ := ctx.sink.exists_written m.encode
      rw [hwrite] at hbytes
      exact ⟨fault, sink, written, (Except.error.inj h).symm, rfl, hbytes, hprefix⟩
  run test h := send_of_taken h
  comment audience text h := send_of_taken h
  finish report h := send_of_taken h

/-! ## What holds of every context that is reached -/

/-- What a context that was made for so many tests and with such a payload keeps to. -/
structure Consistent (count : Option UInt32) (seed : Option (List UInt8)) (js : Journal)
    (ctx : Context) : Prop where
  /-- A test is awaited only while the run is running, and it is one of the tests. -/
  awaited : ∀ test, ctx.pending = some test →
    ctx.phase = .running ∧ 1 ≤ test ∧ ∀ last, count = some last → test ≤ last
  /-- The run is finished from the moment that its report was sent. -/
  finished_iff : ctx.phase = .finished ↔ ∃ report, .sent (.finish report) (.ok ()) ∈ js
  count_eq : ctx.count = count
  seed_eq : ctx.seed = seed

namespace Consistent

variable {count : Option UInt32} {seed : Option (List UInt8)} {js : Journal} {ctx next : Context}
  {e : Event}

theorem pending_eq_none (h : Consistent count seed js ctx) (hphase : ctx.phase ≠ .running) :
    ctx.pending = none := by
  cases hpending : ctx.pending with
  | none => rfl
  | some test => exact absurd (h.awaited test hpending).1 hphase

/-- An event that sends no report and leaves the run as finished as it was. -/
theorem keep (h : Consistent count seed js ctx) (he : e.delivered?.bind Message.report? = none)
    (hphase : next.phase = .finished ↔ ctx.phase = .finished)
    (hawaited : ∀ test, next.pending = some test →
      next.phase = .running ∧ 1 ≤ test ∧ ∀ last, count = some last → test ≤ last)
    (hcount : next.count = ctx.count) (hseed : next.seed = ctx.seed) :
    Consistent count seed (js ++ [e]) next := by
  refine ⟨hawaited, ?_, hcount.trans h.count_eq, hseed.trans h.seed_eq⟩
  rw [hphase, h.finished_iff]
  refine exists_congr fun report => ?_
  rw [List.mem_append, List.mem_singleton, or_iff_left]
  rintro rfl
  exact absurd he (by simp [Event.delivered?, Message.report?])

theorem send (h : Consistent count seed js ctx) (m : Message) :
    Consistent count seed (js ++ [.sent m (ctx.send m).2]) (ctx.send m).1 := by
  rcases ctx.send_cases m with ⟨v, -, hsend⟩ | ⟨sink, hobjection, -, hsend⟩ |
    ⟨sink, fault, -, -, hsend⟩ <;> rw [hsend]
  · exact h.keep rfl Iff.rfl h.awaited rfl rfl
  · cases m with
    | run test =>
        obtain ⟨hphase, -, hzero, hbound⟩ := runObjection?_eq_none hobjection
        refine h.keep rfl Iff.rfl ?_ rfl rfl
        rintro _ ⟨⟩
        refine ⟨hphase, ?_, fun last hlast => hbound last (h.count_eq.trans hlast)⟩
        rw [UInt32.le_iff_toNat_le]
        exact Nat.one_le_iff_ne_zero.2 fun hnat => hzero (UInt32.toNat_inj.1 hnat)
    | comment audience text => exact h.keep rfl Iff.rfl h.awaited rfl rfl
    | finish report =>
        obtain ⟨-, hpending⟩ := finishObjection?_eq_none hobjection
        refine ⟨fun test htest => ?_, iff_of_true rfl ⟨report, by simp⟩, h.count_eq, h.seed_eq⟩
        exact absurd (hpending.symm.trans htest) (by simp)
  · exact h.keep rfl Iff.rfl h.awaited rfl rfl

/-- Whatever happens to a context, it stays consistent. -/
theorem change (h : Consistent count seed js ctx) (hchange : Change ctx e next) :
    Consistent count seed (js ++ [e]) next := by
  cases hchange with
  | send m => exact h.send m
  | prepare hphase =>
      have hpending := h.pending_eq_none (by simp [hphase])
      exact h.keep rfl (by simp [enter, hphase]) (by simp [enter, hpending]) rfl rfl
  | begin hphase =>
      have hpending := h.pending_eq_none (by simp [hphase])
      exact h.keep rfl (by simp [enter, hphase]) (by simp [enter, hpending]) rfl rfl
  | resolve r => exact h.keep rfl Iff.rfl (by simp) rfl rfl
  | check outcome => exact h.keep rfl Iff.rfl h.awaited rfl rfl
  | conclude report => exact h.keep rfl Iff.rfl h.awaited rfl rfl
  | stay hquiet =>
      have hsilent : e.delivered? = none := by
        cases e with
        | sent m outcome => exact absurd rfl (hquiet m outcome)
        | _ => rfl
      exact h.keep (by rw [hsilent]; rfl) Iff.rfl h.awaited rfl rfl

end Consistent

theorem Reached.consistent {count : Option UInt32} {seed : Option (List UInt8)} {sink : Sink}
    {js : Journal} {ctx : Context} (h : Reached { count, seed, sink } js ctx) :
    Consistent count seed js ctx := by
  induction h with
  | nil => exact ⟨by simp, by simp, rfl, rfl⟩
  | concat _ change ih => exact ih.change change

/-- A context that is reached from a new one never awaits a test that cannot be awaited, is finished
exactly if the report was sent, and knows the tests and the payload that it was made with. Whatever
message it is sent then, nothing is changed but what that message is about. -/
theorem Reached.consistent_atomic {count : Option UInt32} {seed : Option (List UInt8)} {sink : Sink}
    {js : Journal} {ctx : Context} (h : Reached { count, seed, sink } js ctx) :
    Consistent count seed js ctx ∧ (ctx.phase = .finished → ctx.pending = none) ∧ ctx.Atomic := by
  refine ⟨h.consistent, fun hphase => ?_, ctx.atomic⟩
  exact h.consistent.pending_eq_none (by simp [hphase])

/-- A message that is refused, one that is taken and one that the sink takes a part of, in one hook:
the context that the run leaves is as the first two have made it. -/
theorem Reached.consistent_atomic_of_torn_comment :
    let S : Strategy Unit :=
      { begin := do
          discard (Act.send (.run 3)).attempt
          discard (Act.send (.run 2)).attempt
          Act.send (.comment .jury "waiting") }
    let given : Context := { count := some 2, sink := { room := some 12 } }
    let run := S.run given () []
    (run.context.phase = .running ∧ run.context.pending = some 2 ∧
        run.context.violation = some (.testBeyond 3 2) ∧
        run.context.sink.bytes = Utf8.encode "RUN 2\nCOMMEN") ∧
      Reached given run.journal run.context ∧
      Consistent (some 2) none run.journal run.context ∧
      (run.context.phase = .finished → run.context.pending = none) ∧ run.context.Atomic := by
  intro S given run
  obtain ⟨left, hpath⟩ := S.run_path given () []
  have hreached := hpath.reached (Point.fits_fresh (some 2) none _)
  exact ⟨by decide +kernel, hreached, Reached.consistent_atomic hreached⟩

end Context

end Valuer
