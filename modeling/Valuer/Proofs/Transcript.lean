import Valuer.Proofs.Course
import Valuer.Proofs.JournalViews
import Valuer.Proofs.MessageStream

set_option autoImplicit false

/-! # What the sink of a run holds

A sink that fails only for want of room holds, as long as nothing was lost, exactly the messages
that were sent with success. The first message that is lost fills it, and from then on it takes no
message any more: messages are never empty (`Message.texts_ne_nil`). -/

namespace Valuer

variable {js : Journal} {a b : Moment} {e : Event}

theorem Context.sink_accept (ctx : Context) (m : Message) : (ctx.accept m).sink = ctx.sink := by
  cases m <;> rfl

/-! ## The sink itself -/

/-- A step writes to the sink or leaves it alone. -/
theorem Step.sink_eq_or_write (h : Step a e b) :
    b.context.sink = a.context.sink ∨ ∃ bs, b.context.sink = (a.context.sink.write bs).1 := by
  cases h with
  | @deliver hook ctx inbound m sink hobjection hwrite =>
      right
      refine ⟨m.encode, ?_⟩
      rw [Context.sink_accept, hwrite]
  | @lose hook ctx inbound m sink fault hobjection hwrite =>
      right
      refine ⟨m.encode, ?_⟩
      rw [hwrite]
  | _ => exact .inl rfl

/-- What was written stays in front of what is written later. -/
theorem Path.prefix_bytes (h : Path a js b) : a.context.sink.bytes <+: b.context.sink.bytes := by
  induction h with
  | nil => exact List.prefix_rfl
  | cons step rest ih =>
      rcases step.sink_eq_or_write with hsink | ⟨bs, hsink⟩
      · rw [hsink] at ih
        exact ih
      · rw [hsink] at ih
        exact (Sink.prefix_bytes_write _ bs).trans ih

theorem Path.room_eq_none (h : Path a js b) (ha : a.context.sink.room = none) :
    b.context.sink.room = none := by
  induction h with
  | nil => exact ha
  | cons step rest ih =>
      refine ih ?_
      rcases step.sink_eq_or_write with hsink | ⟨bs, hsink⟩
      · rw [hsink]
        exact ha
      · rw [hsink, Sink.room_write, ha, Option.map_none]

/-! ## The sink and the journal -/

/-- How a sink that fails only for want of room and the journal so far agree. -/
structure Transcribed (js : Journal) (m : Moment) : Prop where
  steady : m.context.sink.Steady
  full_of_lost : (∃ e ∈ js, e.isLost = true) → m.context.sink.room = some 0
  bytes_eq : (∀ e ∈ js, e.isLost = false) →
    m.context.sink.bytes = js.delivered.flatMap Message.encode

theorem Transcribed.quiet (h : Transcribed js a) (hdelivered : e.delivered? = none)
    (hlost : e.isLost = false) (hsink : b.context.sink = a.context.sink) :
    Transcribed (js ++ [e]) b := by
  obtain ⟨hsteady, hfull, hbytes⟩ := h
  refine ⟨hsink ▸ hsteady, ?_, ?_⟩
  · rintro ⟨d, hd, hdlost⟩
    rw [hsink]
    rcases List.mem_append.1 hd with hd | hd
    · exact hfull ⟨d, hd, hdlost⟩
    · rw [List.mem_singleton.1 hd, hlost] at hdlost
      exact absurd hdlost (by simp)
  · intro hnone
    rw [hsink, Journal.delivered_concat, hdelivered, Option.toList_none, List.append_nil]
    exact hbytes fun d hd => hnone d (List.mem_append_left _ hd)

theorem Step.transcribed (h : Step a e b) (hjs : Transcribed js a) : Transcribed (js ++ [e]) b := by
  cases h with
  | @deliver hook ctx inbound m sink hobjection hwrite =>
      obtain ⟨hsteady, hfull, hbytes⟩ := hjs
      have hnext := hsteady.write m.encode
      rw [hwrite] at hnext
      refine ⟨?_, ?_, ?_⟩
      · rw [Context.sink_accept]
        exact hnext
      · rintro ⟨d, hd, hdlost⟩
        rcases List.mem_append.1 hd with hd | hd
        · have hroom := Sink.room_write_of_full (hfull ⟨d, hd, hdlost⟩) m.encode
          rw [hwrite] at hroom
          rw [Context.sink_accept]
          exact hroom
        · rw [List.mem_singleton.1 hd] at hdlost
          exact absurd hdlost (by simp [Event.isLost])
      · intro hnone
        have hsofar := hbytes fun d hd => hnone d (List.mem_append_left _ hd)
        rw [Context.sink_accept, Sink.bytes_of_write_ok hwrite, hsofar, Journal.delivered_concat,
          List.flatMap_append]
        exact congrArg _ (List.append_nil _).symm
  | @lose hook ctx inbound m sink fault hobjection hwrite =>
      obtain ⟨hsteady, -, -⟩ := hjs
      have hnext := hsteady.write m.encode
      rw [hwrite] at hnext
      refine ⟨hnext, fun _ => hsteady.room_of_write_error hwrite, ?_⟩
      intro hnone
      exact absurd (hnone _ (List.mem_append_right _ (List.mem_singleton.2 rfl)))
        (by simp [Event.isLost])
  | _ => exact hjs.quiet rfl rfl rfl

theorem Path.transcribed {ctx : Context} {inbound : List (Except Error TestResult)} {m : Moment}
    (hsteady : ctx.sink.Steady) (hempty : ctx.sink.bytes = [])
    (h : Path ⟨.fresh, ctx, inbound⟩ js m) : Transcribed js m := by
  refine h.induct (motive := Transcribed) ⟨hsteady, ?_, fun _ => hempty⟩ ?_
  · rintro ⟨d, hd, -⟩
    exact absurd hd List.not_mem_nil
  · intro js b e c _ hb hstep
    exact hstep.transcribed hb

/-- As long as messages are taken, none was lost. -/
theorem Transcribed.isLost_eq_false {m : Message} (hjs : Transcribed js a)
    (h : Step a (.sent m (.ok ())) b) : ∀ e ∈ js, e.isLost = false := by
  intro e he
  by_cases hlost : e.isLost = true
  · have hfull := hjs.full_of_lost ⟨e, he, hlost⟩
    cases h with
    | deliver _ hwrite =>
        exact absurd (hjs.steady.eq_nil_of_write_ok hfull hwrite) m.encode_ne_nil
  · exact Bool.eq_false_iff.2 hlost

/-- A message that is taken stands right behind all that were sent before it. -/
theorem Step.bytes_eq_of_sent {m : Message} (h : Step a (.sent m (.ok ())) b)
    (hjs : Transcribed js a) :
    b.context.sink.bytes = js.delivered.flatMap Message.encode ++ m.encode := by
  have hsofar := hjs.bytes_eq (hjs.isLost_eq_false h)
  cases h with
  | deliver hobjection hwrite =>
      rw [Context.sink_accept, Sink.bytes_of_write_ok hwrite, hsofar]

/-- What was sent with success comes first in the sink, even if something was lost later. -/
theorem Path.delivered_prefix_bytes {ctx : Context} {inbound : List (Except Error TestResult)}
    {m : Moment} (hsteady : ctx.sink.Steady) (hempty : ctx.sink.bytes = [])
    (h : Path ⟨.fresh, ctx, inbound⟩ js m) :
    js.delivered.flatMap Message.encode <+: m.context.sink.bytes := by
  refine h.induct
    (motive := fun js m => js.delivered.flatMap Message.encode <+: m.context.sink.bytes)
    List.nil_prefix ?_
  intro js b e c hpath hb hstep
  cases hdelivered : e.delivered? with
  | some message =>
      -- the sink has taken this message, so it has taken all before it
      obtain rfl := Event.eq_of_delivered? hdelivered
      have hbytes := hstep.bytes_eq_of_sent (hpath.transcribed hsteady hempty)
      refine ⟨[], ?_⟩
      rw [hbytes, Journal.delivered_concat, List.flatMap_append, List.append_nil]
      exact congrArg _ (List.append_nil _)
  | none =>
      rw [Journal.delivered_concat, hdelivered, Option.toList_none, List.append_nil]
      exact hb.trans (Path.single hstep).prefix_bytes

/-- A judge reads first what was sent with success. -/
theorem Path.delivered_prefix_readAll {ctx : Context} {inbound : List (Except Error TestResult)}
    {m : Moment} (hsteady : ctx.sink.Steady) (hempty : ctx.sink.bytes = [])
    (h : Path ⟨.fresh, ctx, inbound⟩ js m) :
    js.delivered.map (fun m => .ok m.onWire)
      <+: Message.readAll (Text.lines m.context.sink.bytes) := by
  obtain ⟨tail, htail⟩ := h.delivered_prefix_bytes hsteady hempty
  rw [← htail, Message.readAll_encode]
  exact List.prefix_append ..

/-- A sink that never fails loses nothing. -/
theorem Path.isLost_eq_false_of_unlimited {ctx : Context}
    {inbound : List (Except Error TestResult)} {m : Moment} (hunlimited : ctx.sink.Unlimited)
    (hempty : ctx.sink.bytes = []) (h : Path ⟨.fresh, ctx, inbound⟩ js m) :
    ∀ e ∈ js, e.isLost = false := by
  intro e he
  by_cases hlost : e.isLost = true
  · have hfull := (h.transcribed hunlimited.2 hempty).full_of_lost ⟨e, he, hlost⟩
    rw [h.room_eq_none hunlimited.1] at hfull
    exact absurd hfull (by simp)
  · exact Bool.eq_false_iff.2 hlost

/-- A sink that never fails holds exactly what was sent with success. -/
theorem Path.bytes_eq_of_unlimited {ctx : Context} {inbound : List (Except Error TestResult)}
    {m : Moment} (hunlimited : ctx.sink.Unlimited) (hempty : ctx.sink.bytes = [])
    (h : Path ⟨.fresh, ctx, inbound⟩ js m) :
    m.context.sink.bytes = js.delivered.flatMap Message.encode :=
  (h.transcribed hunlimited.2 hempty).bytes_eq (h.isLost_eq_false_of_unlimited hunlimited hempty)

/-- The judge of a run whose sink never fails reads what was sent with success and nothing else. -/
theorem Path.readAll_of_unlimited {ctx : Context} {inbound : List (Except Error TestResult)}
    {m : Moment} (hunlimited : ctx.sink.Unlimited) (hempty : ctx.sink.bytes = [])
    (h : Path ⟨.fresh, ctx, inbound⟩ js m) :
    Message.readAll (Text.lines m.context.sink.bytes)
      = js.delivered.map fun m => .ok m.onWire := by
  have hread := Message.readAll_encode js.delivered []
  rw [List.append_nil, Text.lines_nil, Message.readAll_nil, List.append_nil] at hread
  rw [h.bytes_eq_of_unlimited hunlimited hempty, hread]

end Valuer
