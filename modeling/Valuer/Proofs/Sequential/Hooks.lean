import Valuer.Proofs.Course
import Valuer.Proofs.JournalViews
import Valuer.Proofs.Sequential.Tally

set_option autoImplicit false

/-! # What the hooks of the sequential strategy do

One account of each hook: what it sends, what it leaves of the state and how it ends, whatever the
context makes of its messages. Taking in a result only comments on it (`commented_takeIn`), and what
makes the run go on is a single message (`conduct_proceed`). Every failure breaks a hook off, so a
hook that goes well has sent all that it was to send. -/

namespace Valuer

/-! ## Acts that only comment -/

/-- An act goes on after another in the context that this has left, unless it broke off. -/
theorem Act.conduct_bind {σ α β : Type} (act : Act σ α) (f : α → Act σ β) (s : σ)
    (ctx : Context) :
    ((act >>= f : Act σ β).start s).conduct ctx =
      let first := (act.start s).conduct ctx
      match first.value with
      | (.ok a, t) =>
          let second := ((f a).start t).conduct first.context
          { second with events := first.events ++ second.events }
      | (.error e, t) => { first with value := (.error e, t) } := by
  rw [Act.start_bind, Dialogue.conduct_andThen]
  rcases (act.start s).conduct ctx with ⟨events, now, r, t⟩
  cases r with
  | ok a => rfl
  | error e => simp [Dialogue.conduct]

/-- Whether the event is no message, or a comment that was not refused. -/
def Event.isAside : Event → Bool
  | .sent m (.ok ()) => m.isComment
  | .sent m (.error (.stream _)) => m.isComment
  | .sent _ _ => false
  | _ => true

/-- How an act goes that comments and does nothing else to a run: it sends all of the comments `ms`
and ends with the value, or one of them is lost and breaks it off. -/
structure Commented {σ α : Type} (ctx : Context) (ms : List Message) (value : Except Error α × σ)
    (o : Dialogue.Outcome (Except Error α × σ)) : Prop where
  context_eq : ∃ sink, o.context = { ctx with sink }
  aside : ∀ e ∈ o.events, e.isAside = true
  ended : (o.value = value ∧ o.events.delivered = ms) ∨
    ∃ fault, o.value.1 = .error (.stream fault) ∧ ∃ e ∈ o.events, e.isLost = true

namespace Commented

variable {σ α β : Type} {ctx : Context} {ms ns : List Message}

/-- A comment that is sent last is taken, or it is lost and that breaks the act off. -/
theorem of_send (ctx : Context) (audience : Audience) (text : String)
    (after : Except Error Unit → σ) :
    Commented ctx [.comment audience text] (.ok (), after (.ok ()))
      ((Dialogue.send (.comment audience text) fun outcome =>
        .done (outcome, after outcome)).conduct ctx) := by
  have hallowed : ctx.objection? (.comment audience text) = none := rfl
  rcases Context.send_of_allowed hallowed with ⟨sink, -, hsend⟩ | ⟨sink, fault, -, hsend⟩ <;>
    simp only [Dialogue.conduct, hsend, Dialogue.Outcome.after]
  · exact ⟨⟨sink, rfl⟩, List.forall_mem_singleton.2 rfl, .inl ⟨rfl, rfl⟩⟩
  · refine ⟨⟨sink, rfl⟩, List.forall_mem_singleton.2 rfl, .inr ⟨fault, rfl, ?_⟩⟩
    exact ⟨_, List.mem_singleton_self _, rfl⟩

/-- An event that sends nothing may come before. -/
theorem after {value : Except Error α × σ} {o : Dialogue.Outcome (Except Error α × σ)}
    (h : Commented ctx ms value o) {e : Event} (haside : e.isAside = true)
    (hsilent : e.delivered? = none) : Commented ctx ms value (o.after e) := by
  obtain ⟨hcontext, hasides, hended⟩ := h
  refine ⟨hcontext, List.forall_mem_cons.2 ⟨haside, hasides⟩, ?_⟩
  rcases hended with ⟨hvalue, hdelivered⟩ | ⟨fault, hvalue, d, hd, hlost⟩
  · refine .inl ⟨hvalue, ?_⟩
    show List.filterMap Event.delivered? (e :: o.events) = ms
    rw [List.filterMap_cons_none hsilent]
    exact hdelivered
  · exact .inr ⟨fault, hvalue, d, List.mem_cons_of_mem _ hd, hlost⟩

theorem bind {act : Act σ α} {f : α → Act σ β} {s t : σ} {a : α} {value : Except Error β × σ}
    (hfirst : Commented ctx ms (.ok a, t) ((act.start s).conduct ctx))
    (hsecond : ∀ sink, Commented { ctx with sink } ns value
      (((f a).start t).conduct { ctx with sink })) :
    Commented ctx (ms ++ ns) value (((act >>= f : Act σ β).start s).conduct ctx) := by
  rw [Act.conduct_bind]
  obtain ⟨⟨sink, hcontext⟩, haside, hended⟩ := hfirst
  -- the second act is there only if the first was not broken off
  rcases hended with ⟨hvalue, hdelivered⟩ | ⟨fault, hvalue, hlost⟩
  · obtain ⟨⟨last, hlast⟩, hmore, hend⟩ := hsecond sink
    simp only [hvalue, hcontext]
    refine ⟨⟨last, hlast⟩, List.forall_mem_append.2 ⟨haside, hmore⟩, ?_⟩
    rcases hend with ⟨hvalue, hnext⟩ | ⟨fault, hfault, e, he, hlost⟩
    · exact .inl ⟨hvalue, by rw [Journal.delivered_append, hdelivered, hnext]⟩
    · exact .inr ⟨fault, hfault, e, List.mem_append_right _ he, hlost⟩
  · rcases hfirst : (act.start s).conduct ctx with ⟨events, now, r, u⟩
    rw [hfirst] at hcontext haside hvalue hlost
    simp only at hvalue
    subst hvalue
    exact ⟨⟨sink, hcontext⟩, haside, .inr ⟨fault, rfl, hlost⟩⟩

end Commented

namespace Sequential

variable {config : Config} {s : State} {r : TestResult} {ctx : Context}

/-! ## Taking in a result -/

/-- What is told to everyone about a result. -/
def announcement (r : TestResult) : Message :=
  .comment .everyone s!"test {r.test}: {r.code}"

/-- What is told to the jury about a result: that its code is unknown, if it is. -/
def warnings (r : TestResult) : List Message :=
  match Verdict.ofCode r.code with
  | .ok _ => []
  | .error unknown => [.comment .jury s!"test {r.test}: {unknown.message}"]

/-- The comments on a result. -/
def remarks (r : TestResult) : List Message :=
  warnings r ++ [announcement r]

theorem commented_settleVerdict (r : TestResult) (s : State) (ctx : Context) :
    Commented ctx (warnings r) (.ok (countedAs r.code), s)
      (((settleVerdict (.ofResult r)).start s).conduct ctx) := by
  simp only [settleVerdict, TestReport.ofResult, warnings, countedAs]
  cases Verdict.ofCode r.code with
  | ok v => exact ⟨⟨ctx.sink, rfl⟩, by simp [Dialogue.conduct], .inl ⟨rfl, rfl⟩⟩
  | error unknown =>
      have hdone : ∀ sink, Commented { ctx with sink } [] (.ok Verdict.internalError, s)
          (((pure Verdict.internalError : Act State Verdict).start s).conduct { ctx with sink }) :=
        fun sink => ⟨⟨sink, rfl⟩, by simp [Dialogue.conduct], .inl ⟨rfl, rfl⟩⟩
      let warning : Message := .comment .jury s!"test {r.test}: {unknown.message}"
      have hwarned : Commented ctx [warning] (.ok (), s)
          (((Act.send warning : Act State Unit).start s).conduct ctx) :=
        Commented.of_send ctx _ _ fun _ => s
      exact hwarned.bind fun sink => hdone sink

theorem entry_eq (config : Config) (r : TestResult) :
    entry config r = ⟨r.test, r.code, countedAs r.code,
      points config (.ofResult r) (countedAs r.code)⟩ := by
  simp only [entry, points, Verdict.isPassed, TestReport.ofResult, beq_iff_eq]

/-- What is noted about a result. -/
def keptRecord (config : Config) (r : TestResult) : Record :=
  let e := entry config r
  ⟨.debug, s!"test {e.test}: {e.code} ({e.verdict.name}), {e.score} points"⟩

/-- The state once a result is announced that takes it to `next`. If the announcement is lost, the
log has the result already but nothing else has. -/
def onceAnnounced (s next : State) : Except Error Unit → State
  | .ok () => next
  | .error _ => { s with log := next.log }

/-- Keeping a result is announcing it, unless it cannot be kept. -/
theorem start_keep (r : TestResult) (s : State) :
    (keep (.ofResult r) (countedAs r.code)).start s = .note (keptRecord s.config r)
      (match advance s r with
        | .error e => .done (.error e, s)
        | .ok next => .send (announcement r) fun outcome =>
            .done (outcome, onceAnnounced s next outcome)) := by
  unfold advance keptRecord
  rw [entry_eq]
  simp only [keep, TestReport.ofResult, Act.start_bind, Act.start_get, Act.start_note,
    Dialogue.andThen]
  -- from here on it does not matter what the result is worth
  generalize points s.config _ _ = score
  congr 1
  cases JudgeLog.addScores s.score score with
  | none => rfl
  | some total =>
      simp only [Act.start_bind, Act.start_ofExcept, Dialogue.andThen]
      cases s.log.push ⟨r.test, r.code, countedAs r.code, score⟩ with
      | error e => rfl
      | ok log =>
          simp only [Act.start_set, Act.start_send, Dialogue.andThen, Except.map]
          congr 1
          funext outcome
          cases outcome <;> rfl

/-- A result that can be kept is announced. -/
theorem commented_keep_of_ok {next : State} (h : advance s r = .ok next) (ctx : Context) :
    Commented ctx [announcement r] (.ok (), next)
      (((keep (.ofResult r) (countedAs r.code)).start s).conduct ctx) := by
  rw [start_keep, h]
  have hsent := Commented.of_send ctx .everyone s!"test {r.test}: {r.code}" (onceAnnounced s next)
  exact hsent.after rfl rfl

/-- Of a result that cannot be kept nothing is said. -/
theorem commented_keep_of_error {e : Error} (h : advance s r = .error e) (ctx : Context) :
    Commented ctx [] (.error e, s)
      (((keep (.ofResult r) (countedAs r.code)).start s).conduct ctx) := by
  rw [start_keep, h]
  exact ⟨⟨ctx.sink, rfl⟩, List.forall_mem_singleton.2 rfl, .inl ⟨rfl, rfl⟩⟩

/-- A result that can be kept is commented on and leaves the state advanced. One that cannot be kept
breaks the hook off, and so does a comment that is lost. -/
theorem takeIn_cases (r : TestResult) (s : State) (ctx : Context) :
    let o := ((takeIn (.ofResult r)).start s).conduct ctx
    (∃ sink, o.context = { ctx with sink }) ∧ (∀ e ∈ o.events, e.isAside = true) ∧
      ((∃ next, advance s r = .ok next ∧ o.value = (.ok (), next) ∧
          o.events.delivered = remarks r) ∨
        ∃ e, o.value.1 = .error e ∧ (advance s r = .error e ∨
          (∃ fault, e = .stream fault) ∧ ∃ d ∈ o.events, d.isLost = true)) := by
  intro o
  have hverdict := commented_settleVerdict r s ctx
  cases hadvance : advance s r with
  | ok next =>
      obtain ⟨hcontext, haside, hended⟩ : Commented ctx (remarks r) (.ok (), next) o :=
        hverdict.bind fun sink => commented_keep_of_ok hadvance { ctx with sink }
      refine ⟨hcontext, haside, ?_⟩
      rcases hended with ⟨hvalue, hdelivered⟩ | ⟨fault, hvalue, hlost⟩
      · exact .inl ⟨next, rfl, hvalue, hdelivered⟩
      · exact .inr ⟨_, hvalue, .inr ⟨⟨fault, rfl⟩, hlost⟩⟩
  | error e =>
      obtain ⟨hcontext, haside, hended⟩ : Commented ctx (warnings r ++ []) (.error e, s) o :=
        hverdict.bind fun sink => commented_keep_of_error hadvance { ctx with sink }
      refine ⟨hcontext, haside, .inr ?_⟩
      rcases hended with ⟨hvalue, -⟩ | ⟨fault, hvalue, hlost⟩
      · exact ⟨e, congrArg Prod.fst hvalue, .inl rfl⟩
      · exact ⟨_, hvalue, .inr ⟨⟨fault, rfl⟩, hlost⟩⟩

/-! ## Going on -/

/-- The report of the tally so far. -/
def reportOf (s : State) : Report :=
  ⟨s.score, s.allPassed, s.log⟩

/-- What makes the run go on: the request for the next test, or the report if none is left. -/
def onward (s : State) : Message :=
  match s.remaining with
  | test :: _ => .run test
  | [] => .finish (reportOf s)

/-- What is left of the state then: the log goes with the report. -/
def handedOver (s : State) : State :=
  match s.remaining with
  | _ :: _ => s
  | [] => { s with log := JudgeLog.empty s.config.name }

theorem conduct_proceed (s : State) (ctx : Context) :
    (proceed.start s).conduct ctx =
      ⟨[.sent (onward s) (ctx.send (onward s)).2], (ctx.send (onward s)).1,
        ((ctx.send (onward s)).2, handedOver s)⟩ := by
  unfold proceed onward handedOver
  cases h : s.remaining <;>
    simp [h, reportOf, Act.start_bind, Dialogue.andThen, Dialogue.conduct, Dialogue.Outcome.after]

/-! ## Making the plan -/

/-- Making the plan sends nothing. -/
theorem conduct_prepare (s : State) (ctx : Context) :
    ∃ events : Journal, (∀ d ∈ events, d.isAside = true) ∧ events.delivered = [] ∧
      (prepare.start s).conduct ctx = ⟨events, ctx,
        match plan s.config ctx.count with
        | .error e => (.error e, s)
        | .ok tests => (.ok (), { s with remaining := tests })⟩ := by
  unfold prepare
  cases h : plan s.config ctx.count with
  | error e =>
      refine ⟨[.looked ctx.view], List.forall_mem_singleton.2 rfl, rfl, ?_⟩
      simp [h, Act.start_bind, Dialogue.andThen, Dialogue.conduct, Dialogue.Outcome.after,
        Context.view]
  | ok tests =>
      let planned : Record := ⟨.info, s!"sequential valuer: {tests.length} tests planned"⟩
      refine ⟨[.looked ctx.view, .noted planned],
        List.forall_mem_cons.2 ⟨rfl, List.forall_mem_singleton.2 rfl⟩, rfl, ?_⟩
      simp [h, Act.start_bind, Dialogue.andThen, Dialogue.conduct, Dialogue.Outcome.after,
        Context.view, planned]

/-! ## Visits -/

theorem visit_init (s : State) (ctx : Context) :
    ∃ events : Journal, (∀ d ∈ events, d.isAside = true) ∧ events.delivered = [] ∧
      Session.visit strategy .init ctx s =
        match plan s.config ctx.count with
        | .error e => ⟨events, ctx, s, .error e⟩
        | .ok tests => ⟨events, ctx, { s with remaining := tests }, ctx.judge (.ok ())⟩ := by
  obtain ⟨events, haside, hdelivered, hconduct⟩ := conduct_prepare s ctx
  have hevents : (Session.visit strategy .init ctx s).events =
      let o := (prepare.start s).conduct ctx
      .entered .init ctx.view :: (o.events ++ [.returned o.value.1]) := rfl
  rw [hconduct] at hevents
  refine ⟨(Session.visit strategy .init ctx s).events, ?_, ?_, ?_⟩
  · rw [hevents]
    refine List.forall_mem_cons.2 ⟨rfl, List.forall_mem_append.2 ⟨haside, ?_⟩⟩
    exact List.forall_mem_singleton.2 rfl
  · rw [hevents]
    refine (Journal.delivered_append events _).trans ?_
    rw [hdelivered]
    rfl
  · simp only [Session.visit, Strategy.respond, strategy, hconduct]
    cases plan s.config ctx.count <;> rfl

/-- A visit that goes on after some events. -/
def goingOn (acts : Journal) (ctx : Context) (s : State) : Session.Visit State where
  events := acts ++ [.sent (onward s) (ctx.send (onward s)).2, .returned (ctx.send (onward s)).2]
  context := (ctx.send (onward s)).1
  state := handedOver s
  outcome := (ctx.send (onward s)).1.judge (ctx.send (onward s)).2

theorem visit_begin (ctx : Context) (s : State) :
    Session.visit strategy .begin ctx s = goingOn [.entered .begin ctx.view] ctx s := by
  have hconduct := conduct_proceed s ctx
  simp only [Session.visit, Strategy.respond, strategy, hconduct, goingOn]
  rfl

/-- A hook that is told a result comments on it and goes on, unless the result cannot be kept or a
comment is lost. -/
theorem visit_testEnd_cases (r : TestResult) (s : State) (ctx : Context) :
    let v := Session.visit strategy (.testEnd (.ofResult r)) ctx s
    ∃ acts : Journal, (∀ d ∈ acts, d.isAside = true) ∧
      ((∃ next sink, advance s r = .ok next ∧ acts.delivered = remarks r ∧
          v = goingOn acts { ctx with sink } next) ∨
        ∃ e, v.outcome = .error e ∧ v.events = acts ∧
          (advance s r = .error e ∨
            (∃ fault, e = .stream fault) ∧ ∃ d ∈ acts, d.isLost = true)) := by
  intro v
  have hv : v = Session.visit strategy (.testEnd (.ofResult r)) ctx s := rfl
  simp only [Session.visit, Strategy.respond, strategy, Act.conduct_bind] at hv
  have htaken := takeIn_cases r s ctx
  rcases ho : ((takeIn (.ofResult r)).start s).conduct ctx with ⟨acts, now, outcome, t⟩
  rw [ho] at hv htaken
  obtain ⟨⟨sink, hcontext⟩, haside, hended⟩ := htaken
  simp only at hcontext haside hended
  have hopened : ∀ d ∈ .entered (.testEnd (.ofResult r)) ctx.view :: acts, d.isAside = true :=
    List.forall_mem_cons.2 ⟨rfl, haside⟩
  rcases hended with ⟨next, hadvance, hvalue, hdelivered⟩ | ⟨e, rfl, hcause⟩
  · cases hvalue
    simp only [hcontext, conduct_proceed] at hv
    refine ⟨_, hopened, .inl ⟨_, sink, hadvance, hdelivered, ?_⟩⟩
    rw [hv, goingOn, List.cons_append, List.append_assoc]
    rfl
  · simp only at hv
    refine ⟨v.events, ?_, .inr ⟨e, congrArg (·.outcome) hv, rfl, ?_⟩⟩
    · rw [hv]
      exact List.forall_mem_append.2 ⟨hopened, List.forall_mem_singleton.2 rfl⟩
    · refine hcause.imp_right (And.imp_right fun ⟨d, hd, hlost⟩ => ⟨d, ?_, hlost⟩)
      rw [hv]
      exact List.mem_cons_of_mem _ (List.mem_append_left _ hd)

end Sequential

end Valuer
