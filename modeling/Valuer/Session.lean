import Valuer.Dialogue

set_option autoImplicit false

/-! # Sessions: a strategy against a judge

A session calls `init` once, `begin` once, and then, as long as a test is awaited, reads one result
and calls `onTestEnd` with it. After every hook it stops if the hook failed or a message was
refused; after `begin` and each result it stops with the report if that was sent, and without one if
no test is awaited. It reads the judge's stream only while a test is awaited, one thing at a time,
so a session can be driven by hand (`start`, `hear`) as well as over a whole stream (`follow`). -/

namespace Valuer

/-- How to decide which tests to run and what they are worth. A hook that is left out does
nothing; a strategy that leaves out both `begin` and `onTestEnd` asks for no test and sends no
report, which ends its run. -/
structure Strategy (σ : Type) where
  init : Act σ Unit := pure ()
  begin : Act σ Unit := pure ()
  onTestEnd : TestReport → Act σ Unit := fun _ => pure ()

/-- What a strategy does in a hook. -/
def Strategy.respond {σ : Type} (S : Strategy σ) : Hook → Act σ Unit
  | .init => S.init
  | .begin => S.begin
  | .testEnd report => S.onTestEnd report

/-- Where a session stands between hooks. -/
inductive Status where
  | awaiting (test : UInt32)
  | ended (result : Except Error Report)

/-- Where a session stands after a hook that went well: the report ends it, then a test is awaited,
then it is stalled. -/
def Context.status (ctx : Context) : Status :=
  match ctx.report, ctx.pending with
  | some report, _ => .ended (.ok report)
  | none, some test => .awaiting test
  | none, none => .ended (.error (.protocol .stalled))

/-- A strategy in the middle of a run. -/
structure Session (σ : Type) where
  context : Context
  /-- The strategy's own state. -/
  state : σ
  status : Status

namespace Session

variable {σ : Type}

/-- The result of a session. One that still awaits a test has lost its judge. -/
def result (s : Session σ) : Except Error Report :=
  match s.status with
  | .ended result => result
  | .awaiting test => .error (.unexpectedEnd (.result test))

/-- What a hook leaves. -/
structure Visit (σ : Type) where
  events : Journal
  context : Context
  state : σ
  /-- Whether the run goes on. -/
  outcome : Except Error Unit

/-- Calls a hook. -/
def visit (S : Strategy σ) (hook : Hook) (ctx : Context) (s : σ) : Visit σ :=
  let o := ((S.respond hook).start s).conduct ctx
  { events := .entered hook ctx.view :: (o.events ++ [.returned o.value.1])
    context := o.context
    state := o.value.2
    outcome := o.context.judge o.value.1 }

/-- The session after a hook that may have asked for a test or sent the report. -/
def settle (v : Visit σ) : Journal × Session σ :=
  match v.outcome with
  | .error e => (v.events, ⟨v.context, v.state, .ended (.error e)⟩)
  | .ok () =>
      match v.context.status with
      | .ended (.ok report) =>
          (v.events ++ [.concluded report], ⟨v.context, v.state, .ended (.ok report)⟩)
      | status => (v.events, ⟨v.context, v.state, status⟩)

/-- The context of a new phase, and the event that tells it. -/
def move (ctx : Context) (phase : Phase) : Event × Context :=
  (.moved ctx.phase phase, ctx.enter phase)

/-- Begins a session: both preparing hooks. -/
def start (S : Strategy σ) (ctx : Context) (s : σ) : Journal × Session σ :=
  let (initialized, ctx) := move ctx .initialized
  let prepared := visit S .init ctx s
  match prepared.outcome with
  | .error e =>
      (initialized :: prepared.events, ⟨prepared.context, prepared.state, .ended (.error e)⟩)
  | .ok () =>
      let (running, ctx) := move prepared.context .running
      let (events, session) := settle (visit S .begin ctx prepared.state)
      (initialized :: (prepared.events ++ running :: events), session)

/-- Ends a session that awaits a test. -/
def fail (session : Session σ) (e : Error) : Session σ :=
  { session with status := .ended (.error e) }

/-- What a session that awaits a test does with the next thing its judge says, or with the end of
the stream. -/
def hear (S : Strategy σ) (session : Session σ) (pending : UInt32)
    (heard : Option (Except Error TestResult)) : Journal × Session σ :=
  match heard with
  | none => ([.heard heard], session.fail (.unexpectedEnd (.result pending)))
  | some (.error e) => ([.heard heard], session.fail e)
  | some (.ok r) =>
      if r.test = pending then
        let ctx := { session.context with pending := none }
        let (events, next) := settle (visit S (.testEnd (.ofResult r)) ctx session.state)
        (.heard heard :: events, next)
      else ([.heard heard], session.fail (.protocol (.wrongResult r.test pending)))

/-- Carries a session on over all that its judge says. -/
def follow (S : Strategy σ) (session : Session σ) :
    List (Except Error TestResult) → Journal × Session σ
  | [] =>
      match session.status with
      | .ended _ => ([], session)
      | .awaiting test => hear S session test none
  | r :: rest =>
      match session.status with
      | .ended _ => ([], session)
      | .awaiting test =>
          let (events, next) := hear S session test (some r)
          let (later, last) := follow S next rest
          (events ++ later, last)

end Session

/-! ## Whole runs -/

/-- What a run leaves. -/
structure Run (σ : Type) where
  journal : Journal
  context : Context
  state : σ
  result : Except Error Report

namespace Strategy

variable {σ : Type}

/-- Runs a strategy in a context that is not started yet, against all that a judge says. -/
def play (S : Strategy σ) (ctx : Context) (s : σ) (heard : List (Except Error TestResult)) :
    Run σ :=
  let (opening, session) := Session.start S ctx s
  let (later, last) := session.follow S heard
  { journal := opening ++ later
    context := last.context
    state := last.state
    result := last.result }

/-- Runs a strategy over the bytes of a judge's stream. -/
def run (S : Strategy σ) (ctx : Context) (s : σ) (stream : List UInt8) : Run σ :=
  S.play ctx s (TestResult.readAll (Text.lines stream))

end Strategy

end Valuer
