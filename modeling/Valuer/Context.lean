import Valuer.Sink
import Valuer.Wire.Message

set_option autoImplicit false

/-! # The context of a run

All that a strategy can act on: it sends messages through the context, and the context decides
whether a message fits the moment. One test may be asked for at a time, only while the run is
running, and only one that exists; the report may be sent once, with no test awaited; a comment fits
always. A message that does not fit is refused before anything is written, and the first refusal is
remembered, so that a strategy that ignores it is still stopped. -/

namespace Valuer

/-- What a strategy can see of a run. -/
structure View where
  /-- The number of tests of the problem, if the judge knows it. -/
  count : Option UInt32
  /-- The payload that was passed at launch, if any. -/
  seed : Option (List UInt8)
  phase : Phase
  /-- The test whose result is awaited. -/
  pending : Option UInt32
  deriving DecidableEq, Repr

/-- The state of a run behind the strategy. -/
structure Context where
  count : Option UInt32 := none
  seed : Option (List UInt8) := none
  phase : Phase := .notStarted
  pending : Option UInt32 := none
  /-- The report, once it was sent. -/
  report : Option Report := none
  /-- The first message that was refused and why. -/
  violation : Option Violation := none
  sink : Sink := {}
  deriving DecidableEq

namespace Context

/-- What a strategy can see of the context. -/
def view (ctx : Context) : View where
  count := ctx.count
  seed := ctx.seed
  phase := ctx.phase
  pending := ctx.pending

/-- The context in another phase. -/
def enter (ctx : Context) (phase : Phase) : Context :=
  { ctx with phase }

/-- What speaks against asking for a test. The phase is looked at first, then the test awaited,
then the number asked for. -/
def runObjection? (ctx : Context) (test : UInt32) : Option Violation :=
  if ctx.phase ≠ .running then some (.selectOutside test ctx.phase)
  else match ctx.pending with
    | some pending => some (.selectWhilePending test pending)
    | none =>
        if test = 0 then some .testZero
        else match ctx.count with
          | some count => if count < test then some (.testBeyond test count) else none
          | none => none

/-- What speaks against sending the report. -/
def finishObjection? (ctx : Context) : Option Violation :=
  if ctx.phase ≠ .running then some (.finishOutside ctx.phase)
  else ctx.pending.map .finishWhilePending

/-- What speaks against sending a message now. -/
def objection? (ctx : Context) : Message → Option Violation
  | .run test => ctx.runObjection? test
  | .comment _ _ => none
  | .finish _ => ctx.finishObjection?

/-- The context after a message was written. -/
def accept (ctx : Context) : Message → Context
  | .run test => { ctx with pending := some test }
  | .comment _ _ => ctx
  | .finish report => { ctx with phase := .finished, report := some report }

/-- The context after a message was refused: only the first refusal is kept. -/
def refuse (ctx : Context) (v : Violation) : Context :=
  { ctx with violation := some (ctx.violation.getD v) }

/-- Writes a message to the sink. If not all of it fits, nothing but the sink changes. -/
def deliver (ctx : Context) (m : Message) : Context × Except Error Unit :=
  match ctx.sink.write m.encode with
  | (sink, .ok ()) => ({ ctx with sink }.accept m, .ok ())
  | (sink, .error e) => ({ ctx with sink }, .error e)

/-- Sends a message, unless something speaks against it. -/
def send (ctx : Context) (m : Message) : Context × Except Error Unit :=
  match ctx.objection? m with
  | some v => (ctx.refuse v, .error (.protocol v))
  | none => ctx.deliver m

/-- How a hook ended for the run: by its own error, or else by the first refusal. -/
def judge (ctx : Context) (outcome : Except Error Unit) : Except Error Unit :=
  match outcome, ctx.violation with
  | .error e, _ => .error e
  | .ok (), some v => .error (.protocol v)
  | .ok (), none => .ok ()

end Context

end Valuer
