import Valuer.Context
import Valuer.Record
import Valuer.TestReport

set_option autoImplicit false

/-! # The journal of a run

Everything that happens in a run, in order: the phases it passes, the hooks it calls and what they
do, what it hears from the judge. A journal is the full account of a run: two runs with the same
journal cannot be told apart. -/

namespace Valuer

/-- The occasions on which a run calls its strategy. -/
inductive Hook where
  /-- Once, before any test may be asked for. -/
  | init
  /-- Once; from here on tests may be asked for. -/
  | begin
  /-- For the result of each test that was asked for. -/
  | testEnd (report : TestReport)

/-- One thing that happens in a run. -/
inductive Event where
  | moved (old new : Phase)
  /-- A hook was called, and what it could see then. -/
  | entered (hook : Hook) (view : View)
  /-- The strategy looked at the run. -/
  | looked (view : View)
  /-- The strategy sent a message, and how that went. -/
  | sent (message : Message) (outcome : Except Error Unit)
  | noted (record : Record)
  /-- The hook returned. -/
  | returned (outcome : Except Error Unit)
  /-- One read of the judge's stream; nothing at its end. -/
  | heard (result : Option (Except Error TestResult))
  /-- The run ended with its report. -/
  | concluded (report : Report)

/-- The events of a run in order. -/
abbrev Journal := List Event

end Valuer
