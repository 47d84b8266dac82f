set_option autoImplicit false

/-! # The phases of a run and what breaks its rules

A run passes through four phases in a fixed order. A violation is a call or a line that does not
fit the moment: it names the moment and what was asked, and its text is what the run reports. -/

namespace Valuer

/-- Where a run stands. -/
inductive Phase where
  | notStarted
  /-- The strategy may prepare itself, but may not ask for tests yet. -/
  | initialized
  /-- Tests may be asked for, one at a time. -/
  | running
  /-- The report was sent. -/
  | finished
  deriving DecidableEq, Repr

/-- The name of a phase in messages. -/
def Phase.name : Phase → String
  | .notStarted => "NotStarted"
  | .initialized => "Initialized"
  | .running => "Running"
  | .finished => "Finished"

/-- What a strategy or a judge did against the rules of a run. -/
inductive Violation where
  /-- A test was asked for in a phase that does not allow it. -/
  | selectOutside (test : UInt32) (phase : Phase)
  /-- A test was asked for while the result of another was still awaited. -/
  | selectWhilePending (test pending : UInt32)
  /-- Test zero was asked for. -/
  | testZero
  /-- A test beyond the last one of the problem was asked for. -/
  | testBeyond (test count : UInt32)
  /-- The report was sent in a phase that does not allow it. -/
  | finishOutside (phase : Phase)
  /-- The report was sent while a result was still awaited. -/
  | finishWhilePending (pending : UInt32)
  /-- A hook returned with no test awaited and no report sent. -/
  | stalled
  /-- The judge sent the result of a test that was not awaited. -/
  | wrongResult (test pending : UInt32)
  deriving DecidableEq, Repr

/-- What is told about a violation. -/
def Violation.message : Violation → String
  | .selectOutside test phase => s!"select_next_test({test}) called while {phase.name}"
  | .selectWhilePending test pending =>
      s!"test {test} requested while test {pending} is still running"
  | .testZero => "test ids start from 1"
  | .testBeyond test count => s!"test {test} requested, but problem has only {count} tests"
  | .finishOutside phase => s!"finish called while {phase.name}"
  | .finishWhilePending pending => s!"finish called while test {pending} is still running"
  | .stalled => "valuer neither requested a test nor finished"
  | .wrongResult test pending => s!"got result of test {test} while waiting for test {pending}"

end Valuer
