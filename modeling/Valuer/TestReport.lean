import Valuer.JudgeLog
import Valuer.Wire.Result

set_option autoImplicit false

/-! # Test reports

A result as a strategy sees it: with the verdict of its status code, or the fact that the code
belongs to none. An unknown code is never taken for a verdict on the way; what to do about it is the
strategy's choice. -/

namespace Valuer

/-- The result of one test together with what its code means. -/
structure TestReport where
  test : UInt32
  code : String
  verdict : Except UnknownStatus Verdict
  score : UInt32

namespace TestReport

/-- The report of a result. -/
def ofResult (r : TestResult) : TestReport where
  test := r.test
  code := r.code
  verdict := Verdict.ofCode r.code
  score := r.score

/-- Whether the solution is known to have passed the test. -/
def isPassed (r : TestReport) : Bool :=
  match r.verdict with
  | .ok v => v.isPassed
  | .error _ => false

/-- The log entry of the test under a verdict of the strategy's choice. -/
def entryAs (r : TestReport) (v : Verdict) : LogEntry where
  test := r.test
  code := r.code
  verdict := v
  score := r.score

/-- The log entry of the test, if its code is known. -/
def entry (r : TestReport) : Except UnknownStatus LogEntry :=
  r.verdict.map r.entryAs

end TestReport

end Valuer
