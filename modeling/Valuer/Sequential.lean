import Valuer.Config
import Valuer.Session

set_option autoImplicit false

/-! # The sequential strategy

Runs the planned tests one by one and sums the points of those that are passed. Each result is
logged and announced; a code that belongs to no verdict counts as an internal error and is told to
the jury. With `stopOnFailure` the first test that is not passed ends the plan. The report is full
if every planned test was run and passed. -/

namespace Valuer.Sequential

/-- How far the strategy has come. -/
structure State where
  config : Config
  /-- The tests still to be reported on, the one asked for last in front. -/
  remaining : List UInt32 := []
  log : JudgeLog
  score : UInt32 := 0
  allPassed : Bool := true

/-- The state before a run. -/
def initial (config : Config) : State where
  config := config
  log := JudgeLog.empty config.name

/-- All tests of a problem. -/
def allTests (count : UInt32) : List UInt32 :=
  (List.range' 1 count.toNat).map UInt32.ofNat

/-- The tests to run: those of the configuration, or else all of the problem. None of them may be
beyond the last test, where that is known. -/
def plan (config : Config) (count : Option UInt32) : Except Error (List UInt32) :=
  match config.tests, count with
  | none, none => .error (.complaint .noPlan)
  | none, some count => .ok (allTests count)
  | some tests, none => .ok tests
  | some tests, some count =>
      match tests.find? (count < ·) with
      | some test => .error (.complaint (.planBeyond test count))
      | none => .ok tests

/-- Asks for the next test, or sends the report when none is left. The log goes with the report. -/
def proceed : Act State Unit := do
  let s ← get
  match s.remaining with
  | test :: _ => Act.send (.run test)
  | [] =>
      set { s with log := JudgeLog.empty s.config.name }
      Act.send (.finish ⟨s.score, s.allPassed, s.log⟩)

/-- Makes the plan. -/
def prepare : Act State Unit := do
  let view ← Act.look
  let tests ← Act.ofExcept (plan (← get).config view.count)
  modify fun s => { s with remaining := tests }
  Act.note .info s!"sequential valuer: {tests.length} tests planned"

/-- The verdict that a result counts as. An unknown code is told to the jury first. -/
def settleVerdict (report : TestReport) : Act State Verdict :=
  match report.verdict with
  | .ok v => pure v
  | .error unknown => do
      Act.send (.comment .jury s!"test {report.test}: {unknown.message}")
      return .internalError

/-- The points for a result under a verdict. -/
def points (config : Config) (report : TestReport) (v : Verdict) : UInt32 :=
  if v.isPassed then config.testScore.getD report.score else 0

/-- The tests that are left after one more result. -/
def remainingAfter (s : State) (passed : Bool) : List UInt32 :=
  if !passed && s.config.stopOnFailure then [] else s.remaining.tail

/-- Keeps a result under a verdict: the running total, the log, the announcement. The total is
checked before anything is kept. -/
def keep (report : TestReport) (v : Verdict) : Act State Unit := do
  let s ← get
  let score := points s.config report v
  Act.note .debug s!"test {report.test}: {report.code} ({v.name}), {score} points"
  let some total := JudgeLog.addScores s.score score
    | throw (.complaint (.scoreOverflows report.test s.score score))
  let log ← Act.ofExcept (s.log.push ⟨report.test, report.code, v, score⟩)
  set { s with log }
  Act.send (.comment .everyone s!"test {report.test}: {report.code}")
  set { s with
    log
    score := total
    allPassed := s.allPassed && v.isPassed
    remaining := remainingAfter s v.isPassed }

/-- Takes in a result: settles its verdict and keeps it. -/
def takeIn (report : TestReport) : Act State Unit := do
  keep report (← settleVerdict report)

/-- Runs the planned tests one by one. -/
def strategy : Strategy State where
  init := prepare
  begin := proceed
  onTestEnd report := do
    takeIn report
    proceed

end Valuer.Sequential
