import Valuer.Session

set_option autoImplicit false

/-! # Scripted strategies

A strategy that does what a list says, whatever it hears. A script gives a list of actions for each
hook; each action is one use of the context or of the script's own judge log. An action that fails
ends its hook with the error, unless it is marked to be ignored. Everything that was done is kept in
a trace, with what it gave and how the run looked afterwards, so a script can bring a run into any
state, fair or foul, and show what it saw there. -/

namespace Valuer.Script

/-- What a script can do. -/
inductive Deed where
  | select (test : UInt32)
  /-- Sends the report, with the total of the log unless a score is given, and gives the log
  away: from here on it is empty and has no name. -/
  | finish (score : Option UInt32) (full : Bool)
  | comment (audience : Audience) (text : String)
  /-- Complains. -/
  | fail (text : String)
  | push (entry : LogEntry)
  /-- Logs the test that has just ended, under its own verdict unless one is given. -/
  | log (verdict : Option Verdict)
  /-- Looks at what was passed at launch. -/
  | look
  deriving DecidableEq, Repr

/-- One action of a script. -/
structure Action where
  deed : Deed
  /-- Whether an error of this action is ignored. -/
  swallow : Bool := false
  deriving DecidableEq, Repr

/-- What an action gives when it does not fail. -/
inductive Answer where
  | done
  | logged (entry : LogEntry)
  | seen (count : Option UInt32) (seed : Option (List UInt8))
  deriving DecidableEq, Repr

/-- One line of a trace. -/
inductive Trace where
  /-- The hook of a test was called. -/
  | reported (report : TestReport) (view : View)
  /-- An action was done in a hook. -/
  | acted (hook : Hook) (deed : Deed) (answer : Except Error Answer) (view : View)

/-- What a script keeps between hooks. -/
structure State where
  log : JudgeLog
  /-- The lists for the tests that have not ended yet. -/
  remaining : List (List Action)
  /-- What was done, the last line first. -/
  trace : List Trace := []

/-- Adds a line to the trace. -/
def State.record (s : State) (t : Trace) : State :=
  { s with trace := t :: s.trace }

/-- The log entry of the test that has just ended. -/
def entryOf (report : Option TestReport) (verdict : Option Verdict) : Except Error LogEntry :=
  match report, verdict with
  | none, _ => .error (.complaint (.other "no test has ended"))
  | some report, some verdict => .ok (report.entryAs verdict)
  | some report, none => report.entry.mapError fun u => .complaint (.other u.message)

/-- Pushes an entry to the script's log. -/
def pushEntry (e : LogEntry) : Act State Unit := do
  let log ← Act.ofExcept ((← get).log.push e)
  modify fun s => { s with log }

/-- The test that a hook is about. -/
def reportOf : Hook → Option TestReport
  | .testEnd report => some report
  | _ => none

/-- Does what an action says. -/
def Deed.act (hook : Hook) : Deed → Act State Answer
  | .select test => do
      Act.send (.run test)
      return .done
  | .finish score full => do
      let log := (← get).log
      let score ← Act.ofExcept ((score.map .ok).getD log.totalScore)
      modify fun s => { s with log := JudgeLog.empty "" }
      Act.send (.finish ⟨score, full, log⟩)
      return .done
  | .comment audience text => do
      Act.send (.comment audience text)
      return .done
  | .fail text => throw (.complaint (.other text))
  | .push entry => do
      pushEntry entry
      return .done
  | .log verdict => do
      let entry ← Act.ofExcept (entryOf (reportOf hook) verdict)
      pushEntry entry
      return .logged entry
  | .look => do
      let view ← Act.look
      return .seen view.count view.seed

/-- Does the actions of a hook in order, up to the first error that is not ignored. -/
def perform (hook : Hook) : List Action → Act State Unit
  | [] => pure ()
  | action :: rest => do
      let answer ← Act.attempt (action.deed.act hook)
      let view ← Act.look
      modify fun s => s.record (.acted hook action.deed answer view)
      match answer with
      | .ok _ => perform hook rest
      | .error e => if action.swallow then perform hook rest else throw e

/-- Takes the list of the test that has just ended. -/
def takeNext : Act State (List Action) := do
  let s ← get
  set { s with remaining := s.remaining.tail }
  return s.remaining.headD []

/-- The hook of a test: notes the report, then does the test's list. -/
def testEnd (report : TestReport) : Act State Unit := do
  let view ← Act.look
  modify fun s => s.record (.reported report view)
  perform (.testEnd report) (← takeNext)

end Script

/-- Actions for each hook; the k-th test that ends has the k-th list. -/
structure Script where
  /-- The name of the script's judge log. -/
  name : String := "main"
  init : List Script.Action := []
  begin : List Script.Action := []
  onTestEnd : List (List Script.Action) := []
  deriving DecidableEq, Repr

namespace Script

/-- The strategy that follows a script. -/
def strategy (script : Script) : Strategy State where
  init := perform .init script.init
  begin := perform .begin script.begin
  onTestEnd := testEnd

/-- The state a script starts from. -/
def initial (script : Script) : State where
  log := JudgeLog.empty script.name
  remaining := script.onTestEnd

end Valuer.Script
