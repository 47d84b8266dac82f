import Valuer.Journal
import Valuer.Text.Quoted

set_option autoImplicit false

/-! # The log of a run

The records that a journal stands for. A message is told before it is written, so one that the sink
does not take is told all the same; a message that was refused is a warning instead. Messages are
shown on one line as named groups of fields, with their texts quoted. -/

namespace Valuer

/-- A named group of fields on one line. -/
def shown (name : String) (fields : List (String × String)) : String :=
  let body := ", ".intercalate (fields.map fun f => f.1 ++ ": " ++ f.2)
  name ++ " \x7b " ++ body ++ " \x7d"

/-- How a verdict shows itself in a record. -/
def Verdict.shown : Verdict → String
  | .rejected => "Rejected"
  | .accepted => "Accepted"
  | .internalError => "InternalError"
  | .skipped => "Skipped"

/-- How an audience shows itself in a record. -/
def Audience.shown : Audience → String
  | .everyone => "Public"
  | .jury => "Private"

/-- How a log entry shows itself in a record. -/
def LogEntry.shown (e : LogEntry) : String :=
  Valuer.shown "JudgeLogEntry"
    [("test_id", toString e.test), ("status_code", Text.quotedText e.code),
      ("status_kind", e.verdict.shown), ("score", toString e.score)]

/-- How a judge log shows itself in a record. -/
def JudgeLog.shown (log : JudgeLog) : String :=
  let entries := ", ".intercalate (log.entries.map LogEntry.shown)
  Valuer.shown "JudgeLog" [("name", Text.quotedText log.name), ("entries", "[" ++ entries ++ "]")]

/-- How a report shows itself in a record. -/
def Report.shown (r : Report) : String :=
  Valuer.shown "FinishReport"
    [("score", toString r.score), ("treat_as_full", toString r.full), ("judge_log", r.log.shown)]

/-- How a message shows itself in a record. -/
def Message.shown : Message → String
  | .run test => s!"RunTest({test})"
  | .comment audience text =>
      Valuer.shown "Comment" [("audience", audience.shown), ("text", Text.quotedText text)]
  | .finish report => s!"Finish({report.shown})"

/-- How a result shows itself in a record. -/
def TestResult.shown (r : TestResult) : String :=
  Valuer.shown "TestResultMessage"
    [("test_id", toString r.test), ("status_code", Text.quotedText r.code),
      ("score", toString r.score)]

/-- The record of a change of phase. -/
def Phase.record (old new : Phase) : Record :=
  ⟨.info, s!"valuer: {old.name} -> {new.name}"⟩

namespace Event

/-- The records of a message that was sent, or refused. -/
def sentRecords (m : Message) : Except Error Unit → List Record
  | .error (.protocol v) => [⟨.warn, s!"protocol violation: {v.message}"⟩]
  | .error _ => [⟨.debug, s!"-> {m.shown}"⟩]
  | .ok () =>
      ⟨.debug, s!"-> {m.shown}"⟩ ::
        match m with
        | .finish _ => [Phase.record .running .finished]
        | _ => []

/-- The records of one event. -/
def records : Event → List Record
  | .moved old new => [Phase.record old new]
  | .entered _ _ => []
  | .looked _ => []
  | .sent m outcome => sentRecords m outcome
  | .noted r => [r]
  | .returned _ => []
  | .heard (some (.ok r)) => [⟨.debug, s!"<- {r.shown}"⟩]
  | .heard _ => []
  | .concluded r =>
      let entries := r.log.entries.length
      [⟨.info, s!"valuer finished: score {r.score}, full {r.full}, {entries} log entries"⟩]

end Event

/-- The records of a journal, in order. -/
def Journal.records (journal : Journal) : List Record :=
  journal.flatMap Event.records

end Valuer
