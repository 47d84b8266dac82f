import Valuer.JudgeLog
import Valuer.Text.Line
import Valuer.Text.Numeral

set_option autoImplicit false

/-! # Messages: what the valuer sends

A request to run a test, a comment, or the final report. A request and a comment take one line; a
report takes a block of lines that starts with its score and holds its judge log:

    RUN <test>
    COMMENT PUBLIC|PRIVATE <text>
    FINISH <score> 0|1
    JUDGE_LOG <name in hex> <number of entries>
    ENTRY <test> <status code> <name of the verdict> <score>
    END

The words of a line are separated by single spaces. A comment never spans lines: its line breaks are
written as spaces. The log name is written in hex, so that any name stays one word. `readAll` reads
a stream of such messages back, going on after each line or block it does not understand; `fetch`
takes one of them off the bytes of a stream. -/

namespace Valuer

/-- What a valuer finally reports. -/
structure Report where
  score : UInt32
  /-- Whether the score is the best one the problem allows. -/
  full : Bool
  log : JudgeLog
  deriving DecidableEq

/-- Who may see a comment. -/
inductive Audience where
  /-- Contestants too. -/
  | everyone
  /-- Only those who run the contest. -/
  | jury
  deriving DecidableEq, Repr

/-- The word of an audience in a stream. -/
def Audience.word : Audience → String
  | .everyone => "PUBLIC"
  | .jury => "PRIVATE"

/-- What a valuer sends to the judge. -/
inductive Message where
  | run (test : UInt32)
  | comment (audience : Audience) (text : String)
  | finish (report : Report)
  deriving DecidableEq

/-! ## Writing -/

/-- A text on one line: each line break becomes a space. -/
def oneLine (text : String) : String :=
  String.ofList (text.toList.map fun c => if c == '\n' || c == '\r' then ' ' else c)

/-- The line of a log entry. -/
def LogEntry.text (e : LogEntry) : String :=
  Text.unwords
    ["ENTRY", Text.decimal e.test.toNat, e.code, e.verdict.name, Text.decimal e.score.toNat]

/-- The line that announces a log. -/
def JudgeLog.header (log : JudgeLog) : String :=
  Text.unwords
    ["JUDGE_LOG", Hex.encode (Utf8.encode log.name), Text.decimal log.entries.length]

/-- The first line of a report. -/
def Report.header (r : Report) : String :=
  Text.unwords ["FINISH", Text.decimal r.score.toNat, if r.full then "1" else "0"]

namespace Message

/-- The lines of a message. -/
def texts : Message → List String
  | .run test => [Text.unwords ["RUN", Text.decimal test.toNat]]
  | .comment audience text => [Text.unwords ["COMMENT", audience.word, oneLine text]]
  | .finish report =>
      report.header :: report.log.header :: (report.log.entries.map LogEntry.text ++ ["END"])

/-- The bytes of a message, its line feeds included. -/
def encode (m : Message) : List UInt8 :=
  Text.unlines (m.texts.map Utf8.encode)

end Message

/-! ## Reading -/

/-- Takes the next line of a stream, which must not end here. -/
def nextText (awaited : Awaited) : List Text.Line → Except Error String × List Text.Line
  | [] => (.error (.unexpectedEnd awaited), [])
  | line :: rest =>
      match Text.lineText? line with
      | none => (.error (.stream .notUtf8), rest)
      | some text => (.ok text, rest)

/-- The entry that a line spells. -/
def LogEntry.ofText? (text : String) : Option LogEntry :=
  match Text.words text with
  | ["ENTRY", test, code, verdict, score] =>
      match Text.word? test, Verdict.ofCode verdict, Text.word? score with
      | some test, .ok verdict, some score => some ⟨test, code, verdict, score⟩
      | _, _, _ => none
  | _ => none

namespace JudgeLog

/-- One more than the greatest number of entries that a header can announce. -/
def countBound : Nat := UInt64.size

/-- The name and the number of entries that a header announces. -/
def ofHeader? (text : String) : Option (String × Nat) :=
  match Text.words text with
  | ["JUDGE_LOG", name, count] =>
      match Hex.decode name, Text.natBelow? countBound count with
      | .ok name, some count => (Utf8.decode? name).map fun name => (name, count)
      | _, _ => none
  | _ => none

/-- The log with the entry of one more line. -/
def pushText (log : JudgeLog) (text : String) : Except Error JudgeLog :=
  match LogEntry.ofText? text with
  | none => .error (.malformed text)
  | some e => log.push e

/-- Reads the given number of entries into a log. -/
def readEntries (log : JudgeLog) : Nat → List Text.Line → Except Error JudgeLog × List Text.Line
  | 0, lines => (.ok log, lines)
  | count + 1, lines =>
      match nextText .logEntry lines with
      | (.error e, rest) => (.error e, rest)
      | (.ok text, rest) =>
          match log.pushText text with
          | .error e => (.error e, rest)
          | .ok log => readEntries log count rest

/-- Reads the line that ends a log. -/
def readEnd (log : JudgeLog) (lines : List Text.Line) : Except Error JudgeLog × List Text.Line :=
  match nextText .logEnd lines with
  | (.error e, rest) => (.error e, rest)
  | (.ok text, rest) => (if text = "END" then .ok log else .error (.malformed text), rest)

/-- Reads a log: its header, the entries that this announces, and the line that ends it. -/
def read (lines : List Text.Line) : Except Error JudgeLog × List Text.Line :=
  match nextText .logHeader lines with
  | (.error e, rest) => (.error e, rest)
  | (.ok text, rest) =>
      match ofHeader? text with
      | none => (.error (.malformed text), rest)
      | some (name, count) =>
          match readEntries (empty name) count rest with
          | (.error e, rest) => (.error e, rest)
          | (.ok log, rest) => readEnd log rest

end JudgeLog

/-- What the first line of a message says. -/
inductive MessageHead where
  | run (test : UInt32)
  | comment (audience : Audience) (text : String)
  /-- A report, whose log follows. -/
  | finish (score : UInt32) (full : Bool)
  deriving DecidableEq, Repr

namespace MessageHead

/-- The audience of a word. -/
def audience? : String → Option Audience
  | "PUBLIC" => some .everyone
  | "PRIVATE" => some .jury
  | _ => none

/-- The flag of a word. -/
def flag? : String → Option Bool
  | "0" => some false
  | "1" => some true
  | _ => none

/-- What the first line of a message says. The text of a comment is all that follows the space after
its audience, and may be missing. -/
def ofText? (text : String) : Option MessageHead :=
  match Text.words text with
  | ["RUN", test] => (Text.word? test).map .run
  | "COMMENT" :: audience :: text =>
      (audience? audience).map fun audience => .comment audience (Text.unwords text)
  | ["FINISH", score, full] =>
      match Text.word? score, flag? full with
      | some score, some full => some (.finish score full)
      | _, _ => none
  | _ => none

end MessageHead

namespace Message

/-- Reads what follows the first line of a message. -/
def ofHead (head : MessageHead) (lines : List Text.Line) :
    Except Error Message × List Text.Line :=
  match head with
  | .run test => (.ok (.run test), lines)
  | .comment audience text => (.ok (.comment audience text), lines)
  | .finish score full =>
      match JudgeLog.read lines with
      | (.error e, rest) => (.error e, rest)
      | (.ok log, rest) => (.ok (.finish ⟨score, full, log⟩), rest)

/-- The first message of a stream or what stands in its place, and the lines after it. -/
def next? : List Text.Line → Option (Except Error Message × List Text.Line)
  | [] => none
  | line :: rest =>
      match Text.lineText? line with
      | none => some (.error (.stream .notUtf8), rest)
      | some text =>
          match MessageHead.ofText? text with
          | none => some (.error (.malformed text), rest)
          | some head => some (ofHead head rest)

end Message

/-! ### Every read takes whole lines from the front -/

theorem nextText_suffix (awaited : Awaited) (lines : List Text.Line) :
    (nextText awaited lines).2 <:+ lines := by
  cases lines with
  | nil => simp [nextText]
  | cons line rest =>
      have hrest : (nextText awaited (line :: rest)).2 = rest := by
        simp only [nextText]
        cases Text.lineText? line <;> rfl
      rw [hrest]
      exact List.suffix_cons ..

theorem JudgeLog.readEntries_suffix (log : JudgeLog) (count : Nat) (lines : List Text.Line) :
    (log.readEntries count lines).2 <:+ lines := by
  induction count generalizing log lines with
  | zero => exact List.suffix_refl _
  | succ count ih =>
      have htext := nextText_suffix .logEntry lines
      unfold JudgeLog.readEntries
      split
      · next heq => rw [heq] at htext; exact htext
      · next text rest heq =>
          rw [heq] at htext
          split
          · exact htext
          · exact (ih _ _).trans htext

theorem JudgeLog.readEnd_suffix (log : JudgeLog) (lines : List Text.Line) :
    (log.readEnd lines).2 <:+ lines := by
  have htext := nextText_suffix .logEnd lines
  unfold JudgeLog.readEnd
  split <;> next heq => rw [heq] at htext; exact htext

theorem JudgeLog.read_suffix (lines : List Text.Line) : (JudgeLog.read lines).2 <:+ lines := by
  have htext := nextText_suffix .logHeader lines
  unfold JudgeLog.read
  split
  · next heq => rw [heq] at htext; exact htext
  · next text rest heq =>
      rw [heq] at htext
      split
      · exact htext
      · next name count _ =>
          have hentries := JudgeLog.readEntries_suffix (JudgeLog.empty name) count rest
          split
          · next heq => rw [heq] at hentries; exact hentries.trans htext
          · next log rest heq =>
              rw [heq] at hentries
              exact ((JudgeLog.readEnd_suffix log rest).trans hentries).trans htext

namespace Message

theorem ofHead_suffix (head : MessageHead) (lines : List Text.Line) :
    (ofHead head lines).2 <:+ lines := by
  cases head with
  | run test => exact List.suffix_refl _
  | comment audience text => exact List.suffix_refl _
  | finish score full =>
      have hlog := JudgeLog.read_suffix lines
      unfold ofHead
      simp only
      split <;> next heq => rw [heq] at hlog; exact hlog

/-- A read takes at least one line. -/
theorem next?_suffix {lines : List Text.Line} {m : Except Error Message} {rest : List Text.Line}
    (h : next? lines = some (m, rest)) : ∃ line tail, lines = line :: tail ∧ rest <:+ tail := by
  cases lines with
  | nil => simp [next?] at h
  | cons line tail =>
      refine ⟨line, tail, rfl, ?_⟩
      simp only [next?] at h
      split at h
      · obtain ⟨-, rfl⟩ := h
        exact List.suffix_refl _
      · split at h
        · obtain ⟨-, rfl⟩ := h
          exact List.suffix_refl _
        · next head _ =>
            have hhead := ofHead_suffix head tail
            rw [Option.some.inj h] at hhead
            exact hhead

theorem next?_length {lines : List Text.Line} {m : Except Error Message} {rest : List Text.Line}
    (h : next? lines = some (m, rest)) : rest.length < lines.length := by
  obtain ⟨line, tail, rfl, hrest⟩ := next?_suffix h
  exact Nat.lt_succ_of_le hrest.length_le

/-- Every message of a stream or what stands in its place, in order. -/
def readAll (lines : List Text.Line) : List (Except Error Message) :=
  match _h : next? lines with
  | none => []
  | some (m, rest) => m :: readAll rest
termination_by lines.length
decreasing_by exact next?_length _h

end Message

/-! ### Taking messages off a stream of bytes -/

/-- Takes the next text of a stream, which must not end here. -/
def fetchText (awaited : Awaited) (bytes : List UInt8) : Except Error String × List UInt8 :=
  match Text.fetch bytes with
  | (none, rest) => (.error (.unexpectedEnd awaited), rest)
  | (some none, rest) => (.error (.stream .notUtf8), rest)
  | (some (some text), rest) => (.ok text, rest)

namespace JudgeLog

/-- Takes the given number of entries into a log. -/
def fetchEntries (log : JudgeLog) : Nat → List UInt8 → Except Error JudgeLog × List UInt8
  | 0, bytes => (.ok log, bytes)
  | count + 1, bytes =>
      match fetchText .logEntry bytes with
      | (.error e, rest) => (.error e, rest)
      | (.ok text, rest) =>
          match log.pushText text with
          | .error e => (.error e, rest)
          | .ok log => fetchEntries log count rest

/-- Takes the line that ends a log. -/
def fetchEnd (log : JudgeLog) (bytes : List UInt8) : Except Error JudgeLog × List UInt8 :=
  match fetchText .logEnd bytes with
  | (.error e, rest) => (.error e, rest)
  | (.ok text, rest) => (if text = "END" then .ok log else .error (.malformed text), rest)

/-- Takes a log: its header, the entries that this announces, and the line that ends it. -/
def fetch (bytes : List UInt8) : Except Error JudgeLog × List UInt8 :=
  match fetchText .logHeader bytes with
  | (.error e, rest) => (.error e, rest)
  | (.ok text, rest) =>
      match ofHeader? text with
      | none => (.error (.malformed text), rest)
      | some (name, count) =>
          match fetchEntries (empty name) count rest with
          | (.error e, rest) => (.error e, rest)
          | (.ok log, rest) => fetchEnd log rest

end JudgeLog

namespace Message

/-- Takes what follows the first line of a message. -/
def fetchRest (head : MessageHead) (bytes : List UInt8) : Except Error Message × List UInt8 :=
  match head with
  | .run test => (.ok (.run test), bytes)
  | .comment audience text => (.ok (.comment audience text), bytes)
  | .finish score full =>
      match JudgeLog.fetch bytes with
      | (.error e, rest) => (.error e, rest)
      | (.ok log, rest) => (.ok (.finish ⟨score, full, log⟩), rest)

/-- Takes the next message. -/
def fetch (bytes : List UInt8) : Option (Except Error Message) × List UInt8 :=
  match Text.fetch bytes with
  | (none, rest) => (none, rest)
  | (some none, rest) => (some (.error (.stream .notUtf8)), rest)
  | (some (some text), rest) =>
      match MessageHead.ofText? text with
      | none => (some (.error (.malformed text)), rest)
      | some head => ((some (fetchRest head rest).1), (fetchRest head rest).2)

end Message

end Valuer
