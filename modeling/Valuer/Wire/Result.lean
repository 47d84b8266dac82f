import Valuer.Error
import Valuer.Text.Line
import Valuer.Text.Numeral

set_option autoImplicit false

/-! # Results: what the judge sends

One line for each resolved test, of three fields: the test, its status code and its score. Fields
are separated by blanks of any kind and number. Lines of white space alone are skipped, so what a
stream says is the list of what its other lines say (`readAll_eq`). `next?` and `readAll` read the
lines of a stream, and `fetch` takes a result off the bytes themselves. -/

namespace Valuer

/-- The result of one test, as the judge reports it. -/
structure TestResult where
  test : UInt32
  /-- The status code, kept as it was sent. -/
  code : String
  score : UInt32
  deriving DecidableEq, Repr

namespace TestResult

/-! ## Writing -/

/-- The line of a result. -/
def text (r : TestResult) : String :=
  Text.unwords [Text.decimal r.test.toNat, r.code, Text.decimal r.score.toNat]

/-- The bytes of a result, its line feed included. -/
def encode (r : TestResult) : List UInt8 :=
  Text.unlines [Utf8.encode r.text]

/-! ## Reading -/

/-- The result that a text spells. -/
def ofText (text : String) : Except Error TestResult :=
  match Text.fields text with
  | [test, code, score] =>
      match Text.word? test, Text.word? score with
      | some test, some score => .ok ⟨test, code, score⟩
      | _, _ => .error (.malformed text)
  | _ => .error (.malformed text)

/-- What a line says: nothing if it is white space alone. -/
def ofLine? (line : Text.Line) : Option (Except Error TestResult) :=
  match Text.lineText? line with
  | none => some (.error (.stream .notUtf8))
  | some text => if text.toList.all Text.isWhite then none else some (ofText text)

/-- The first thing that the lines of a stream say, and the lines after it. -/
def next? : List Text.Line → Option (Except Error TestResult × List Text.Line)
  | [] => none
  | line :: rest =>
      match ofLine? line with
      | none => next? rest
      | some r => some (r, rest)

/-- Everything that the lines of a stream say, in order. -/
def readAll (lines : List Text.Line) : List (Except Error TestResult) :=
  lines.filterMap ofLine?

/-- Reading everything is reading one thing after another. -/
theorem readAll_eq (lines : List Text.Line) :
    readAll lines = match next? lines with
      | none => []
      | some (r, rest) => r :: readAll rest := by
  induction lines with
  | nil => rfl
  | cons line rest ih =>
      cases hline : ofLine? line with
      | none =>
          have hstep : next? (line :: rest) = next? rest := by simp [next?, hline]
          rw [hstep, ← ih]
          simp [readAll, hline]
      | some r => simp [readAll, next?, hline]

/-- Takes the next result, with the blank lines before it. -/
def fetch (bytes : List UInt8) : Option (Except Error TestResult) × List UInt8 :=
  match _h : Text.fetch bytes with
  | (none, rest) => (none, rest)
  | (some none, rest) => (some (.error (.stream .notUtf8)), rest)
  | (some (some text), rest) =>
      if text.toList.all Text.isWhite then fetch rest else (some (ofText text), rest)
termination_by bytes.length
decreasing_by exact Text.length_lt_of_fetch _h

end TestResult

end Valuer
