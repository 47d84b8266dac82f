set_option autoImplicit false

/-! # Verdicts

A test ends with a status code, a token the judge chooses. The codes this library knows fall into
four verdicts, whose own names are codes too: what a verdict is written as is read as that
verdict. -/

namespace Valuer

/-- What a test's status code says about the solution. -/
inductive Verdict where
  /-- The solution failed the test: a wrong answer, a limit exceeded, a crash. -/
  | rejected
  | accepted
  /-- The judge or its checker failed, not the solution. -/
  | internalError
  | skipped
  deriving DecidableEq, Repr

/-- A status code that belongs to no verdict. -/
structure UnknownStatus where
  code : String
  deriving DecidableEq, Repr

/-- What is told about a code that belongs to no verdict. -/
def UnknownStatus.message (u : UnknownStatus) : String :=
  s!"unknown status code `{u.code}`"

namespace Verdict

/-- Every verdict. -/
def all : List Verdict :=
  [.rejected, .accepted, .internalError, .skipped]

/-- The name of a verdict, which is also how it is written in a stream. -/
def name : Verdict → String
  | .rejected => "REJECTED"
  | .accepted => "ACCEPTED"
  | .internalError => "INTERNAL_ERROR"
  | .skipped => "SKIPPED"

/-- The codes of a verdict, its name first. -/
def codes : Verdict → List String
  | .rejected =>
      ["REJECTED", "WA", "WRONG_ANSWER", "PE", "PRESENTATION_ERROR", "TLE", "TIME_LIMIT_EXCEEDED",
        "MLE", "MEMORY_LIMIT_EXCEEDED", "RE", "RUNTIME_ERROR", "ILE", "IDLENESS_LIMIT_EXCEEDED"]
  | .accepted => ["ACCEPTED", "OK", "AC", "TEST_PASSED"]
  | .internalError => ["INTERNAL_ERROR", "IE", "JUDGE_FAULT", "CF", "CHECKER_FAILED"]
  | .skipped => ["SKIPPED", "SK"]

/-- The verdict a status code belongs to. -/
def ofCode (code : String) : Except UnknownStatus Verdict :=
  match all.find? fun v => v.codes.contains code with
  | some v => .ok v
  | none => .error ⟨code⟩

/-- Whether the solution passed the test. -/
def isPassed (v : Verdict) : Bool :=
  v == .accepted

/-- Room for the name of any verdict together with a terminator. -/
def nameRoom : Nat := 20

theorem ofCode_name (v : Verdict) : ofCode v.name = .ok v := by
  cases v <;> rfl

theorem name_fits (v : Verdict) : v.name.utf8ByteSize < nameRoom := by
  cases v <;> decide

end Verdict

end Valuer
