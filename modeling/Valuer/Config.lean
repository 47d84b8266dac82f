set_option autoImplicit false

/-! # The configuration of the sequential strategy

Which tests to run and what a passed test is worth. A configuration may list any tests; a valid one
lists no test zero and no test twice, and `check` blames the first test that breaks this. -/

namespace Valuer

/-- How the sequential strategy goes through the tests. -/
structure Config where
  /-- The name of the reported judge log. -/
  name : String := "main"
  /-- The tests to run, in order; all tests of the problem when absent. -/
  tests : Option (List UInt32) := none
  /-- Whether the first test that is not passed is the last one to run. -/
  stopOnFailure : Bool := true
  /-- The points for a passed test in place of the judge's score. -/
  testScore : Option UInt32 := none
  deriving DecidableEq, Repr

namespace Config

/-- What is wrong with a list of tests. -/
inductive Fault where
  | testZero
  | listedTwice (test : UInt32)
  deriving DecidableEq, Repr

/-- What is told about a list of tests. -/
def Fault.message : Fault → String
  | .testZero => "test ids start from 1"
  | .listedTwice test => s!"test {test} is listed twice"

/-- The first fault of a list of tests that comes after the tests `seen`. -/
def fault? (seen : List UInt32) : List UInt32 → Option Fault
  | [] => none
  | test :: rest =>
      if test = 0 then some .testZero
      else if test ∈ seen then some (.listedTwice test)
      else fault? (test :: seen) rest

/-- Accepts a configuration whose tests can all be run. -/
def check (c : Config) : Except Fault Unit :=
  match c.tests.bind (fault? []) with
  | some fault => .error fault
  | none => .ok ()

end Config

end Valuer
