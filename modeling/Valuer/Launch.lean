import Valuer.Environment
import Valuer.Log
import Valuer.Outlet
import Valuer.Session

set_option autoImplicit false

/-! # Launching a valuer

A judge starts a valuer with two descriptors to talk over, the number of tests if it knows it, and a
payload if it has one, all named in variables. A launch is made only if all of this is in order: it
checks the numbers, then the payload, then the descriptors, and takes no descriptor before the last
check has passed. Should the second descriptor not be there any more when it is taken, the first one
is closed again. A run from the environment is a run over what the input descriptor holds, whose
messages go to the output descriptor; afterwards both are closed. -/

namespace Valuer

/-- The variable that names the descriptor to read results from. -/
def inputVar : String := "IN_FD"

/-- The variable that names the descriptor to write messages to. -/
def outputVar : String := "OUT_FD"

/-- The variable that holds the number of tests. -/
def countVar : String := "PROBLEM_TEST_COUNT"

/-- The variable that holds the payload. -/
def seedVar : String := "VALUER_DATA"

/-- Everything a judge hands to a valuer. -/
structure Launch where
  /-- The number of the descriptor to read from. -/
  input : Nat
  /-- The number of the descriptor to write to. -/
  output : Nat
  count : Option UInt32
  seed : Option (List UInt8)
  deriving DecidableEq, Repr

namespace Launch

/-- The number of tests: minus one stands for a number that is not known yet. -/
def countOf (n : Int) : Except Error (Option UInt32) :=
  if n = -1 then .ok none
  else if n < 0 then .error (.negative countVar n)
  else if n < UInt32.size then .ok (some (UInt32.ofNat n.toNat))
  else .error (.tooLarge countVar n)

/-- The number of tests, which may be missing but not malformed. -/
def readCount (env : Environment) : Except Error (Option UInt32) :=
  if (env countVar).isNone then .ok none else (env.int countVar).bind countOf

/-- The payload, which may be missing but not malformed. -/
def readSeed (env : Environment) : Except Error (Option (List UInt8)) :=
  if (env seedVar).isNone then .ok none else (env.payload seedVar).map some

/-- Checks all that a launch needs and takes nothing. The checks come in this order: both numbers,
their difference, the count, the payload, both descriptors. -/
def check (env : Environment) (table : DescriptorTable) :
    Except Error (Option UInt32 × Option (List UInt8)) := do
  let input ← env.int inputVar
  let output ← env.int outputVar
  if input = output then
    throw (.sharedDescriptor inputVar outputVar)
  let count ← readCount env
  let seed ← readSeed env
  let _ ← env.descriptor table inputVar .read
  let _ ← env.descriptor table outputVar .write
  return (count, seed)

/-- Takes a launch from the environment: both descriptors, once everything is checked. -/
def take (env : Environment) (table : DescriptorTable) : Except Error Launch × DescriptorTable :=
  match check env table with
  | .error e => (.error e, table)
  | .ok (count, seed) =>
      match env.take table inputVar .read with
      | (.error e, table) => (.error e, table)
      | (.ok input, table) =>
          match env.take table outputVar .write with
          | (.error e, table) => (.error e, table.close input)
          | (.ok output, table) => (.ok { input, output, count, seed }, table)

/-- The launch that the environment names. -/
def ofEnvironment (env : Environment) (table : DescriptorTable) : Except Error Launch :=
  (take env table).1

/-- The records of a launch. -/
def records (l : Launch) : List Record :=
  [Environment.takenRecord inputVar l.input .read,
    Environment.takenRecord outputVar l.output .write]

/-- The context that a run starts from. -/
def context (l : Launch) : Context where
  count := l.count
  seed := l.seed

/-- The descriptors after both of a launch are closed. -/
def release (l : Launch) (table : DescriptorTable) : DescriptorTable :=
  (table.close l.input).close l.output

end Launch

/-! ## Runs from the environment -/

/-- Writes what a run sends to the file of a descriptor. -/
def DescriptorTable.writeAlong (table : DescriptorTable) (number : Nat) (journal : Journal) :
    DescriptorTable :=
  table.update number fun d => { d with content := Outlet.fileAfter journal d.content }

/-- What a run from the environment leaves. -/
structure LaunchedRun (σ : Type) where
  result : Except Error Report
  /-- The strategy's state; the one it started from if there was no launch. -/
  state : σ
  table : DescriptorTable
  journal : Journal := []
  records : List Record := []

/-- Launches a strategy from the environment and runs it to its end. -/
def Strategy.runFrom {σ : Type} (S : Strategy σ) (s : σ) (env : Environment)
    (table : DescriptorTable) : LaunchedRun σ :=
  match Launch.take env table with
  | (.error e, table) => { result := .error e, state := s, table }
  | (.ok launch, table) =>
      let run := S.run launch.context s (table.content launch.input)
      { result := run.result
        state := run.state
        table := launch.release (table.writeAlong launch.output run.journal)
        journal := run.journal
        records := launch.records ++ run.journal.records }

end Valuer
