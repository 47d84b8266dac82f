import Valuer.Descriptor
import Valuer.Hex
import Valuer.Violation

set_option autoImplicit false

/-! # What can go wrong in a run

One type for all that ends a launch or a run, by cause; `message` gives the wording. A cause keeps
what the message needs: the variable and its value, the line that was not understood, the item that
was awaited when a stream ended. -/

namespace Valuer

/-- The item that was awaited when a stream ended. -/
inductive Awaited where
  /-- The result of a requested test. -/
  | result (test : UInt32)
  | logHeader
  | logEntry
  | logEnd
  deriving DecidableEq, Repr

/-- The name of an awaited item in messages. -/
def Awaited.name : Awaited → String
  | .result test => s!"result of test {test}"
  | .logHeader => "judge log header"
  | .logEntry => "judge log entry"
  | .logEnd => "end of judge log"

/-- Failures of a stream itself. -/
inductive StreamFault where
  /-- A line that is not UTF-8. -/
  | notUtf8
  /-- A sink that takes no more bytes. -/
  | sinkFull
  /-- Any other reason, in the words of the sink. -/
  | other (text : String)
  deriving DecidableEq, Repr

/-- What is told about a failing stream. -/
def StreamFault.message : StreamFault → String
  | .notUtf8 => "stream did not contain valid UTF-8"
  | .sinkFull => "sink full"
  | .other text => text

/-- What a strategy gives as its own reason to end a run. -/
inductive Complaint where
  /-- The scores of a log do not fit the width of a score. -/
  | totalOverflows (log : String)
  /-- Neither the configuration nor the judge says which tests there are. -/
  | noPlan
  /-- The configuration lists a test beyond the last one. -/
  | planBeyond (test count : UInt32)
  /-- The running score does not fit the width of a score. -/
  | scoreOverflows (test total score : UInt32)
  /-- Any other reason, in the strategy's words. -/
  | other (text : String)
  deriving DecidableEq, Repr

/-- What is told about a complaint. -/
def Complaint.message : Complaint → String
  | .totalOverflows log => s!"total score of judge log `{log}` overflows"
  | .noPlan => "test count is unknown and config lists no tests"
  | .planBeyond test count => s!"config lists test {test}, but problem has only {count} tests"
  | .scoreOverflows test total score =>
      s!"score overflows after test {test}: {total} + {score}"
  | .other text => text

/-- Everything that ends a launch or a run. -/
inductive Error where
  | missingVar (name : String)
  | notInteger (name value : String)
  | negative (name : String) (value : Int)
  | tooLarge (name : String) (value : Int)
  /-- The number is no open descriptor with the access that is wanted. -/
  | badDescriptor (name : String) (number : Int) (access : Access)
  | notHex (name value : String) (cause : Hex.Fault)
  /-- Two variables that need descriptors of their own name the same one. -/
  | sharedDescriptor (first second : String)
  | protocol (violation : Violation)
  /-- A line that is no message. -/
  | malformed (line : String)
  | unexpectedEnd (awaited : Awaited)
  | duplicateTest (test : UInt32)
  | badStatusCode (code : String)
  | complaint (cause : Complaint)
  | stream (cause : StreamFault)
  deriving DecidableEq, Repr

/-- What is told about an error. -/
def Error.message : Error → String
  | .missingVar name => s!"var `{name}` not present"
  | .notInteger name value => s!"var `{name}` has value `{value}`, which is not integer"
  | .negative name value => s!"var `{name}` has value `{value}`, which is negative"
  | .tooLarge name value => s!"var `{name}` has value `{value}`, which is too large"
  | .badDescriptor name number access =>
      s!"var `{name}` contains fd `{number}`, which is not file of mode {access.letter}"
  | .notHex name value cause =>
      s!"var `{name}` contains '{value}', which is not hex: {cause.message}"
  | .sharedDescriptor first second => s!"vars `{first}` and `{second}` refer to the same fd"
  | .protocol violation => s!"protocol violation: {violation.message}"
  | .malformed line => s!"malformed message: `{line}`"
  | .unexpectedEnd awaited => s!"stream closed while waiting for {awaited.name}"
  | .duplicateTest test => s!"test {test} is already present in judge log"
  | .badStatusCode code => s!"status code `{code}` is empty or contains whitespace"
  | .complaint cause => s!"valuer error: {cause.message}"
  | .stream cause => s!"failed in IO: {cause.message}"

end Valuer
