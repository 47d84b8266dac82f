import Valuer.Program

set_option autoImplicit false

/-! # The executable

The outer layer: files, variables, descriptors and streams of the running process. It finds out what
the library has to know, hands over lines as the judge sends them, and writes out what the session
has written so far before it waits for the next line. Nothing is decided here. -/

namespace Valuer.Main

/-! ## What the process can see -/

/-- The content of a file. -/
def readFile (path : String) : IO (Except FileFault (List UInt8)) := do
  try
    let bytes ← IO.FS.readBinFile path
    return .ok bytes.data.toList
  catch
    | .noFileOrDirectory _ _ _ => return .error .notFound
    | .inappropriateType _ _ _ => return .error .isDirectory
    | .permissionDenied _ code text => return .error (.system code.toNat "PermissionDenied" text)
    | e => return .error (.system 0 "Other" e.toString)

/-- The launch variables that are set. -/
def readEnvironment : IO Environment := do
  let names := [inputVar, outputVar, countVar, seedVar]
  let found ← names.filterMapM fun name => do
    return (← IO.getEnv name).map fun value => (name, value)
  return fun name => found.lookup name

/-- How a descriptor was opened, from the line of its flags: the last octal digit tells. -/
def modeOf? (line : String) : Option OpenMode := do
  let flags ← (line.toList.reverse.dropWhile Char.isWhitespace).head?
  match (flags.toNat - '0'.toNat) % 4 with
  | 0 => some .readOnly
  | 1 => some .writeOnly
  | 2 => some .readWrite
  | _ => none

/-- The descriptor of a number, if it is open. -/
def findDescriptor (number : Nat) : IO (Option Descriptor) := do
  try
    let info ← IO.FS.readFile s!"/proc/self/fdinfo/{number}"
    let line := (info.toList.splitOn '\n').map String.ofList |>.find? (·.startsWith "flags:")
    return (line.bind modeOf?).map fun mode => { number, mode }
  catch _ => return none

/-- The descriptors that the launch variables name. -/
def readTable (env : Environment) : IO DescriptorTable :=
  [inputVar, outputVar].filterMapM fun name =>
    match env.int name with
    | .ok n => if 0 ≤ n then findDescriptor n.toNat else return none
    | .error _ => return none

/-- The stream of a descriptor. -/
def openStream (number : Nat) (mode : IO.FS.Mode) : IO IO.FS.Stream :=
  match number with
  | 0 => IO.getStdin
  | 1 => IO.getStdout
  | 2 => IO.getStderr
  | n => do return .ofHandle (← IO.FS.Handle.mk s!"/proc/self/fd/{n}" mode)

/-! ## Talking to the judge -/

/-- Reads up to the end of a line; nothing at the end of the stream. -/
partial def readLine (input : IO.FS.Stream) (soFar : ByteArray) : IO (Option Text.Line) := do
  let piece ← input.read 1
  if piece.isEmpty then
    return if soFar.isEmpty then none else some soFar.data.toList
  else if piece.data.toList = [Text.lineFeed] then return some soFar.data.toList
  else readLine input (soFar ++ piece)

/-- Reads the next line that is not blank. -/
partial def readResult (input : IO.FS.Stream) : IO (Option (Except Error TestResult)) := do
  match ← readLine input .empty with
  | none => return none
  | some line =>
      match TestResult.ofLine? line with
      | none => readResult input
      | some result => return some result

/-- Carries a session on to its end. The first `written` bytes of its sink are already out. -/
partial def converse {σ : Type} (S : Strategy σ) (input output : IO.FS.Stream) (written : Nat)
    (session : Session σ) : IO (Except Error Report) := do
  let bytes := session.context.sink.bytes
  output.write ⟨(bytes.drop written).toArray⟩
  output.flush
  match session.status with
  | .ended result => return result
  | .awaiting test =>
      let (_, next) := session.hear S test (← readResult input)
      converse S input output bytes.length next

/-! ## Commands -/

/-- Tells about a failure. -/
def fail (failure : Failure) : IO UInt32 := do
  IO.eprint failure.message
  return failure.exitCode

/-- Runs the sequential strategy from the environment. -/
def runSequential (config : Config) : IO UInt32 := do
  let env ← readEnvironment
  match Launch.ofEnvironment env (← readTable env) with
  | .error e => fail (.run e)
  | .ok launch =>
      let input ← openStream launch.input .read
      let output ← openStream launch.output .readWrite
      let S := Sequential.strategy
      let (_, session) := Session.start S launch.context (Sequential.initial config)
      match ← converse S input output 0 session with
      | .ok _ => return 0
      | .error e => fail (.run e)

/-- Does what a command says. -/
def perform : Command → IO UInt32
  | .version => do
      IO.print versionText
      return 0
  | .checkConfig path => do
      match readConfig (← readFile path) with
      | .error failure => fail failure
      | .ok config =>
          IO.print config.document
          return 0
  | .run none => runSequential {}
  | .run (some path) => do
      match readConfig (← readFile path) with
      | .error failure => fail failure
      | .ok config => runSequential config

end Valuer.Main

def main (args : List String) : IO UInt32 :=
  match Valuer.Command.ofArgs? args with
  | none => Valuer.Main.fail .usage
  | some command => Valuer.Main.perform command
