import Valuer.Command
import Valuer.Config.Document
import Valuer.Launch
import Valuer.Sequential
import Valuer.Text.Quoted

set_option autoImplicit false

/-! # The program

What the command line does, as a function of what it can see: the files, the variables, and what
stands in the standard input. It ends with an exit code and, if it failed, with the failure. -/

namespace Valuer

/-- Why a file cannot be read. -/
inductive FileFault where
  /-- The system refuses, with its own number, kind and text of the error. -/
  | system (code : Nat) (kind text : String)
  | notUtf8
  deriving DecidableEq, Repr

namespace FileFault

/-- There is no such file. -/
def notFound : FileFault :=
  .system 2 "NotFound" "No such file or directory"

/-- The path is one of a directory. -/
def isDirectory : FileFault :=
  .system 21 "IsADirectory" "Is a directory"

/-- What is told about a file that cannot be read. -/
def message : FileFault → String
  | .system code kind text =>
      shown "Os" [("code", toString code), ("kind", kind), ("message", Text.quotedText text)]
  | .notUtf8 =>
      shown "Error"
        [("kind", "InvalidData"), ("message", Text.quotedText StreamFault.notUtf8.message)]

end FileFault

/-- Why the program failed. -/
inductive Failure where
  /-- The arguments do not fit together. -/
  | usage
  /-- A configuration file cannot be read. -/
  | unreadable (fault : FileFault)
  /-- A file does not hold a configuration. -/
  | config (error : Config.Error)
  | run (error : Error)
  deriving DecidableEq, Repr

namespace Failure

/-- What the program prints about a failure. -/
def message : Failure → String
  | .usage => "usage: jtl [-c|--config <path>] [check-config <path>]\n"
  | .unreadable fault => s!"Error: IO({fault.message})\n"
  | .config .notConfig => "Error: Yaml\n"
  | .config (.invalid fault) => s!"Error: Config({Text.quotedText fault.message})\n"
  | .run error => s!"ERROR: {error.message}\n"

/-- The exit code of a failure. -/
def exitCode : Failure → UInt32
  | .usage => 2
  | _ => 1

end Failure

/-- The name and version of the program. -/
def versionText : String := "jtl 0.1.0\n"

/-- The configuration in the content of a file. -/
def readConfig (content : Except FileFault (List UInt8)) : Except Failure Config :=
  match content with
  | .error fault => .error (.unreadable fault)
  | .ok bytes =>
      match Utf8.decode? bytes with
      | none => .error (.unreadable .notUtf8)
      | some text => (Config.ofText text).mapError .config

/-- What the program leaves. -/
structure Ending where
  /-- What stands in the standard output. -/
  stdout : List UInt8 := []
  failure : Option Failure := none
  deriving DecidableEq, Repr

/-- The exit code of the program. -/
def Ending.exitCode (e : Ending) : UInt32 :=
  (e.failure.map Failure.exitCode).getD 0

/-- The standard descriptors of a program that is given its input. -/
def standardTable (stdin : List UInt8) : DescriptorTable :=
  [{ number := 0, mode := .readOnly, content := stdin }, { number := 1, mode := .writeOnly }]

/-- What stands behind the standard output, open or not. -/
def stdoutOf (table : DescriptorTable) : List UInt8 :=
  ((table.filter fun d => d.number == 1).map (·.content)).flatten

/-- What the program can see. -/
structure Surroundings where
  files : String → Except FileFault (List UInt8)
  env : Environment
  stdin : List UInt8 := []

/-- Runs the sequential strategy from the environment. -/
def runSequential (around : Surroundings) (config : Config) : Ending :=
  let run := Sequential.strategy.runFrom (Sequential.initial config) around.env
    (standardTable around.stdin)
  { stdout := stdoutOf run.table
    failure := match run.result with
      | .ok _ => none
      | .error e => some (.run e) }

/-- Does what a command says. -/
def Command.perform (around : Surroundings) : Command → Ending
  | .version => { stdout := Utf8.encode versionText }
  | .checkConfig path =>
      match readConfig (around.files path) with
      | .error failure => { failure := some failure }
      | .ok config => { stdout := Utf8.encode config.document }
  | .run none => runSequential around {}
  | .run (some path) =>
      match readConfig (around.files path) with
      | .error failure => { failure := some failure }
      | .ok config => runSequential around config

/-- The whole program. -/
def program (around : Surroundings) (args : List String) : Ending :=
  match Command.ofArgs? args with
  | none => { failure := some .usage }
  | some command => command.perform around

end Valuer
