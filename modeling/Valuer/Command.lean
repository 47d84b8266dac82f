set_option autoImplicit false

/-! # The command line

What the arguments of the program ask for. Without a word it runs the sequential valuer, with a
configuration file if `-c` or `--config` names one; `check-config` and a path check a file instead;
`-V` or `--version` asks for the version and wins over what follows. An option's value may be
attached to it or be the next argument, which must not look like an option; names are never
abbreviated. Everything else is a usage error. -/

namespace Valuer

/-- What the program is asked to do. -/
inductive Command where
  | version
  | checkConfig (path : String)
  | run (config : Option String)
  deriving DecidableEq, Repr

namespace Command

/-- An argument by its form. -/
inductive Arg where
  /-- The mark after which nothing is an option. -/
  | separator
  | version
  /-- The option that names a configuration, with its value if that is attached. -/
  | config (value : Option String)
  /-- Something that looks like an option but is none. -/
  | unknown
  | word (text : String)
  deriving DecidableEq, Repr

/-- A value attached to a one-letter option, with or without an equals sign. -/
def attached : List Char → Option String
  | [] => none
  | '=' :: cs => some (String.ofList cs)
  | cs => some (String.ofList cs)

/-- The option of an argument that starts with two dashes. -/
def longOption (cs : List Char) : Arg :=
  if cs = "version".toList then .version
  else if cs = "config".toList then .config none
  else match "config=".toList.isPrefixOf? cs with
    | some value => .config (some (String.ofList value))
    | none => .unknown

/-- The form of an argument. A single dash is a word. -/
def Arg.ofText (text : String) : Arg :=
  match text.toList with
  | ['-', '-'] => .separator
  | '-' :: '-' :: cs => longOption cs
  | ['-'] => .word text
  | '-' :: 'V' :: _ => .version
  | '-' :: 'c' :: cs => .config (attached cs)
  | '-' :: _ => .unknown
  | _ => .word text

/-- The path after `check-config`: exactly one word, or anything after the separator. -/
def pathOf? : List String → Option String
  | [] => none
  | arg :: rest =>
      match Arg.ofText arg, rest with
      | .separator, [path] => some path
      | .word path, [] => some path
      | .word path, [last] => if Arg.ofText last = .separator then some path else none
      | _, _ => none

/-- The command once all options are known. A configuration may be named once. -/
def ofConfigs? : List String → Option Command
  | [] => some (.run none)
  | [path] => some (.run (some path))
  | _ => none

/-- The command of the arguments that follow the options for `configs`, the last one first. When
`lacksValue` is set, one more option was given whose value comes next. -/
def parse? (configs : List String) (lacksValue : Bool) : List String → Option Command
  | [] => if lacksValue then none else ofConfigs? configs
  | arg :: rest =>
      match Arg.ofText arg with
      | .version => some .version
      | .unknown => none
      | .separator => if lacksValue || !rest.isEmpty then none else ofConfigs? configs
      | .config value =>
          if lacksValue then none
          else match value with
            | some path => parse? (path :: configs) false rest
            | none => parse? configs true rest
      | .word text =>
          if lacksValue then parse? (text :: configs) false rest
          else if text = "check-config" then
            if configs.length ≤ 1 then (pathOf? rest).map .checkConfig else none
          else none

/-- What the arguments ask for; nothing if they do not fit together. -/
def ofArgs? (args : List String) : Option Command :=
  parse? [] false args

end Command

end Valuer
