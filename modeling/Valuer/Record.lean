set_option autoImplicit false

/-! # Log records

What a run tells about itself while it goes on: a level and a line of text. -/

namespace Valuer

/-- The importance of a record. -/
inductive Level where
  | debug
  | info
  | warn
  deriving DecidableEq, Repr

/-- The name of a level. -/
def Level.name : Level → String
  | .debug => "DEBUG"
  | .info => "INFO"
  | .warn => "WARN"

/-- One line of the log of a run. -/
structure Record where
  level : Level
  text : String
  deriving DecidableEq, Repr

/-- A record on one line, its level first. -/
def Record.line (r : Record) : String :=
  s!"{r.level.name} {r.text}"

end Valuer
