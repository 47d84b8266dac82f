set_option autoImplicit false

/-! # Characters and positions in YAML text

The classes of characters that structure YAML text, and the position of a character: its line and
column decide what belongs to what. A line break is a line feed or a carriage return; before
anything else `clean` turns the pair of both into one break and ends the text at the first NUL. -/

namespace Valuer.Yaml

/-- A space or a tab. -/
def isBlank (c : Char) : Bool :=
  c == ' ' || c == '\t'

/-- A line break. -/
def isBreak (c : Char) : Bool :=
  c == '\n' || c == '\r'

/-- The characters that structure flow collections. -/
def isFlow (c : Char) : Bool :=
  c == ',' || c == '[' || c == ']' || c == '\x7b' || c == '\x7d'

/-- Whether the text goes on with a blank or a line break, or ends. -/
def endsWord : List Char → Bool
  | [] => true
  | c :: _ => isBlank c || isBreak c

/-- Whether the text goes on with the mark that starts a document. -/
def atStartMark : List Char → Bool
  | '-' :: '-' :: '-' :: rest => endsWord rest
  | _ => false

/-- Whether the text goes on with the mark that ends a document. -/
def atEndMark : List Char → Bool
  | '.' :: '.' :: '.' :: rest => endsWord rest
  | _ => false

/-- The text up to the first NUL, with one character for each line break. -/
def clean : List Char → List Char
  | [] => []
  | '\r' :: '\n' :: rest => '\n' :: clean rest
  | c :: rest => if c == '\x00' then [] else c :: clean rest

/-- Where a character stands in a text. -/
structure Position where
  /-- The number of characters before it. -/
  index : Nat := 0
  line : Nat := 0
  /-- The number of characters before it on its line. -/
  column : Nat := 0
  deriving DecidableEq, Repr

/-- The position after a character. Only a line feed starts a new line. -/
def Position.next (p : Position) (c : Char) : Position :=
  if c == '\n' then ⟨p.index + 1, p.line + 1, 0⟩ else ⟨p.index + 1, p.line, p.column + 1⟩

end Valuer.Yaml
