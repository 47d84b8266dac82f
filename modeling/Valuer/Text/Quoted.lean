import Valuer.Text.Unprintable

set_option autoImplicit false

/-! # Quoted text

How a character or a text stands inside a message for people: between two marks, with the mark, the
backslash and the four usual controls behind a backslash, and every character that would not show
by its number in braces. A single character stands between apostrophes, a text between double
quotes; each escapes its own mark only. -/

namespace Valuer.Text

/-- One character inside quotes that end at `mark`. -/
def escaped (mark c : Char) : List Char :=
  if c == '\x00' then ['\\', '0']
  else if c == '\t' then ['\\', 't']
  else if c == '\n' then ['\\', 'n']
  else if c == '\r' then ['\\', 'r']
  else if c == mark || c == '\\' then ['\\', c]
  else if isUnprintable c then "\\u\x7b".toList ++ Nat.toDigits 16 c.toNat ++ ['\x7d']
  else [c]

/-- A text between two marks. -/
def quoted (mark : Char) (cs : List Char) : String :=
  String.ofList (mark :: (cs.flatMap (escaped mark) ++ [mark]))

/-- A character between apostrophes. -/
def quotedChar (c : Char) : String :=
  quoted '\x27' [c]

/-- A text between double quotes. -/
def quotedText (s : String) : String :=
  quoted '\x22' s.toList

end Valuer.Text
