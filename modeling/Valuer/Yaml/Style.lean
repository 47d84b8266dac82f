set_option autoImplicit false

/-! # Writing scalars in YAML

A text is written as a plain scalar unless that would be read as something else or as structure;
then it is written in double quotes. A text needs quotes if it is empty, is surrounded by spaces,
starts like a structure, holds a character that structures text or a control, or looks like a
truth value, nothing, or a number. -/

namespace Valuer.Yaml

/-! ## Texts that look like something else -/

/-- Words that stand for truth values or for nothing. -/
def reservedWords : List String :=
  ["yes", "Yes", "YES", "no", "No", "NO", "true", "True", "TRUE", "false", "False", "FALSE",
    "on", "On", "ON", "off", "Off", "OFF", "null", "Null", "NULL", "~"]

/-- What follows the sign that may stand before a number. -/
def afterSign : List Char → List Char
  | '+' :: cs => cs
  | '-' :: cs => cs
  | cs => cs

/-- Whether what follows the digits of a number is nothing or an exponent. -/
def isExponent : List Char → Bool
  | [] => true
  | c :: cs =>
      let digits := afterSign cs
      (c == 'e' || c == 'E') && !digits.isEmpty && digits.all Char.isDigit

/-- Whether a text is a decimal number: digits with an optional point before, after or among them,
and an optional exponent. -/
def isDecimal (cs : List Char) : Bool :=
  let whole := cs.takeWhile Char.isDigit
  match cs.dropWhile Char.isDigit with
  | '.' :: rest =>
      let fraction := rest.takeWhile Char.isDigit
      (!whole.isEmpty || !fraction.isEmpty) && isExponent (rest.dropWhile Char.isDigit)
  | rest => !whole.isEmpty && isExponent rest

/-- The names of numbers that have no digits, in lower case. -/
def numberNames : List (List Char) :=
  ["inf".toList, "infinity".toList, "nan".toList]

/-- Whether a text looks like a number. -/
def isNumber (cs : List Char) : Bool :=
  let body := afterSign cs
  isDecimal body || numberNames.contains (body.map Char.toLower)

/-! ## Texts that look like structure -/

/-- The characters that start a structure. -/
def startMarks : List Char :=
  ['&', '*', '?', '|', '-', '<', '>', '=', '!', '%', '@', '.']

/-- The characters that structure text wherever they stand. -/
def innerMarks : List Char :=
  [':', '\x7b', '\x7d', '[', ']', ',', '#', '\x60', '\x22', '\x27', '\\']

/-- The control characters that are never written plain. -/
def isHidden (c : Char) : Bool :=
  let n := c.toNat
  n ≤ 6 || n == 9 || n == 10 || n == 13 || (14 ≤ n && n ≤ 26) || (28 ≤ n && n ≤ 31)

/-- Whether a text has to be quoted. -/
def needsQuotes (s : String) : Bool :=
  let cs := s.toList
  cs.isEmpty || cs.head? == some ' ' || cs.getLast? == some ' '
    || cs.head?.any startMarks.contains || cs.take 2 == ['0', 'x']
    || cs.any (fun c => innerMarks.contains c || isHidden c)
    || reservedWords.contains s || isNumber cs

/-! ## Quoting -/

/-- The two digits of a code point below 256. -/
def twoDigits (n : Nat) : List Char :=
  [Nat.digitChar (n / 16), Nat.digitChar (n % 16)]

/-- One character inside double quotes. -/
def escapedChar (c : Char) : List Char :=
  if c == '\x22' then ['\\', '\x22']
  else if c == '\\' then ['\\', '\\']
  else if c == '\x08' then ['\\', 'b']
  else if c == '\t' then ['\\', 't']
  else if c == '\n' then ['\\', 'n']
  else if c == '\x0c' then ['\\', 'f']
  else if c == '\r' then ['\\', 'r']
  else if c.toNat < 32 || c.toNat == 127 then '\\' :: 'u' :: '0' :: '0' :: twoDigits c.toNat
  else [c]

/-- A text in double quotes. -/
def inQuotes (s : String) : String :=
  String.ofList ('\x22' :: (s.toList.flatMap escapedChar ++ ['\x22']))

/-- A text as a scalar. -/
def written (s : String) : String :=
  if needsQuotes s then inQuotes s else s

end Valuer.Yaml
