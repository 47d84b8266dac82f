import Valuer.Yaml.Position

set_option autoImplicit false

/-! # Scalars in YAML text

Reading one scalar, plain or quoted, from where it starts. A scalar may go on over several lines:
blanks around a line break do not count, a single break is a space, and of several all but the first
stay. A plain scalar ends where a key, a comment or a flow collection goes on, or where a line is
not indented enough; a quoted one ends at its quote. -/

namespace Valuer.Yaml

/-! ## Gaps

What stands between two words of a scalar counts only when another word follows. -/

/-- The blanks and line breaks since the last word of a scalar. -/
inductive Gap where
  | none
  /-- Blanks on one line, the last one first. -/
  | blanks (cs : List Char)
  /-- A line break, and so many more. -/
  | folded (more : Nat)
  /-- An escaped line break, and so many that are not escaped. -/
  | joined (more : Nat)
  deriving DecidableEq, Repr

namespace Gap

/-- The gap with one more blank. -/
def blank (c : Char) : Gap → Gap
  | none => blanks [c]
  | blanks cs => blanks (c :: cs)
  | gap => gap

/-- The gap with one more line break. -/
def lineBreak : Gap → Gap
  | none => folded 0
  | blanks _ => folded 0
  | folded more => folded (more + 1)
  | joined more => joined (more + 1)

/-- The text that a gap stands for between two words. -/
def text : Gap → List Char
  | none => []
  | blanks cs => cs.reverse
  | folded 0 => [' ']
  | folded more => List.replicate more '\n'
  | joined more => List.replicate more '\n'

/-- Whether the gap goes over the end of a line. -/
def hasBreak : Gap → Bool
  | none => false
  | blanks _ => false
  | folded _ => true
  | joined _ => true

/-- Puts the text of a gap in front of reversed text. -/
def before (gap : Gap) (acc : List Char) : List Char :=
  gap.text.reverse ++ acc

end Gap

/-- A scalar that was read: its text, whether a line break followed it, and where the text goes on.
-/
structure ReadScalar where
  text : List Char
  brokenAfter : Bool
  position : Position
  rest : List Char
  deriving DecidableEq, Repr

/-! ## Plain scalars -/

/-- Where a plain scalar stands. -/
structure PlainPlace where
  /-- Whether it stands in a flow collection. -/
  flow : Bool
  /-- The least column at which it may go on after a line break. -/
  indent : Int
  deriving DecidableEq, Repr

/-- Whether a plain scalar cannot go on after a gap: the line is not indented enough, a document
mark stands there, or a comment. -/
def stopsAfterGap (place : PlainPlace) (p : Position) (cs : List Char) : Bool :=
  (!place.flow && decide ((p.column : Int) < place.indent))
    || (p.column == 0 && (atStartMark cs || atEndMark cs))
    || cs.head? == some '#'

/-- Whether a plain scalar ends before this character: a colon that makes it a key, or a character
that structures the flow collection around it. -/
def stopsWord (place : PlainPlace) (c : Char) (rest : List Char) : Bool :=
  (c == ':' && (endsWord rest || (place.flow && rest.head?.any isFlow)))
    || (place.flow && isFlow c)

/-- Reads a plain scalar. A tab that indents a line too little is refused. -/
def readPlain (place : PlainPlace) (acc : List Char) (gap : Gap) (p : Position) :
    List Char → Option ReadScalar
  | [] => some ⟨acc.reverse, gap.hasBreak, p, []⟩
  | c :: rest =>
      if isBlank c then
        if gap.hasBreak && c == '\t' && decide ((p.column : Int) < place.indent) then none
        else readPlain place acc (gap.blank c) (p.next c) rest
      else if isBreak c then readPlain place acc gap.lineBreak (p.next c) rest
      else if (gap != .none && stopsAfterGap place p (c :: rest)) || stopsWord place c rest then
        some ⟨acc.reverse, gap.hasBreak, p, c :: rest⟩
      else readPlain place (c :: gap.before acc) .none (p.next c) rest

/-! ## Quoted scalars -/

/-- The two quotes. -/
inductive Quote where
  | single
  | double
  deriving DecidableEq, Repr

/-- The character of a quote. -/
def Quote.mark : Quote → Char
  | .single => '\x27'
  | .double => '\x22'

/-- The value of a hexadecimal digit of either case. -/
def hexValue? (c : Char) : Option Nat :=
  if '0' ≤ c ∧ c ≤ '9' then some (c.toNat - '0'.toNat)
  else if 'a' ≤ c ∧ c ≤ 'f' then some (c.toNat - 'a'.toNat + 10)
  else if 'A' ≤ c ∧ c ≤ 'F' then some (c.toNat - 'A'.toNat + 10)
  else none

/-- What follows a backslash: a character by its letter, or the number of the hexadecimal digits
that give its code point. -/
def escape? (c : Char) : Option (Char ⊕ Nat) :=
  if c == '0' then some (.inl '\x00')
  else if c == 'a' then some (.inl '\x07')
  else if c == 'b' then some (.inl '\x08')
  else if c == 't' || c == '\t' then some (.inl '\t')
  else if c == 'n' then some (.inl '\n')
  else if c == 'v' then some (.inl '\x0b')
  else if c == 'f' then some (.inl '\x0c')
  else if c == 'r' then some (.inl '\r')
  else if c == 'e' then some (.inl '\x1b')
  else if c == ' ' || c == '\x22' || c == '\x27' || c == '\\' then some (.inl c)
  else if c == 'N' then some (.inl '\u0085')
  else if c == '_' then some (.inl '\u00a0')
  else if c == 'L' then some (.inl '\u2028')
  else if c == 'P' then some (.inl '\u2029')
  else if c == 'x' then some (.inr 2)
  else if c == 'u' then some (.inr 4)
  else if c == 'U' then some (.inr 8)
  else none

/-- The character of a code point. -/
def charOf? (n : Nat) : Option Char :=
  if n.isValidChar then some (Char.ofNat n) else none

/-- Where the reading of a quoted scalar stands. -/
inductive QuotedPlace where
  /-- In the text, after a gap. -/
  | text (gap : Gap)
  /-- Before the second of two quotes that stand for one. -/
  | doubled
  /-- After a backslash. -/
  | escape
  /-- Before so many more digits of a code point. -/
  | code (more value : Nat)
  deriving DecidableEq, Repr

/-- Reads a quoted scalar after its opening quote. -/
def readQuoted (q : Quote) (acc : List Char) (place : QuotedPlace) (p : Position) :
    List Char → Option ReadScalar
  | [] => none
  | c :: rest =>
      match place with
      | .doubled => readQuoted q (c :: acc) (.text .none) (p.next c) rest
      | .escape =>
          if isBreak c then readQuoted q acc (.text (.joined 0)) (p.next c) rest
          else match escape? c with
            | none => none
            | some (.inl d) => readQuoted q (d :: acc) (.text .none) (p.next c) rest
            | some (.inr n) => readQuoted q acc (.code (n - 1) 0) (p.next c) rest
      | .code more value =>
          match hexValue? c with
          | none => none
          | some d =>
              match more with
              | 0 =>
                  match charOf? (16 * value + d) with
                  | none => none
                  | some d => readQuoted q (d :: acc) (.text .none) (p.next c) rest
              | more + 1 => readQuoted q acc (.code more (16 * value + d)) (p.next c) rest
      | .text gap =>
          if isBlank c then readQuoted q acc (.text (gap.blank c)) (p.next c) rest
          else if isBreak c then readQuoted q acc (.text gap.lineBreak) (p.next c) rest
          else if p.column == 0 && (atStartMark (c :: rest) || atEndMark (c :: rest)) then none
          else if c == q.mark then
            if q == .single && rest.head? == some q.mark then
              readQuoted q (gap.before acc) .doubled (p.next c) rest
            else some ⟨(gap.before acc).reverse, false, p.next c, rest⟩
          else if q == .double && c == '\\' then
            readQuoted q (gap.before acc) .escape (p.next c) rest
          else readQuoted q (c :: gap.before acc) (.text .none) (p.next c) rest

end Valuer.Yaml
