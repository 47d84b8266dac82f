import Valuer.Yaml.Scalar

set_option autoImplicit false

/-! # Tokens of YAML text

Cuts a text into the tokens that give its structure. Indentation becomes tokens of its own: a block
collection has a token at its start and one at its end. What a token means can be known late: that a
scalar or a flow collection is a key shows only when a colon follows on its line, so the place of
the last possible key is kept for each open flow collection, and the tokens that mark it as a key
are put there afterwards. Texts with anchors, tags, directives or block scalars are refused. -/

namespace Valuer.Yaml

/-- The tokens that give the structure of a text. -/
inductive Token where
  | documentStart
  | documentEnd
  | blockSequence
  | blockMapping
  | blockEnd
  | sequenceStart
  | sequenceEnd
  | mappingStart
  | mappingEnd
  /-- A dash before an item. -/
  | item
  /-- A comma. -/
  | comma
  /-- What follows is a key. -/
  | key
  /-- What follows is a value. -/
  | value
  | scalar (plain : Bool) (text : String)
  deriving DecidableEq, Repr

/-- A place where a key may have started. -/
structure PossibleKey where
  start : Position
  /-- Whether the text is refused if no key starts here. -/
  required : Bool
  /-- The number of tokens before it. -/
  before : Nat
  deriving DecidableEq, Repr

/-- The state of cutting a text. -/
structure Cutting where
  rest : List Char
  position : Position := {}
  tokens : Array Token := #[]
  /-- Whether a key may start here. -/
  keyAllowed : Bool := true
  /-- The last possible key outside of all flow collections. -/
  possible : Option PossibleKey := none
  /-- For each open flow collection, the last possible key in it, innermost first. -/
  flow : List (Option PossibleKey) := []
  /-- The column of the innermost block collection; minus one outside of all. -/
  indent : Int := -1
  /-- The columns of the block collections around it, innermost first. -/
  outer : List Int := []
  /-- Where the last quoted scalar ended: a colon there makes it a key in any case. -/
  quotedEnd : Nat := 0
  deriving DecidableEq, Repr

namespace Cutting

/-- Whether a flow collection is open. -/
def inFlow (s : Cutting) : Bool :=
  !s.flow.isEmpty

/-- The column of the next character. -/
def column (s : Cutting) : Int :=
  s.position.column

/-- The possible key where the text stands. -/
def current (s : Cutting) : Option PossibleKey :=
  s.flow.headD s.possible

/-- Changes the possible key where the text stands. -/
def setCurrent (s : Cutting) (k : Option PossibleKey) : Cutting :=
  match s.flow with
  | [] => { s with possible := k }
  | _ :: outer => { s with flow := k :: outer }

/-- Adds a token. -/
def emit (s : Cutting) (t : Token) : Cutting :=
  { s with tokens := s.tokens.push t }

/-- Adds a token after the first `n`. -/
def emitAt (s : Cutting) (n : Nat) (t : Token) : Cutting :=
  { s with tokens := s.tokens.insertIdxIfInBounds n t }

/-- Takes characters from the front of the text. -/
def take (s : Cutting) (n : Nat) : Cutting :=
  { s with
    rest := s.rest.drop n
    position := (s.rest.take n).foldl .next s.position }

/-! ## Blanks and comments -/

/-- Skips blanks, line breaks and comments. A line break outside of flow collections allows a key;
where a key is allowed there a tab is not skipped. -/
def skipBlanks (inFlow comment keyAllowed : Bool) (p : Position) :
    List Char → Bool × Position × List Char
  | [] => (keyAllowed, p, [])
  | c :: rest =>
      if isBreak c then skipBlanks inFlow false (keyAllowed || !inFlow) (p.next c) rest
      else if comment || c == ' ' || (c == '\t' && (inFlow || !keyAllowed)) then
        skipBlanks inFlow comment keyAllowed (p.next c) rest
      else if c == '#' then skipBlanks inFlow true keyAllowed (p.next c) rest
      else (keyAllowed, p, c :: rest)

/-- The state before the next token. -/
def toToken (s : Cutting) : Cutting :=
  let (keyAllowed, position, rest) := skipBlanks s.inFlow false s.keyAllowed s.position s.rest
  { s with keyAllowed, position, rest }

/-! ## Possible keys -/

/-- The greatest number of characters between the start of a key and its colon. -/
def keyLength : Nat := 1024

/-- Drops a possible key whose line has ended or that is too long. -/
def refresh (p : Position) : Option PossibleKey → Option (Option PossibleKey)
  | none => some none
  | some k =>
      if k.start.line < p.line ∨ k.start.index + keyLength < p.index then
        if k.required then none else some none
      else some (some k)

/-- Drops the possible keys that can no longer be keys. -/
def refreshKeys (s : Cutting) : Option Cutting := do
  let possible ← refresh s.position s.possible
  let flow ← s.flow.mapM (refresh s.position)
  return { s with possible, flow }

/-- Gives up the possible key where the text stands. -/
def dropKey (s : Cutting) : Option Cutting :=
  match s.current with
  | some k => if k.required then none else some (s.setCurrent none)
  | none => some s

/-- Notes that a key may start here, where one is allowed. -/
def noteKey (s : Cutting) : Option Cutting :=
  if s.keyAllowed then do
    let k : PossibleKey :=
      { start := s.position
        required := s.inFlow && s.indent == s.column
        before := s.tokens.size }
    return (← s.dropKey).setCurrent (some k)
  else some s

/-! ## Indentation -/

/-- Closes the block collections that start right of a column. -/
def closeBlocks (column : Int) (tokens : Array Token) (indent : Int) :
    List Int → Array Token × Int × List Int
  | [] =>
      if column < indent then (tokens.push .blockEnd, -1, []) else (tokens, indent, [])
  | next :: outer =>
      if column < indent then closeBlocks column (tokens.push .blockEnd) next outer
      else (tokens, indent, next :: outer)

/-- Closes the block collections that start right of a column, unless in a flow collection. -/
def dedent (s : Cutting) (column : Int) : Cutting :=
  if s.inFlow then s
  else
    let (tokens, indent, outer) := closeBlocks column s.tokens s.indent s.outer
    { s with tokens, indent, outer }

/-- Opens a block collection at a column, unless one is open there or in a flow collection. Its
token goes after the first `n`. -/
def indentAt (s : Cutting) (column : Int) (n : Nat) (t : Token) : Cutting :=
  if s.inFlow || column ≤ s.indent then s
  else { s with indent := column, outer := s.indent :: s.outer }.emitAt n t

/-! ## Tokens one by one -/

/-- The greatest number of flow collections within each other. -/
def flowDepth : Nat := 255

/-- A document mark. -/
def takeMark (s : Cutting) (t : Token) : Option Cutting := do
  let s ← (s.dedent (-1)).dropKey
  return { s with keyAllowed := false }.take 3 |>.emit t

/-- The start of a flow collection, which may be a key. -/
def takeOpening (s : Cutting) (t : Token) : Option Cutting := do
  let s ← s.noteKey
  if s.flow.length = flowDepth then none
  else return { s with flow := none :: s.flow, keyAllowed := true }.take 1 |>.emit t

/-- The end of a flow collection. -/
def takeClosing (s : Cutting) (t : Token) : Option Cutting := do
  let s ← s.dropKey
  return { s with flow := s.flow.tail, keyAllowed := false }.take 1 |>.emit t

/-- A comma. -/
def takeComma (s : Cutting) : Option Cutting := do
  let s ← s.dropKey
  return { s with keyAllowed := true }.take 1 |>.emit .comma

/-- A dash before an item. -/
def takeItem (s : Cutting) : Option Cutting := do
  if s.inFlow || !s.keyAllowed then none
  let s ← (s.indentAt s.column s.tokens.size .blockSequence).dropKey
  return { s with keyAllowed := true }.take 1 |>.emit .item

/-- A question mark before a key. -/
def takeKey (s : Cutting) : Option Cutting := do
  if !s.inFlow && !s.keyAllowed then none
  let s ← (s.indentAt s.column s.tokens.size .blockMapping).dropKey
  return { s with keyAllowed := !s.inFlow }.take 1 |>.emit .key

/-- A colon before a value. What may be a key is one. -/
def takeValue (s : Cutting) : Option Cutting :=
  match s.current with
  | some k =>
      let s := (s.emitAt k.before .key).indentAt k.start.column k.before .blockMapping
      some ({ s.setCurrent none with keyAllowed := false }.take 1 |>.emit .value)
  | none =>
      if !s.inFlow && !s.keyAllowed then none
      else
        let s := s.indentAt s.column s.tokens.size .blockMapping
        some ({ s with keyAllowed := !s.inFlow }.take 1 |>.emit .value)

/-- A plain scalar. -/
def takePlain (s : Cutting) : Option Cutting := do
  let s ← s.noteKey
  let r ← readPlain ⟨s.inFlow, s.indent + 1⟩ [] .none s.position s.rest
  return { s with position := r.position, rest := r.rest, keyAllowed := r.brokenAfter }.emit
    (.scalar true (String.ofList r.text))

/-- A quoted scalar. -/
def takeQuoted (s : Cutting) (q : Quote) : Option Cutting := do
  let s := (← s.noteKey).take 1
  let r ← readQuoted q [] (.text .none) s.position s.rest
  let s := { s with
    position := r.position
    rest := r.rest
    keyAllowed := false
    quotedEnd := r.position.index }
  return s.emit (.scalar false (String.ofList r.text))

/-- Whether a colon here stands before a value. -/
def isValueMark (s : Cutting) (rest : List Char) : Bool :=
  endsWord rest
    || (s.inFlow && (rest.head?.any isFlow || s.position.index == s.quotedEnd))

/-- The next token, at the first character of `c :: rest`. -/
def takeToken (s : Cutting) (c : Char) (rest : List Char) : Option Cutting :=
  if s.position.column == 0 && c == '%' then none
  else if s.position.column == 0 && atStartMark (c :: rest) then s.takeMark .documentStart
  else if s.position.column == 0 && atEndMark (c :: rest) then s.takeMark .documentEnd
  else if c == '[' then s.takeOpening .sequenceStart
  else if c == '\x7b' then s.takeOpening .mappingStart
  else if c == ']' then s.takeClosing .sequenceEnd
  else if c == '\x7d' then s.takeClosing .mappingEnd
  else if c == ',' then s.takeComma
  else if c == '-' && endsWord rest then s.takeItem
  else if c == '?' && endsWord rest then s.takeKey
  else if c == ':' && s.isValueMark rest then s.takeValue
  else if c == '*' || c == '&' || c == '!' then none
  else if !s.inFlow && (c == '|' || c == '>') then none
  else if c == '\x27' then s.takeQuoted .single
  else if c == '\x22' then s.takeQuoted .double
  else if c == '%' || c == '@' || c == '\x60' then none
  else s.takePlain

/-- What is left to do at the end of the text. -/
def finish (s : Cutting) : Option (List Token) := do
  let s ← (s.dedent (-1)).dropKey
  return s.tokens.toList

/-- Takes tokens to the end of the text. Each takes at least one character. -/
def takeAll (s : Cutting) : Option (List Token) :=
  match s.toToken.refreshKeys with
  | none => none
  | some ready =>
      let ready := ready.dedent ready.column
      match ready.rest with
      | [] => ready.finish
      | c :: rest =>
          match ready.takeToken c rest with
          | none => none
          | some next => if next.rest.length < s.rest.length then next.takeAll else none
termination_by s.rest.length

end Cutting

/-- The tokens of a text, if it can be cut into tokens. -/
def Token.ofText? (text : String) : Option (List Token) :=
  Cutting.takeAll { rest := clean text.toList }

end Valuer.Yaml
