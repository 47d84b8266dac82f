import Valuer.Yaml.Token

set_option autoImplicit false

/-! # YAML documents as trees

Builds the tree of a document from its tokens, one token at a time. What is being built is a stack
of frames, the innermost collection first; each frame says what it has and what it waits for. Before
a token is taken, what was left out before it is filled in: a missing key, value or item is the
plain scalar `~`, and a sequence that is not indented ends where no dash follows. A text must hold
exactly one document. -/

namespace Valuer.Yaml

/-- The tree of a document. Of a scalar it is known whether it was plain. -/
inductive Node where
  | scalar (plain : Bool) (text : String)
  | sequence (items : List Node)
  | mapping (entries : List (Node × Node))
  deriving Repr

/-- What stands for something left out. -/
def Node.missing : Node :=
  .scalar true "~"

/-- A part of a document that is not complete. Items and entries are kept last first. -/
inductive Frame where
  /-- Before anything. -/
  | opening
  /-- After the mark that starts the document. -/
  | content
  /-- The document is complete. -/
  | closed (root : Node)
  /-- A block sequence before a dash or its end. -/
  | block (items : List Node)
  /-- A block sequence after a dash. -/
  | blockItem (items : List Node)
  /-- A sequence that is not indented, before a dash or its end. -/
  | loose (items : List Node)
  /-- A sequence that is not indented, after a dash. -/
  | looseItem (items : List Node)
  /-- A block mapping between two entries. -/
  | entries (done : List (Node × Node))
  /-- A block mapping before a key. -/
  | entryKey (done : List (Node × Node))
  /-- A block mapping after a key. -/
  | entryColon (done : List (Node × Node)) (key : Node)
  /-- A block mapping before a value. -/
  | entryValue (done : List (Node × Node)) (key : Node)
  /-- A flow sequence after an item. -/
  | flow (items : List Node)
  /-- A flow sequence before an item or its end. -/
  | flowItem (items : List Node)
  /-- A flow sequence before the key of an item that is a single entry. -/
  | pairKey (items : List Node)
  /-- The same after the key. -/
  | pairColon (items : List Node) (key : Node)
  /-- The same before the value. -/
  | pairValue (items : List Node) (key : Node)
  /-- A flow mapping after an entry. -/
  | flowEntries (done : List (Node × Node))
  /-- A flow mapping before an entry or its end. -/
  | flowEntry (done : List (Node × Node))
  /-- A flow mapping before a key. -/
  | flowKey (done : List (Node × Node))
  /-- A flow mapping after a key. -/
  | flowColon (done : List (Node × Node)) (key : Node)
  /-- A flow mapping before a value. -/
  | flowValue (done : List (Node × Node)) (key : Node)
  deriving Repr

namespace Frame

/-- The frame with the node that it waits for. A key without a colon in a flow mapping has no value.
-/
def fill (n : Node) : Frame → Option Frame
  | opening => some (closed n)
  | content => some (closed n)
  | blockItem items => some (block (n :: items))
  | looseItem items => some (loose (n :: items))
  | entryKey done => some (entryColon done n)
  | entryColon done key => some (entries ((key, n) :: done))
  | entryValue done key => some (entries ((key, n) :: done))
  | flowItem items => some (flow (n :: items))
  | pairKey items => some (pairColon items n)
  | pairColon items key => some (flow (.mapping [(key, n)] :: items))
  | pairValue items key => some (flow (.mapping [(key, n)] :: items))
  | flowEntry done => some (flowEntries ((n, .missing) :: done))
  | flowKey done => some (flowColon done n)
  | flowColon done key => some (flowEntries ((key, n) :: done))
  | flowValue done key => some (flowEntries ((key, n) :: done))
  | _ => none

/-- The tokens that a node left out stands before. -/
def leavesOut : Frame → Token → Bool
  | content, t => t == .documentEnd
  | blockItem _, t => t == .item || t == .blockEnd
  | looseItem _, t => t == .item || t == .key || t == .value || t == .blockEnd
  | entryKey _, t => t == .key || t == .value || t == .blockEnd
  | entryValue _ _, t => t == .key || t == .value || t == .blockEnd
  | pairValue _ _, t => t == .comma || t == .sequenceEnd
  | flowKey _, t => t == .value || t == .comma || t == .mappingEnd
  | flowValue _ _, t => t == .comma || t == .mappingEnd
  | _, _ => false

/-- Whether a value is missing before the token. -/
def lacksValue : Frame → Token → Bool
  | entryColon _ _, t => t != .value
  | pairColon _ _, t => t != .value
  | flowColon _ _, t => t != .value
  | _, _ => false

/-- Whether block collections may start where the frame waits for a node. -/
def allowsBlock : Frame → Bool
  | opening => true
  | content => true
  | blockItem _ => true
  | looseItem _ => true
  | entryKey _ => true
  | entryValue _ _ => true
  | _ => false

/-- Whether a sequence that is not indented may start where the frame waits for a node. -/
def allowsLoose : Frame → Bool
  | entryKey _ => true
  | entryValue _ _ => true
  | _ => false

/-- Whether the frame waits for a node. -/
def awaitsNode : Frame → Bool
  | opening => true
  | content => true
  | blockItem _ => true
  | looseItem _ => true
  | entryKey _ => true
  | entryValue _ _ => true
  | flowItem _ => true
  | pairKey _ => true
  | pairValue _ _ => true
  | flowEntry _ => true
  | flowKey _ => true
  | flowValue _ _ => true
  | _ => false

end Frame

/-- A document under construction, the innermost frame first. -/
abbrev Building := List Frame

namespace Building

/-- Puts a complete node into the innermost frame. -/
def fill (n : Node) : Building → Option Building
  | [] => none
  | f :: outer => (f.fill n).map (· :: outer)

/-- Fills in a node that was left out before the token. -/
def fillMissing (t : Token) (b : Building) : Option Building :=
  match b with
  | f :: _ => if f.leavesOut t then Building.fill .missing b else some b
  | [] => none

/-- Ends a sequence that is not indented, unless a dash follows. -/
def endLoose (t : Token) (b : Building) : Option Building :=
  match b with
  | .loose items :: outer =>
      if t == .item then some b else Building.fill (.sequence items.reverse) outer
  | _ => some b

/-- Fills in a value that is missing before the token. -/
def fillValue (t : Token) (b : Building) : Option Building :=
  match b with
  | f :: _ => if f.lacksValue t then Building.fill .missing b else some b
  | [] => none

/-- Starts a node where one is awaited. -/
def startNode (t : Token) (b : Building) : Option Building :=
  match b, t with
  | _, .scalar plain text => Building.fill (.scalar plain text) b
  | _, .sequenceStart => some (.flowItem [] :: b)
  | _, .mappingStart => some (.flowEntry [] :: b)
  | f :: _, .blockSequence => if f.allowsBlock then some (.block [] :: b) else none
  | f :: _, .blockMapping => if f.allowsBlock then some (.entries [] :: b) else none
  | f :: _, .item => if f.allowsLoose then some (.looseItem [] :: b) else none
  | _, _ => none

/-- Takes a token that ends or continues a frame. -/
def continueFrame (t : Token) : Building → Option Building
  | .opening :: outer => if t == .documentStart then some (.content :: outer) else none
  | .closed root :: outer => if t == .documentEnd then some (.closed root :: outer) else none
  | .block items :: outer =>
      if t == .item then some (.blockItem items :: outer)
      else if t == .blockEnd then Building.fill (.sequence items.reverse) outer
      else none
  | .loose items :: outer => if t == .item then some (.looseItem items :: outer) else none
  | .entries done :: outer =>
      if t == .key then some (.entryKey done :: outer)
      else if t == .value then some (.entryValue done .missing :: outer)
      else if t == .blockEnd then Building.fill (.mapping done.reverse) outer
      else none
  | .entryColon done key :: outer =>
      if t == .value then some (.entryValue done key :: outer) else none
  | .flow items :: outer =>
      if t == .comma then some (.flowItem items :: outer)
      else if t == .sequenceEnd then Building.fill (.sequence items.reverse) outer
      else none
  | .flowItem items :: outer =>
      if t == .key then some (.pairKey items :: outer)
      else if t == .sequenceEnd then Building.fill (.sequence items.reverse) outer
      else none
  | .pairKey items :: outer =>
      if t == .value || t == .comma || t == .sequenceEnd then
        some (.pairColon items .missing :: outer)
      else none
  | .pairColon items key :: outer =>
      if t == .value then some (.pairValue items key :: outer) else none
  | .flowEntries done :: outer =>
      if t == .comma then some (.flowEntry done :: outer)
      else if t == .mappingEnd then Building.fill (.mapping done.reverse) outer
      else none
  | .flowEntry done :: outer =>
      if t == .key then some (.flowKey done :: outer)
      else if t == .value then some (.flowValue done .missing :: outer)
      else if t == .mappingEnd then Building.fill (.mapping done.reverse) outer
      else none
  | .flowColon done key :: outer =>
      if t == .value then some (.flowValue done key :: outer) else none
  | _ => none

/-- Takes the next token. -/
def take (b : Building) (t : Token) : Option Building := do
  let b ← fillMissing t b
  let b ← endLoose t b
  let b ← fillValue t b
  match continueFrame t b with
  | some b => some b
  | none =>
      match b with
      | f :: _ => if f.awaitsNode then startNode t b else none
      | [] => none

/-- The document, if it is complete at the end of the text. -/
def finish : Building → Option Node
  | [.closed root] => some root
  | [.content] => some .missing
  | _ => none

end Building

/-- The tree of the document that tokens spell. -/
def Node.ofTokens? (tokens : List Token) : Option Node := do
  (← tokens.foldlM Building.take [.opening]).finish

/-- The tree of the one document of a text. -/
def Node.ofText? (text : String) : Option Node := do
  Node.ofTokens? (← Token.ofText? text)

end Valuer.Yaml
