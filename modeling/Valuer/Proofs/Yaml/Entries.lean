import Valuer.Proofs.Yaml.Scanning

set_option autoImplicit false

/-! # The tokens of an entry

An entry of a block mapping stands at the start of a line: a key, a colon, and a value that is a
scalar, an empty list, or a list with one word on each of the lines below. -/

namespace Valuer.Yaml

/-! ## Plain texts -/

/-- The characters that can start something else than a plain scalar. -/
def marks : List Char :=
  ['%', '-', '.', '[', '\x7b', ']', '\x7d', ',', '?', ':', '*', '&', '!', '|', '>', '\x27', '\x22',
    '@', '\x60']

/-- A text that can be written plain on one line. -/
structure PlainText (cs : List Char) : Prop where
  nonempty : cs ≠ []
  chars : ∀ c ∈ cs, isPlainChar c = true
  head : ∀ c ∈ cs.head?, c ≠ ' ' ∧ c ∉ marks
  last : cs.getLast? ≠ some ' '

theorem PlainText.atWord {cs : List Char} (h : PlainText cs) (rest : List Char) :
    AtWord (cs ++ rest) := by
  obtain ⟨c, cs, rfl⟩ := List.exists_cons_of_ne_nil h.nonempty
  intro d hd
  obtain rfl : c = d := by simpa using hd
  have hplain := h.chars c List.mem_cons_self
  simp only [isPlainChar, Bool.and_eq_true, Bool.not_eq_true', bne_iff_ne, ne_eq] at hplain
  obtain ⟨⟨⟨hbreak, htab⟩, -⟩, hcomment⟩ := hplain
  have hspace := (h.head c rfl).1
  exact ⟨Bool.eq_false_iff.2 fun hblank => hspace ((isBlank_iff htab).1 hblank), hbreak, hcomment⟩

/-- Letters and digits. -/
structure IsWord (cs : List Char) : Prop where
  nonempty : cs ≠ []
  chars : ∀ c ∈ cs, c.isAlphanum = true

theorem IsWord.plainText {cs : List Char} (h : IsWord cs) : PlainText cs where
  nonempty := h.nonempty
  chars c hc := by
    have hall : ∀ d ∈ ['\n', '\r', '\t', ':', '#'], (!d.isAlphanum) = true :=
      List.all_eq_true.1 (by decide)
    have hne : ∀ d ∈ ['\n', '\r', '\t', ':', '#'], c ≠ d := by
      rintro d hd rfl
      exact absurd (h.chars c hc) (by simpa using hall c hd)
    simp [isPlainChar, isBreak, hne]
  head c hc := by
    have hall : ∀ d ∈ ' ' :: marks, (!d.isAlphanum) = true := List.all_eq_true.1 (by decide)
    have hnot : c ∉ ' ' :: marks := fun hmem =>
      absurd (h.chars c (List.mem_of_head? hc)) (by simpa using hall c hmem)
    rw [List.mem_cons, not_or] at hnot
    exact hnot
  last hlast := absurd (h.chars ' ' (List.mem_of_getLast? hlast)) (by decide)

/-- A text that needs no quotes can be written plain, and holds no NUL. -/
theorem plainText_of_needsQuotes {s : String} (h : needsQuotes s = false) :
    PlainText s.toList ∧ '\x00' ∉ s.toList := by
  simp only [needsQuotes, Bool.or_eq_false_iff, List.any_eq_false, Bool.not_eq_true] at h
  obtain ⟨⟨⟨⟨⟨⟨⟨hempty, hfirst⟩, hlast⟩, hstart⟩, -⟩, hinner⟩, -⟩, -⟩ := h
  have hclean : ∀ c ∈ s.toList, c ∉ innerMarks ∧ isHidden c = false := by
    intro c hc
    simpa using hinner c hc
  refine ⟨⟨by simpa using hempty, ?_, ?_, by simpa using hlast⟩, ?_⟩
  · intro c hc
    obtain ⟨hmark, hhidden⟩ := hclean c hc
    have hcontrols : ∀ d ∈ ['\n', '\r', '\t'], isHidden d = true :=
      List.all_eq_true.1 (by decide)
    have hmarks : ∀ d ∈ [':', '#'], innerMarks.contains d = true :=
      List.all_eq_true.1 (by decide)
    have hcontrol : ∀ d ∈ ['\n', '\r', '\t'], c ≠ d := by
      rintro d hd rfl
      exact Bool.noConfusion (hhidden.symm.trans (hcontrols c hd))
    have hno : ∀ d ∈ [':', '#'], c ≠ d := by
      rintro d hd rfl
      exact hmark (List.contains_iff_mem.1 (hmarks c hd))
    simp [isPlainChar, isBreak, hcontrol, hno]
  · intro c hc
    have hmem : c ∈ s.toList := List.mem_of_head? hc
    have hmarks : ∀ d ∈ marks, (startMarks.contains d || innerMarks.contains d) = true :=
      List.all_eq_true.1 (by decide)
    rw [Option.mem_def.1 hc] at hfirst hstart
    refine ⟨by simpa using hfirst, fun hmark => ?_⟩
    rcases Bool.or_eq_true_iff.1 (hmarks c hmark) with hbad | hbad
    · exact absurd hbad (by simpa using hstart)
    · exact (hclean c hmem).1 (List.contains_iff_mem.1 hbad)
  · intro hnull
    exact absurd (hclean _ hnull).2 (by decide)

/-! ## Blocks around a place -/

/-- The blocks around a place of a document: none, a mapping at the first column, or a list in it
that is indented by two columns. -/
inductive Around where
  | nothing
  | mapping
  | list
  deriving DecidableEq

namespace Around

/-- The column of the innermost block. -/
def indent : Around → Int
  | nothing => -1
  | mapping => 0
  | list => 2

/-- The columns of the blocks around it. -/
def outer : Around → List Int
  | nothing => []
  | mapping => [-1]
  | list => [0, -1]

/-- The blocks `b` are those of `a`, or one more that starts further right. -/
def Enters (a b : Around) : Prop :=
  a = b ∨ (a.indent < b.indent ∧ b.outer = a.indent :: a.outer)

/-- The token of a block that starts, if it does. -/
def opening (a b : Around) (t : Token) : List Token :=
  if a = b then [] else [t]

theorem Enters.indent_le {a b : Around} (h : a.Enters b) : a.indent ≤ b.indent := by
  rcases h with rfl | ⟨hright, -⟩
  · exact Int.le_refl _
  · exact Int.le_of_lt hright

end Around

namespace Cutting

variable {s r : Cutting} {a b : Around} {column n : Nat} {keyAllowed : Bool}
  {tokens : List Token} {cs rest more : List Char} {c : Char} {ts : Array Token}

/-! ## Tokens so far -/

theorem toList_emit (s : Cutting) (t : Token) :
    (s.emit t).tokens.toList = s.tokens.toList ++ [t] := by
  simp [emit]

theorem insertIdx_length {α : Type} (before after : List α) (x : α) :
    (before ++ after).insertIdx before.length x = before ++ x :: after := by
  induction before with
  | nil => rfl
  | cons y before ih =>
      rw [List.cons_append, List.length_cons, List.insertIdx_succ_cons, ih, List.cons_append]

theorem toList_emitAt {before after : List Token} (h : s.tokens.toList = before ++ after)
    (t : Token) : (s.emitAt before.length t).tokens.toList = before ++ t :: after := by
  have hsize : before.length ≤ s.tokens.size := by
    rw [← Array.length_toList, h, List.length_append]
    omega
  rw [emitAt, Array.insertIdxIfInBounds, dif_pos hsize, Array.toList_insertIdx, h,
    insertIdx_length]

/-! ## Between two tokens, outside of flow collections -/

theorem inFlow_of_flow (h : s.flow = []) : s.inFlow = false := by
  rw [inFlow, h]
  rfl

theorem closeBlocks_of_le {column indent : Int} (h : indent ≤ column) (tokens : Array Token)
    (outer : List Int) : closeBlocks column tokens indent outer = (tokens, indent, outer) := by
  have hnot : ¬ column < indent := by omega
  cases outer <;> simp [closeBlocks, hnot]

theorem dedent_of_le {column : Int} (h : s.indent ≤ column) : s.dedent column = s := by
  unfold dedent
  rw [closeBlocks_of_le h]
  exact ite_self s

theorem ready?_eq {p : Position} {possible : Option PossibleKey} (hflow : s.flow = [])
    (hskip : skipBlanks false false s.keyAllowed s.position s.rest = (keyAllowed, p, rest))
    (hkey : refresh p s.possible = some possible) :
    s.ready? = some ({ s with keyAllowed, position := p, rest, possible }.dedent p.column) := by
  rw [ready?, toToken, inFlow_of_flow hflow, hskip]
  simp only [refreshKeys, hkey, hflow]
  rfl

/-- The text stands outside of flow collections, where no key waits for its colon: at this column,
where a key may start or not, inside these blocks, after these tokens and before this text. -/
structure Standing (s : Cutting) (column : Nat) (keyAllowed : Bool) (a : Around)
    (tokens : List Token) (rest : List Char) : Prop where
  column : s.position.column = column
  keyAllowed : s.keyAllowed = keyAllowed
  possible : s.possible = none
  flow : s.flow = []
  indent : s.indent = a.indent
  outer : s.outer = a.outer
  tokens : s.tokens.toList = tokens
  rest : s.rest = rest

/-- The next token is the first one of another line: it stands at this column, `rest` starts with
it, and a key may start there. What might have been a key before is none. -/
structure NextLine (s : Cutting) (column : Nat) (a : Around) (tokens : List Token)
    (rest : List Char) : Prop where
  skip : ∃ p : Position, p.column = column ∧
    skipBlanks false false s.keyAllowed s.position s.rest = (true, p, rest) ∧
    refresh p s.possible = some none
  flow : s.flow = []
  indent : s.indent = a.indent
  outer : s.outer = a.outer
  tokens : s.tokens.toList = tokens

/-- Spaces are skipped. -/
theorem Standing.exists_onward
    (h : s.Standing column keyAllowed a tokens (List.replicate n ' ' ++ rest))
    (ha : a.indent ≤ (column + n : Nat)) (hrest : AtWord rest) :
    ∃ r : Cutting, s.takeAll = r.onward ∧ r.Standing (column + n) keyAllowed a tokens rest := by
  obtain ⟨hcolumn, hallowed, hpossible, hflow, hindent, houter, htokens, htext⟩ := h
  let skipped : Cutting := { s with position := s.position.ahead n, rest }
  have hskip : skipBlanks false false s.keyAllowed s.position s.rest
      = (s.keyAllowed, s.position.ahead n, rest) := by
    rw [htext, skipBlanks_spaces, skipBlanks_of_atWord hrest]
  have hkey : refresh (s.position.ahead n) s.possible = some s.possible := by
    rw [hpossible, refresh]
  have hright : skipped.indent ≤ skipped.position.column := by
    show s.indent ≤ (s.position.column + n : Nat)
    rw [hindent, hcolumn]
    exact ha
  have hready : s.ready? = some skipped := by
    rw [ready?_eq hflow hskip hkey]
    exact congrArg some (dedent_of_le hright)
  refine ⟨skipped, by rw [takeAll_eq, hready, Option.bind_some], ?_⟩
  exact ⟨by rw [← hcolumn]; rfl, hallowed, hpossible, hflow, hindent, houter, htokens, rfl⟩

/-- A line break and spaces bring the text to another line. -/
theorem Standing.nextLine
    (h : s.Standing column keyAllowed a tokens ('\n' :: (List.replicate n ' ' ++ rest)))
    (hrest : AtWord rest) : s.NextLine n a tokens rest := by
  obtain ⟨-, -, hpossible, hflow, hindent, houter, htokens, htext⟩ := h
  refine ⟨⟨⟨s.position.index + 1 + n, s.position.line + 1, n⟩, rfl, ?_, ?_⟩, hflow, hindent, houter,
    htokens⟩
  · rw [htext, skipBlanks_lineBreak hrest]
  · rw [hpossible, refresh]

/-- Before the first token of a line the blocks are closed that start further right. -/
theorem NextLine.exists_closed (h : s.NextLine column a tokens rest)
    (hclose : closeBlocks column s.tokens a.indent a.outer = (ts, b.indent, b.outer)) :
    ∃ r : Cutting, s.takeAll = r.onward ∧ r.Standing column true b ts.toList rest := by
  obtain ⟨⟨p, rfl, hskip, hkey⟩, hflow, hindent, houter, -⟩ := h
  let skipped : Cutting := { s with keyAllowed := true, position := p, rest, possible := none }
  have hready : s.ready? = some (skipped.dedent p.column) := ready?_eq hflow hskip hkey
  have hdedent : skipped.dedent p.column
      = { skipped with tokens := ts, indent := b.indent, outer := b.outer } := by
    have hblocks : closeBlocks p.column skipped.tokens skipped.indent skipped.outer
        = (ts, b.indent, b.outer) := by
      rw [← hclose, ← hindent, ← houter]
    rw [dedent, inFlow_of_flow (s := skipped) hflow, hblocks]
    rfl
  refine ⟨_, by rw [takeAll_eq, hready, Option.bind_some], ?_⟩
  rw [hdedent]
  exact ⟨rfl, rfl, rfl, hflow, rfl, rfl, rfl, rfl⟩

/-- The blocks that start no further right than a line stay open. -/
theorem NextLine.exists_standing (h : s.NextLine column a tokens rest) (ha : a.indent ≤ column) :
    ∃ r : Cutting, s.takeAll = r.onward ∧ r.Standing column true a tokens rest := by
  obtain ⟨r, hgo, hr⟩ := h.exists_closed (closeBlocks_of_le ha s.tokens a.outer)
  exact ⟨r, hgo, h.tokens ▸ hr⟩

/-- A list ends where a line starts at the first column, and the mapping around it goes on. -/
theorem NextLine.exists_standing_of_list (h : s.NextLine 0 .list tokens rest) :
    ∃ r : Cutting, s.takeAll = r.onward ∧
      r.Standing 0 true .mapping (tokens ++ [.blockEnd]) rest := by
  have hclose : closeBlocks (0 : Nat) s.tokens Around.list.indent Around.list.outer
      = (s.tokens.push .blockEnd, Around.mapping.indent, Around.mapping.outer) := by rfl
  obtain ⟨r, hgo, hr⟩ := h.exists_closed hclose
  rw [Array.toList_push, h.tokens] at hr
  exact ⟨r, hgo, hr⟩

/-! ## The next token by its first character -/

theorem takeToken_of_not_mem_marks (h : c ∉ marks) (rest : List Char) :
    s.takeToken c rest = s.takePlain := by
  have hne : ∀ m ∈ marks, (c == m) = false := by
    intro m hm
    exact beq_eq_false_iff_ne.2 fun heq => h (heq ▸ hm)
  have hstart : atStartMark (c :: rest) = false := by
    unfold atStartMark
    split
    · next heq => exact absurd (List.cons.inj heq).1 (beq_eq_false_iff_ne.1 (hne '-' (by decide)))
    · rfl
  have hend : atEndMark (c :: rest) = false := by
    unfold atEndMark
    split
    · next heq => exact absurd (List.cons.inj heq).1 (beq_eq_false_iff_ne.1 (hne '.' (by decide)))
    · rfl
  simp only [marks, List.forall_mem_cons] at hne
  simp [takeToken, hstart, hend, hne]

theorem takeToken_colon (h : endsWord rest = true) : s.takeToken ':' rest = s.takeValue := by
  simp [takeToken, isValueMark, h, atStartMark, atEndMark]

theorem takeToken_dash (hcolumn : s.position.column ≠ 0) (h : endsWord rest = true) :
    s.takeToken '-' rest = s.takeItem := by
  simp [takeToken, h, hcolumn]

theorem takeToken_quote : s.takeToken '\x22' rest = s.takeQuoted .double := by
  simp [takeToken, atStartMark, atEndMark]

theorem takeToken_opening : s.takeToken '[' rest = s.takeOpening .sequenceStart := by
  simp [takeToken, atStartMark, atEndMark]

theorem takeToken_closing : s.takeToken ']' rest = s.takeClosing .sequenceEnd := by
  simp [takeToken, atStartMark, atEndMark]

/-! ## Scalars -/

theorem noteKey_of_not_allowed (h : s.keyAllowed = false) : s.noteKey = some s := by
  rw [noteKey, h]
  rfl

theorem noteKey_of_allowed (h : s.keyAllowed = true) (hflow : s.flow = [])
    (hpossible : s.possible = none) :
    s.noteKey = some { s with possible := some ⟨s.position, false, s.tokens.size⟩ } := by
  simp [noteKey, h, dropKey, current, setCurrent, hflow, hpossible, inFlow]

/-- Whether a key is noted or not, on another line there is none. -/
theorem Standing.exists_noteKey (h : s.Standing column keyAllowed a tokens rest) :
    ∃ possible, s.noteKey = some { s with possible } ∧
      ∀ p : Position, s.position.line < p.line → refresh p possible = some none := by
  cases keyAllowed with
  | false =>
      refine ⟨none, ?_, fun p _ => rfl⟩
      rw [noteKey_of_not_allowed h.keyAllowed, ← h.possible]
  | true =>
      refine ⟨_, noteKey_of_allowed h.keyAllowed h.flow h.possible, fun p hline => ?_⟩
      exact if_pos (.inl hline)

/-- A plain scalar is read to where it ends. -/
theorem takePlain_eq {possible : Option PossibleKey} {read : ReadScalar}
    (hnote : s.noteKey = some { s with possible }) (hflow : s.flow = [])
    (hread : readPlain ⟨false, s.indent + 1⟩ [] .none s.position s.rest = some read) :
    s.takePlain = some ({ s with
      possible
      position := read.position
      rest := read.rest
      keyAllowed := read.brokenAfter }.emit (.scalar true (String.ofList read.text))) := by
  have hin : Cutting.inFlow { s with possible } = false := inFlow_of_flow hflow
  simp only [takePlain, hnote, Option.bind_eq_bind, Option.bind_some, hin, hread]
  rfl

/-- A plain scalar ends with its line if the next one is not indented more than the blocks. -/
theorem Standing.exists_nextLine_of_plain
    (h : r.Standing column keyAllowed a tokens (cs ++ '\n' :: (List.replicate n ' ' ++ more)))
    (hcs : PlainText cs) (ha : a.indent ≤ column) (hn : (n : Int) ≤ a.indent)
    (hmore : AtWord more) :
    ∃ s : Cutting, r.onward = s.takeAll ∧
      s.NextLine n a (tokens ++ [.scalar true (String.ofList cs)]) more := by
  obtain ⟨possible, hnote, hstale⟩ := h.exists_noteKey
  obtain ⟨c, word, rfl⟩ := List.exists_cons_of_ne_nil hcs.nonempty
  obtain ⟨hcolumn, -, -, hflow, hindent, houter, htokens, hrest⟩ := h
  let after : Position :=
    ⟨r.position.index + (c :: word).length + 1 + n, r.position.line + 1, n⟩
  have hread : readPlain ⟨false, r.indent + 1⟩ [] .none r.position r.rest
      = some ⟨c :: word, true, after, more⟩ := by
    rw [hrest, readPlain_text hcs.chars hcs.nonempty hcs.last (by omega),
      readPlain_lineBreak (by omega) hmore, List.reverse_reverse]
    rfl
  have htake := takePlain_eq hnote hflow hread
  rw [← takeToken_of_not_mem_marks (hcs.head c rfl).2] at htake
  refine ⟨_, onward_of_takeToken hrest htake, ⟨after, rfl, skipBlanks_of_atWord hmore, ?_⟩, hflow,
    hindent, houter, ?_⟩
  · exact hstale after (Nat.lt_succ_self _)
  · rw [toList_emit, ← htokens]

/-- A quoted scalar ends at its quote, and here its line with it. -/
theorem Standing.exists_nextLine_of_quoted
    (h : r.Standing column false a tokens
      ('\x22' :: (cs.flatMap escapedChar ++ '\x22' :: '\n' :: more)))
    (hmore : AtWord more) :
    ∃ s : Cutting, r.onward = s.takeAll ∧
      s.NextLine 0 a (tokens ++ [.scalar false (String.ofList cs)]) more := by
  obtain ⟨-, hallowed, hpossible, hflow, hindent, houter, htokens, hrest⟩ := h
  let after : Position := (r.position.ahead 1).ahead ((cs.flatMap escapedChar).length + 1)
  have hread : readQuoted .double [] (.text .none) (r.position.ahead 1)
      (cs.flatMap escapedChar ++ '\x22' :: '\n' :: more) = some ⟨cs, false, after, '\n' :: more⟩ :=
    readQuoted_escaped rfl (Nat.succ_pos _)
  have hmark : r.take 1 = { r with
      position := r.position.ahead 1
      rest := cs.flatMap escapedChar ++ '\x22' :: '\n' :: more } := by
    rw [take, hrest]
    rfl
  let read : Cutting := { r with
    position := after
    rest := '\n' :: more
    keyAllowed := false
    quotedEnd := after.index }.emit (.scalar false (String.ofList cs))
  have htake : r.takeToken '\x22' (cs.flatMap escapedChar ++ '\x22' :: '\n' :: more)
      = some read := by
    rw [takeToken_quote, takeQuoted, noteKey_of_not_allowed hallowed]
    simp only [Option.bind_eq_bind, Option.bind_some, hmark, hread]
    rfl
  have hstanding : read.Standing after.column false a
      (tokens ++ [.scalar false (String.ofList cs)]) ('\n' :: (List.replicate 0 ' ' ++ more)) :=
    ⟨rfl, rfl, hpossible, hflow, hindent, houter, by rw [← htokens]; exact toList_emit .., rfl⟩
  exact ⟨read, onward_of_takeToken hrest htake, hstanding.nextLine hmore⟩

/-- Two brackets are a flow sequence without items. -/
theorem Standing.exists_nextLine_of_brackets
    (h : r.Standing column false a tokens ('[' :: ']' :: '\n' :: more)) (hmore : AtWord more) :
    ∃ s : Cutting, r.onward = s.takeAll ∧
      s.NextLine 0 a (tokens ++ [.sequenceStart, .sequenceEnd]) more := by
  obtain ⟨-, hallowed, hpossible, hflow, hindent, houter, htokens, hrest⟩ := h
  let opened : Cutting := { r with
    rest := ']' :: '\n' :: more
    position := r.position.ahead 1
    keyAllowed := true
    possible := none
    flow := [none] }.emit .sequenceStart
  have hopen : r.takeToken '[' (']' :: '\n' :: more) = some opened := by
    rw [takeToken_opening, takeOpening, noteKey_of_not_allowed hallowed]
    simp only [Option.bind_eq_bind, Option.bind_some, hflow, hpossible, take, hrest]
    rfl
  -- inside the brackets no block is closed and no key is dropped
  have hready : opened.ready? = some opened := by
    have hskip : skipBlanks true false true opened.position opened.rest
        = (true, opened.position, opened.rest) :=
      skipBlanks_of_atWord (atWord_cons (by decide))
    have htoken : opened.toToken = opened := by
      rw [toToken, show opened.inFlow = true from rfl, show opened.keyAllowed = true from rfl,
        hskip]
      rfl
    rw [ready?, htoken]
    rfl
  let closed : Cutting := { r with
    rest := '\n' :: more
    position := (r.position.ahead 1).ahead 1
    keyAllowed := false
    possible := none
    flow := []
    tokens := (r.tokens.push .sequenceStart).push .sequenceEnd }
  have hclose : opened.takeToken ']' ('\n' :: more) = some closed := by
    rw [takeToken_closing]
    rfl
  have hgo : r.onward = closed.takeAll := by
    rw [onward_of_takeToken hrest hopen, takeAll_eq, hready, Option.bind_some,
      onward_of_takeToken rfl hclose]
  have hstanding : closed.Standing closed.position.column false a
      (tokens ++ [.sequenceStart, .sequenceEnd]) ('\n' :: (List.replicate 0 ' ' ++ more)) :=
    ⟨rfl, rfl, rfl, rfl, hindent, houter, by simp [closed, htokens], rfl⟩
  exact ⟨closed, hgo, hstanding.nextLine hmore⟩

/-! ## Blocks that start -/

/-- A block starts at its first key or item, and its token goes before the tokens of that. -/
theorem indentAt_of_enters {before after : List Token} (h : a.Enters b) (hflow : s.flow = [])
    (hindent : s.indent = a.indent) (houter : s.outer = a.outer)
    (htokens : s.tokens.toList = before ++ after) (t : Token) :
    ∃ ts, s.indentAt b.indent before.length t
        = { s with tokens := ts, indent := b.indent, outer := b.outer } ∧
      ts.toList = before ++ a.opening b t ++ after := by
  rcases h with rfl | ⟨hright, hnested⟩
  · refine ⟨s.tokens, ?_, by simpa [Around.opening] using htokens⟩
    rw [indentAt, inFlow_of_flow hflow, ← hindent, ← houter]
    simp
  · have hleft : ¬ b.indent ≤ a.indent := by omega
    have hne : a ≠ b := by
      rintro rfl
      omega
    refine ⟨(s.emitAt before.length t).tokens, ?_, ?_⟩
    · rw [indentAt, inFlow_of_flow hflow, hindent, houter, hnested]
      simp [hleft, emitAt]
    · rw [toList_emitAt htokens, Around.opening, if_neg hne]
      simp

/-- A scalar at the start of a line was taken and a colon follows, so it is a key. -/
structure BeforeColon (r : Cutting) (column : Nat) (a : Around) (before : List Token) (t : Token)
    (rest : List Char) : Prop where
  column : r.position.column = column
  current : ∃ k, r.current = some k ∧ k.before = before.length ∧ k.start.column = 0
  flow : r.flow = []
  indent : r.indent = a.indent
  outer : r.outer = a.outer
  tokens : r.tokens.toList = before ++ [t]
  rest : r.rest = ':' :: rest

/-- A plain scalar before a colon is read to the colon, and is noted as a key that may start. -/
theorem Standing.exists_beforeColon (h : r.Standing 0 true a tokens (cs ++ ':' :: rest))
    (ha : a.indent ≤ 0) (hcs : PlainText cs) (hlength : cs.length ≤ keyLength)
    (hends : endsWord rest = true) :
    ∃ r' : Cutting, r.onward = r'.onward ∧
      r'.BeforeColon cs.length a tokens (.scalar true (String.ofList cs)) rest := by
  obtain ⟨c, key, rfl⟩ := List.exists_cons_of_ne_nil hcs.nonempty
  obtain ⟨hcolumn, hallowed, hpossible, hflow, hindent, houter, htokens, hrest⟩ := h
  let k : PossibleKey := ⟨r.position, false, r.tokens.size⟩
  let read : Cutting := { r with
    possible := some k
    position := r.position.ahead (c :: key).length
    rest := ':' :: rest
    keyAllowed := false }.emit (.scalar true (String.ofList (c :: key)))
  have htake : r.takeToken c (key ++ ':' :: rest) = some read := by
    have hread : readPlain ⟨false, r.indent + 1⟩ [] .none r.position r.rest
        = some ⟨c :: key, false, r.position.ahead (c :: key).length, ':' :: rest⟩ := by
      rw [hrest, readPlain_text hcs.chars hcs.nonempty hcs.last (by omega), readPlain_colon hends,
        List.reverse_reverse]
    rw [takeToken_of_not_mem_marks (hcs.head c rfl).2,
      takePlain_eq (noteKey_of_allowed hallowed hflow hpossible) hflow hread]
  -- the colon stands on the same line and not too far away
  have hkept : refresh read.position read.possible = some (some k) := by
    refine if_neg ?_
    show ¬ (r.position.line < r.position.line ∨
      r.position.index + keyLength < r.position.index + (c :: key).length)
    omega
  have hskip : skipBlanks false false read.keyAllowed read.position read.rest
      = (read.keyAllowed, read.position, read.rest) :=
    skipBlanks_of_atWord (atWord_cons (by decide))
  have hright : read.indent ≤ read.position.column := by
    show r.indent ≤ ((r.position.column + (c :: key).length : Nat) : Int)
    omega
  have hready : read.ready? = some read := by
    rw [ready?_eq (s := read) hflow hskip hkept]
    exact congrArg some (dedent_of_le hright)
  have hcurrent : read.current = some k := by
    rw [current, show read.flow = [] from hflow]
    rfl
  have hgo : r.onward = read.onward := by
    rw [onward_of_takeToken hrest htake, takeAll_eq, hready, Option.bind_some]
  refine ⟨read, hgo, ?_, ⟨k, hcurrent, ?_, hcolumn⟩, hflow, hindent, houter, ?_, rfl⟩
  · show r.position.column + (c :: key).length = (c :: key).length
    rw [hcolumn, Nat.zero_add]
  · rw [← htokens, Array.length_toList]
  · rw [← htokens]
    exact toList_emit ..

/-- The colon makes it one: the tokens of the key and of a mapping that starts with it go before the
scalar. -/
theorem BeforeColon.exists_standing {before : List Token} {t : Token}
    (h : r.BeforeColon column a before t rest) (ha : a.Enters .mapping)
    (hends : endsWord rest = true) :
    ∃ s : Cutting, r.onward = s.takeAll ∧ s.Standing (column + 1) false .mapping
      (before ++ a.opening .mapping .blockMapping ++ [.key, t, .value]) rest := by
  obtain ⟨hcolumn, ⟨k, hcurrent, hbefore, hstart⟩, hflow, hindent, houter, htokens, hrest⟩ := h
  let keyed : Cutting := r.emitAt before.length .key
  have hkeyed : keyed.tokens.toList = before ++ .key :: [t] := toList_emitAt htokens .key
  obtain ⟨ts, hopened, hts⟩ :=
    indentAt_of_enters ha (s := keyed) hflow hindent houter hkeyed .blockMapping
  let valued : Cutting := { r with
    rest
    position := r.position.ahead 1
    keyAllowed := false
    possible := none
    flow := []
    tokens := ts.push .value
    indent := Around.mapping.indent
    outer := Around.mapping.outer }
  have hvalue : r.takeToken ':' rest = some valued := by
    have hcolumn : (k.start.column : Int) = Around.mapping.indent := by
      rw [hstart]
      rfl
    rw [takeToken_colon hends, takeValue, hcurrent]
    show some _ = _
    rw [hbefore, hcolumn, hopened]
    have hflow' : keyed.flow = [] := hflow
    have hrest' : keyed.rest = ':' :: rest := hrest
    simp only [setCurrent, hflow', take, hrest']
    rfl
  refine ⟨valued, onward_of_takeToken hrest hvalue, ?_⟩
  have hall : (ts.push .value).toList
      = before ++ a.opening .mapping .blockMapping ++ [.key, t, .value] := by
    rw [Array.toList_push, hts]
    simp
  exact ⟨by rw [← hcolumn]; rfl, rfl, rfl, rfl, rfl, rfl, hall, rfl⟩

/-- A dash starts an item, and the list with it if that is the first one. -/
theorem Standing.exists_standing_of_dash
    (h : r.Standing 2 true a tokens ('-' :: rest)) (ha : a.Enters .list)
    (hends : endsWord rest = true) :
    ∃ s : Cutting, r.onward = s.takeAll ∧ s.Standing 3 true .list
      (tokens ++ a.opening .list .blockSequence ++ [.item]) rest := by
  obtain ⟨hcolumn, hallowed, hpossible, hflow, hindent, houter, htokens, hrest⟩ := h
  have hlist : r.column = Around.list.indent := by
    show (r.position.column : Int) = _
    rw [hcolumn]
    rfl
  have hsize : r.tokens.size = tokens.length := by rw [← htokens, Array.length_toList]
  obtain ⟨ts, hopened, hts⟩ := indentAt_of_enters ha hflow hindent houter
    (htokens.trans (List.append_nil _).symm) .blockSequence
  let dashed : Cutting := { r with
    rest
    position := r.position.ahead 1
    keyAllowed := true
    possible := none
    flow := []
    tokens := ts.push .item
    indent := Around.list.indent
    outer := Around.list.outer }
  have hdash : r.takeToken '-' rest = some dashed := by
    rw [takeToken_dash (by omega) hends, takeItem, inFlow_of_flow hflow, hallowed, hlist, hsize,
      hopened]
    simp only [dropKey, current, hflow, hpossible, take, hrest]
    rfl
  refine ⟨dashed, onward_of_takeToken hrest hdash, ?_⟩
  have hall : (ts.push .item).toList = tokens ++ a.opening .list .blockSequence ++ [.item] := by
    rw [Array.toList_push, hts, List.append_nil]
  exact ⟨congrArg (· + 1) hcolumn, rfl, rfl, rfl, rfl, rfl, hall, rfl⟩

end Cutting

end Valuer.Yaml
