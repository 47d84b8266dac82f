import Valuer.Proofs.Yaml.Entries
import Valuer.Yaml.Node

set_option autoImplicit false

/-! # Documents that are one block mapping

A document that starts with its mark and holds a mapping of plain keys is read as the tree of its
entries, whatever texts stand in it (`Node.ofText?_document`): first line by line into tokens, and
then entry by entry into the tree. -/

namespace Valuer.Yaml

/-! ## Entries and what they are written as -/

/-- A value of an entry. -/
inductive Value where
  /-- Any text, in quotes if it needs them. -/
  | text (s : String)
  /-- A word, as it is. -/
  | word (s : String)
  /-- Words, each on a line of its own. -/
  | list (words : List String)

/-- The line of an item. -/
def itemLine (word : String) : List Char :=
  ' ' :: ' ' :: '-' :: ' ' :: (word.toList ++ ['\n'])

/-- The tokens of an item. -/
def itemTokens (word : String) : List Token :=
  [.item, .scalar true word]

namespace Value

/-- What stands behind the colon of an entry, its line break included. -/
def chars : Value → List Char
  | text s => ' ' :: ((written s).toList ++ ['\n'])
  | word s => ' ' :: (s.toList ++ ['\n'])
  | list [] => [' ', '[', ']', '\n']
  | list (w :: words) => '\n' :: (w :: words).flatMap itemLine

/-- The tokens of a value. -/
def tokens : Value → List Token
  | text s => [.scalar (!needsQuotes s) s]
  | word s => [.scalar true s]
  | list [] => [.sequenceStart, .sequenceEnd]
  | list (w :: words) => .blockSequence :: ((w :: words).flatMap itemTokens ++ [.blockEnd])

/-- The tree of a value. -/
def node : Value → Node
  | text s => .scalar (!needsQuotes s) s
  | word s => .scalar true s
  | list words => .sequence (words.map (.scalar true))

/-- What is written as it is consists of words. -/
def Plain : Value → Prop
  | text _ => True
  | word s => IsWord s.toList
  | list words => ∀ w ∈ words, IsWord w.toList

end Value

/-- A key and its value. -/
structure Entry where
  key : String
  value : Value

namespace Entry

/-- The lines of an entry. -/
def chars (e : Entry) : List Char :=
  e.key.toList ++ ':' :: e.value.chars

/-- The tokens of an entry. -/
def tokens (e : Entry) : List Token :=
  .key :: .scalar true e.key :: .value :: e.value.tokens

/-- The key and the tree of the value. -/
def node (e : Entry) : Node × Node :=
  (.scalar true e.key, e.value.node)

/-- An entry that is read back: its key is a word that can be told to be one. -/
structure Plain (e : Entry) : Prop where
  key : IsWord e.key.toList
  short : e.key.length ≤ Cutting.keyLength
  value : e.value.Plain

end Entry

/-- A document with one mapping. -/
def documentChars (entries : List Entry) : List Char :=
  '-' :: '-' :: '-' :: '\n' :: entries.flatMap Entry.chars

/-- The tokens of a document. -/
def documentTokens (entries : List Entry) : List Token :=
  .documentStart :: .blockMapping :: (entries.flatMap Entry.tokens ++ [.blockEnd])

/-! ## Cutting a document into tokens -/

namespace Cutting

variable {r s : Cutting} {tokens : List Token} {more : List Char} {a : Around}

/-- An item is taken to the line after it, which is that of the next item or no longer one of the
list. -/
theorem Standing.exists_nextLine_of_item {w : String} {n : Nat}
    (h : r.Standing 2 true a tokens
      ('-' :: ' ' :: (w.toList ++ '\n' :: (List.replicate n ' ' ++ more))))
    (ha : a.Enters .list) (hw : IsWord w.toList) (hn : n ≤ 2) (hmore : AtWord more) :
    ∃ s : Cutting, r.onward = s.takeAll ∧
      s.NextLine n .list (tokens ++ a.opening .list .blockSequence ++ itemTokens w) more := by
  have hindent : (n : Int) ≤ Around.list.indent := by
    show (n : Int) ≤ 2
    omega
  obtain ⟨dashed, hdash, hdashed⟩ := h.exists_standing_of_dash ha rfl
  obtain ⟨ready, hspace, hready⟩ :=
    hdashed.exists_onward (n := 1) (by decide) (hw.plainText.atWord _)
  obtain ⟨s, hword, hs⟩ := hready.exists_nextLine_of_plain hw.plainText (by decide) hindent hmore
  rw [String.ofList_toList, List.append_assoc] at hs
  exact ⟨s, (hdash.trans hspace).trans hword, hs⟩

/-- The items of a list are taken one by one, to the line after the last one. -/
theorem Standing.exists_standing_of_items {w : String} {words : List String}
    (h : r.Standing 2 true a tokens
      ('-' :: ' ' :: (w.toList ++ '\n' :: (words.flatMap itemLine ++ more))))
    (ha : a.Enters .list) (hwords : ∀ v ∈ w :: words, IsWord v.toList) (hmore : AtWord more) :
    ∃ r' : Cutting, r.onward = r'.onward ∧ r'.Standing 0 true .mapping
      (tokens ++ a.opening .list .blockSequence ++ (w :: words).flatMap itemTokens ++ [.blockEnd])
      more := by
  induction words generalizing r w a tokens with
  | nil =>
      have hw := hwords w List.mem_cons_self
      obtain ⟨s, hgo, hline⟩ := h.exists_nextLine_of_item (n := 0) ha hw (by decide) hmore
      obtain ⟨r', hend, hr'⟩ := hline.exists_standing_of_list
      exact ⟨r', hgo.trans hend, by simpa using hr'⟩
  | cons v words ih =>
      obtain ⟨hw, hlater⟩ := List.forall_mem_cons.1 hwords
      have hitem : (v :: words).flatMap itemLine ++ more = List.replicate 2 ' '
          ++ '-' :: ' ' :: (v.toList ++ '\n' :: (words.flatMap itemLine ++ more)) := by
        simp [itemLine, List.replicate]
      rw [hitem] at h
      obtain ⟨s, hgo, hline⟩ :=
        h.exists_nextLine_of_item ha hw (by decide) (atWord_cons (by decide))
      obtain ⟨t, hnext, ht⟩ := hline.exists_standing (by decide)
      obtain ⟨r', hend, hr'⟩ := ih ht (.inl rfl) hlater
      refine ⟨r', (hgo.trans hnext).trans hend, ?_⟩
      simpa [Around.opening] using hr'

/-- A value is taken to the line after it. -/
theorem Standing.exists_standing_of_value {column : Nat} {v : Value}
    (h : s.Standing column false .mapping tokens (v.chars ++ more)) (hv : v.Plain)
    (hmore : AtWord more) :
    ∃ r : Cutting, s.takeAll = r.onward ∧ r.Standing 0 true .mapping (tokens ++ v.tokens) more := by
  have hcolumn : ∀ n : Nat, Around.mapping.indent ≤ n := fun n => Int.natCast_nonneg n
  -- a word or a text without quotes ends with its line
  have hplain : ∀ text : String, PlainText text.toList →
      s.Standing column false .mapping tokens (' ' :: (text.toList ++ '\n' :: more)) →
      ∃ r : Cutting, s.takeAll = r.onward ∧
        r.Standing 0 true .mapping (tokens ++ [.scalar true text]) more := by
    intro text htext h
    obtain ⟨ready, hspace, hready⟩ := h.exists_onward (n := 1) (hcolumn _) (htext.atWord _)
    obtain ⟨t, htake, ht⟩ :=
      hready.exists_nextLine_of_plain (n := 0) htext (hcolumn _) (by decide) hmore
    obtain ⟨r, hgo, hr⟩ := ht.exists_standing (by decide)
    rw [String.ofList_toList] at hr
    exact ⟨r, (hspace.trans htake).trans hgo, hr⟩
  match v with
  | .word word =>
      rw [Value.chars, List.cons_append, List.append_assoc] at h
      exact hplain word (IsWord.plainText hv) h
  | .text text =>
      rw [Value.chars, List.cons_append, List.append_assoc, written] at h
      cases hquotes : needsQuotes text with
      | false =>
          rw [hquotes, if_neg Bool.false_ne_true] at h
          rw [Value.tokens, hquotes]
          exact hplain text (plainText_of_needsQuotes hquotes).1 h
      | true =>
          have htext : (inQuotes text).toList ++ '\n' :: more
              = '\x22' :: (text.toList.flatMap escapedChar ++ '\x22' :: '\n' :: more) := by
            simp [inQuotes]
          rw [if_pos hquotes, List.singleton_append, htext] at h
          obtain ⟨ready, hspace, hready⟩ :=
            h.exists_onward (n := 1) (hcolumn _) (atWord_cons (by decide))
          obtain ⟨t, htake, ht⟩ := hready.exists_nextLine_of_quoted hmore
          obtain ⟨r, hgo, hr⟩ := ht.exists_standing (by decide)
          rw [String.ofList_toList] at hr
          refine ⟨r, (hspace.trans htake).trans hgo, ?_⟩
          rwa [Value.tokens, hquotes]
  | .list [] =>
      obtain ⟨ready, hspace, hready⟩ :=
        h.exists_onward (n := 1) (hcolumn _) (atWord_cons (by decide))
      obtain ⟨t, htake, ht⟩ := hready.exists_nextLine_of_brackets hmore
      obtain ⟨r, hgo, hr⟩ := ht.exists_standing (by decide)
      exact ⟨r, (hspace.trans htake).trans hgo, hr⟩
  | .list (w :: words) =>
      have hitems : (Value.list (w :: words)).chars ++ more = '\n' :: (List.replicate 2 ' '
          ++ '-' :: ' ' :: (w.toList ++ '\n' :: (words.flatMap itemLine ++ more))) := by
        simp [Value.chars, itemLine, List.replicate]
      rw [hitems] at h
      obtain ⟨t, hnext, ht⟩ := (h.nextLine (atWord_cons (by decide))).exists_standing (by decide)
      obtain ⟨r, hgo, hr⟩ := ht.exists_standing_of_items (.inr ⟨by decide, rfl⟩) hv hmore
      refine ⟨r, hnext.trans hgo, ?_⟩
      simpa [Around.opening, Value.tokens] using hr

/-- A line that starts with an entry does not start with white space. -/
theorem atWord_entries {entries : List Entry} (h : ∀ e ∈ entries, e.Plain) :
    AtWord (entries.flatMap Entry.chars) := by
  cases entries with
  | nil => exact fun c hc => absurd hc (by simp)
  | cons e entries =>
      rw [List.flatMap_cons, Entry.chars, List.append_assoc]
      exact (h e List.mem_cons_self).key.plainText.atWord _

/-- An entry is taken to the line after it. -/
theorem Standing.exists_standing_of_entry {e : Entry}
    (h : r.Standing 0 true a tokens (e.chars ++ more)) (ha : a.Enters .mapping) (he : e.Plain)
    (hmore : AtWord more) :
    ∃ r' : Cutting, r.onward = r'.onward ∧ r'.Standing 0 true .mapping
      (tokens ++ a.opening .mapping .blockMapping ++ e.tokens) more := by
  have hends : endsWord (e.value.chars ++ more) = true := by
    match e.value with
    | .text _ | .word _ | .list [] | .list (_ :: _) => rfl
  rw [Entry.chars, List.append_assoc, List.cons_append] at h
  obtain ⟨noted, hkey, hnoted⟩ :=
    h.exists_beforeColon ha.indent_le he.key.plainText he.short hends
  obtain ⟨s, hcolon, hs⟩ := hnoted.exists_standing ha hends
  obtain ⟨r', hvalue, hr'⟩ := hs.exists_standing_of_value he.value hmore
  refine ⟨r', (hkey.trans hcolon).trans hvalue, ?_⟩
  rw [String.ofList_toList] at hr'
  simpa [Entry.tokens] using hr'

/-- Entries are taken one by one, to the end of the text. -/
theorem Standing.onward_entries {entries : List Entry}
    (h : r.Standing 0 true .mapping tokens (entries.flatMap Entry.chars))
    (hall : ∀ e ∈ entries, e.Plain) :
    r.onward = some (tokens ++ entries.flatMap Entry.tokens ++ [.blockEnd]) := by
  induction entries generalizing r tokens with
  | nil =>
      -- at the end of the text the mapping is closed
      obtain ⟨-, -, hpossible, hflow, hindent, houter, htokens, hrest⟩ := h
      have hend : r.finish = some (r.tokens.toList ++ [.blockEnd]) := by
        rw [finish, dedent, inFlow_of_flow hflow, hindent, houter]
        simp [closeBlocks, Around.indent, Around.outer, dropKey, current, hflow, hpossible]
      rw [onward, hrest]
      simpa [htokens] using hend
  | cons e entries ih =>
      obtain ⟨he, hlater⟩ := List.forall_mem_cons.1 hall
      rw [List.flatMap_cons] at h
      obtain ⟨r', hgo, hr'⟩ := h.exists_standing_of_entry (.inl rfl) he (atWord_entries hlater)
      rw [hgo, ih hr' hlater]
      simp [Around.opening]

end Cutting

/-! ## Characters of a document -/

/-- A character that is kept before a text is cut. -/
def Kept (c : Char) : Prop :=
  c ≠ '\r' ∧ c ≠ '\x00'

instance (c : Char) : Decidable (Kept c) :=
  inferInstanceAs (Decidable (_ ∧ _))

theorem clean_of_kept {cs : List Char} (h : ∀ c ∈ cs, Kept c) : clean cs = cs := by
  induction cs with
  | nil => rfl
  | cons c cs ih =>
      obtain ⟨⟨hreturn, hnull⟩, hcs⟩ := List.forall_mem_cons.1 h
      unfold clean
      split
      · contradiction
      · next heq => exact absurd (List.cons.inj heq).1 hreturn
      · next heq =>
          obtain ⟨rfl, rfl⟩ := List.cons.inj heq
          rw [if_neg (by simpa using hnull), ih hcs]

theorem IsWord.kept {cs : List Char} (h : IsWord cs) : ∀ c ∈ cs, Kept c := by
  intro c hc
  have hword := h.chars c hc
  constructor <;> rintro rfl <;> exact absurd hword (by decide)

theorem kept_of_mem_escapedChar {c d : Char} (h : d ∈ escapedChar c) : Kept d := by
  have hletter : ∀ letter, Kept letter → d ∈ ['\\', letter] → Kept d := by
    intro letter hkept hmem
    rcases List.mem_cons.1 hmem with rfl | hmem
    · decide
    · rwa [List.mem_singleton.1 hmem]
  unfold escapedChar at h
  split_ifs at h with h1 h2 h3 h4 h5 h6 h7 h8
  -- the seven characters with a letter of their own
  iterate 7 exact hletter _ (by decide) h
  · have hdigit : ∀ n < 16, Kept (Nat.digitChar n) := by decide
    have hsmall : c.toNat < 256 := by
      rw [Bool.or_eq_true, decide_eq_true_eq, beq_iff_eq] at h8
      omega
    simp only [twoDigits, List.mem_cons, List.not_mem_nil, or_false] at h
    rcases h with rfl | rfl | rfl | rfl | rfl | rfl
    iterate 4 decide
    · exact hdigit _ (by omega)
    · exact hdigit _ (by omega)
  · obtain rfl := List.mem_singleton.1 h
    refine ⟨by simpa using h7, ?_⟩
    rintro rfl
    exact h8 (by decide)

theorem kept_of_mem_written {s : String} {c : Char} (h : c ∈ (written s).toList) : Kept c := by
  unfold written at h
  split at h
  · rw [inQuotes, String.toList_ofList] at h
    rcases List.mem_cons.1 h with rfl | h
    · decide
    · rcases List.mem_append.1 h with h | h
      · obtain ⟨d, -, hd⟩ := List.mem_flatMap.1 h
        exact kept_of_mem_escapedChar hd
      · rw [List.mem_singleton.1 h]
        decide
  · next hquotes =>
      obtain ⟨hplain, hnull⟩ := plainText_of_needsQuotes (Bool.eq_false_iff.2 hquotes)
      refine ⟨?_, fun heq => hnull (heq ▸ h)⟩
      rintro rfl
      exact absurd (hplain.chars _ h) (by decide)

theorem kept_of_mem_itemLine {word : String} (h : IsWord word.toList) :
    ∀ c ∈ itemLine word, Kept c := by
  simp only [itemLine, List.forall_mem_cons, List.forall_mem_append]
  exact ⟨by decide, by decide, by decide, by decide, h.kept, by decide, List.forall_mem_nil _⟩

theorem Value.kept_chars {v : Value} (h : v.Plain) : ∀ c ∈ v.chars, Kept c := by
  match v with
  | .text s =>
      simp only [chars, List.forall_mem_cons, List.forall_mem_append]
      exact ⟨by decide, fun c => kept_of_mem_written, by decide, List.forall_mem_nil _⟩
  | .word s =>
      simp only [chars, List.forall_mem_cons, List.forall_mem_append]
      exact ⟨by decide, IsWord.kept h, by decide, List.forall_mem_nil _⟩
  | .list [] =>
      simp only [chars, List.forall_mem_cons]
      exact ⟨by decide, by decide, by decide, by decide, List.forall_mem_nil _⟩
  | .list (w :: words) =>
      refine List.forall_mem_cons.2 ⟨by decide, fun c hc => ?_⟩
      obtain ⟨v, hv, hmem⟩ := List.mem_flatMap.1 hc
      exact kept_of_mem_itemLine (h v hv) c hmem

/-- A document is cut as it stands. -/
theorem clean_documentChars {entries : List Entry} (h : ∀ e ∈ entries, e.Plain) :
    clean (documentChars entries) = documentChars entries := by
  have hentries : ∀ c ∈ entries.flatMap Entry.chars, Kept c := by
    intro c hc
    obtain ⟨e, he, hmem⟩ := List.mem_flatMap.1 hc
    rcases List.mem_append.1 hmem with hkey | hvalue
    · exact (h e he).key.kept c hkey
    · rcases List.mem_cons.1 hvalue with rfl | hvalue
      · decide
      · exact Value.kept_chars (h e he).value c hvalue
  refine clean_of_kept ?_
  simp only [documentChars, List.forall_mem_cons]
  exact ⟨by decide, by decide, by decide, by decide, hentries⟩

theorem Token.ofText?_document {entries : List Entry} (hne : entries ≠ [])
    (h : ∀ e ∈ entries, e.Plain) :
    Token.ofText? (String.ofList (documentChars entries)) = some (documentTokens entries) := by
  obtain ⟨e, later, rfl⟩ := List.exists_cons_of_ne_nil hne
  obtain ⟨he, hlater⟩ := List.forall_mem_cons.1 h
  let start : Cutting := { rest := documentChars (e :: later) }
  have hready : start.ready? = some start := by rfl
  let marked : Cutting :=
    { rest := '\n' :: (e :: later).flatMap Entry.chars
      position := ⟨3, 0, 3⟩
      tokens := #[.documentStart]
      keyAllowed := false }
  have hmark : start.takeToken '-' ('-' :: '-' :: '\n' :: (e :: later).flatMap Entry.chars)
      = some marked := by rfl
  have hmarked : marked.Standing 3 false .nothing [.documentStart]
      ('\n' :: (List.replicate 0 ' ' ++ (e :: later).flatMap Entry.chars)) :=
    ⟨rfl, rfl, rfl, rfl, rfl, rfl, rfl, rfl⟩
  obtain ⟨r, hgo, hstart⟩ :=
    (hmarked.nextLine (Cutting.atWord_entries h)).exists_standing (by decide)
  obtain ⟨r', hgo', hnext⟩ := hstart.exists_standing_of_entry (.inr ⟨by decide, rfl⟩) he
    (Cutting.atWord_entries hlater)
  have hall := hnext.onward_entries hlater
  rw [Token.ofText?, String.toList_ofList, clean_documentChars h, Cutting.takeAll_eq]
  show start.ready?.bind _ = _
  rw [hready, Option.bind_some, Cutting.onward_of_takeToken rfl hmark, hgo, hgo', hall]
  rfl

/-! ## Building the tree -/

namespace Building

/-- The items of a list are added one by one. -/
theorem foldlM_items (outer : Building) (items : List Node) (words : List String) :
    (words.flatMap itemTokens).foldlM take (.block items :: outer)
      = some (.block ((words.map (.scalar true)).reverse ++ items) :: outer) := by
  induction words generalizing items with
  | nil => rfl
  | cons w words ih =>
      rw [List.flatMap_cons, List.foldlM_append]
      show (some (.block (.scalar true w :: items) :: outer) : Option Building) >>= _ = _
      rw [Option.bind_eq_bind, Option.bind_some, ih]
      simp

/-- The tokens of a value are the value of the entry that waits for one. -/
theorem foldlM_value (outer : Building) (done : List (Node × Node)) (key : Node) (v : Value) :
    v.tokens.foldlM take (.entryValue done key :: outer)
      = some (.entries ((key, v.node) :: done) :: outer) := by
  match v with
  | .text _ | .word _ | .list [] => rfl
  | .list (w :: words) =>
      have hitems := foldlM_items (.entryValue done key :: outer) [] (w :: words)
      rw [Value.tokens, List.foldlM_cons]
      show (some (.block [] :: .entryValue done key :: outer) : Option Building) >>= _ = _
      rw [Option.bind_eq_bind, Option.bind_some, List.foldlM_append, hitems]
      show some (.entries ((key, .sequence
        (((w :: words).map (Node.scalar true)).reverse ++ []).reverse) :: done) :: outer) = _
      simp [Value.node]

theorem foldlM_entries (outer : Building) (done : List (Node × Node)) (entries : List Entry) :
    (entries.flatMap Entry.tokens).foldlM take (.entries done :: outer)
      = some (.entries ((entries.map Entry.node).reverse ++ done) :: outer) := by
  induction entries generalizing done with
  | nil => rfl
  | cons e entries ih =>
      have hvalue := foldlM_value outer done (.scalar true e.key) e.value
      have hentry : e.tokens.foldlM take (.entries done :: outer)
          = some (.entries (e.node :: done) :: outer) := hvalue
      rw [List.flatMap_cons, List.foldlM_append, hentry, Option.bind_eq_bind, Option.bind_some, ih]
      simp

end Building

/-- The tree of a document is the mapping of its entries. -/
theorem Node.ofTokens?_document (entries : List Entry) :
    Node.ofTokens? (documentTokens entries) = some (.mapping (entries.map Entry.node)) := by
  have hentries := Building.foldlM_entries [.content] [] entries
  have hstart : (documentTokens entries).foldlM Building.take [.opening]
      = (entries.flatMap Entry.tokens ++ [Token.blockEnd]).foldlM Building.take
          [.entries [], .content] := rfl
  rw [Node.ofTokens?, hstart, List.foldlM_append, hentries]
  show some (Node.mapping ((entries.map Entry.node).reverse ++ []).reverse) = _
  simp

/-- A document with a mapping is read back entry by entry. -/
theorem Node.ofText?_document {entries : List Entry} (hne : entries ≠ [])
    (h : ∀ e ∈ entries, e.Plain) :
    Node.ofText? (String.ofList (documentChars entries))
      = some (.mapping (entries.map Entry.node)) := by
  rw [Node.ofText?, Token.ofText?_document hne h]
  exact Node.ofTokens?_document entries

end Valuer.Yaml
