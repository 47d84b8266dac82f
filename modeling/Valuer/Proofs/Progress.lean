import Valuer.Proofs.ByteReaders
import Valuer.Proofs.CanonicalForm
import Valuer.Proofs.CutMessages

set_option autoImplicit false

/-! # Every read gets on

What is read shrinks the stream, also when it is an error: a call takes whole lines, and at least one
as long as there are bytes left (`GetsOn`). So a reader that is called again and again comes to the
end after as many calls as there are lines at most, whatever number of entries a header announces.
How many lines one call takes is settled by the first line of a message and, for a report, by the
header of its log (`Message.Spans`). -/

namespace Valuer

/-! ## Calling a reader again and again -/

section Readers

variable {α : Type} {read : List UInt8 → Option α × List UInt8}

/-- Every call takes whole lines, one at least unless the stream has ended, and gives nothing only if
that leaves no byte. -/
structure GetsOn (read : List UInt8 → Option α × List UInt8) : Prop where
  takes : ∀ bytes, ∃ taken, Text.Takes taken bytes (read bytes).2 ∧ (bytes ≠ [] → taken ≠ [])
  atEnd : read [] = (none, [])
  ended : ∀ bytes, (read bytes).1 = none → (read bytes).2 = []

/-- Calls of a reader one after another up to the first that gives nothing: what each of them gives
and the bytes that it takes, and the bytes that the last call takes. -/
inductive Drains (read : List UInt8 → Option α × List UInt8) :
    List UInt8 → List (α × List UInt8) → List UInt8 → Prop where
  | done {bytes : List UInt8} (h : read bytes = (none, [])) : Drains read bytes [] bytes
  | more {item : α} {part rest last : List UInt8} {calls : List (α × List UInt8)}
      (h : read (part ++ rest) = (some item, rest)) (later : Drains read rest calls last) :
      Drains read (part ++ rest) ((item, part) :: calls) last

/-- No byte is taken twice, and none is left out. -/
theorem Drains.bytes_eq {bytes last : List UInt8} {calls : List (α × List UInt8)}
    (h : Drains read bytes calls last) : bytes = calls.flatMap (·.2) ++ last := by
  induction h with
  | done => rfl
  | more _ _ ih => rw [List.flatMap_cons, List.append_assoc, ← ih]

namespace GetsOn

/-- A call that gives something takes at least one line. -/
theorem length_lines_lt (h : GetsOn read) {bytes rest : List UInt8} {item : α}
    (hread : read bytes = (some item, rest)) :
    (Text.lines rest).length < (Text.lines bytes).length := by
  obtain ⟨taken, htakes, htaken⟩ := h.takes bytes
  have hbytes : bytes ≠ [] := by
    rintro rfl
    rw [h.atEnd] at hread
    exact absurd hread (by simp)
  have hpos := List.length_pos_iff.2 (htaken hbytes)
  rw [hread] at htakes
  rw [htakes.lines_eq, List.length_append]
  exact Nat.lt_add_of_pos_left hpos

theorem exists_drains (h : GetsOn read) (bytes : List UInt8) :
    ∃ calls last, Drains read bytes calls last := by
  induction hlength : (Text.lines bytes).length using Nat.strongRecOn generalizing bytes with
  | ind n ih =>
      rcases hread : read bytes with ⟨said, rest⟩
      cases said with
      | none =>
          have hrest := h.ended bytes (by rw [hread])
          rw [hread] at hrest
          obtain rfl : rest = [] := hrest
          exact ⟨[], bytes, .done hread⟩
      | some item =>
          have hshorter := h.length_lines_lt hread
          obtain ⟨taken, htakes, -⟩ := h.takes bytes
          rw [hread] at htakes
          obtain ⟨part, rfl⟩ := htakes.exists_append
          obtain ⟨calls, last, hcalls⟩ := ih _ (hlength ▸ hshorter) rest rfl
          exact ⟨(item, part) :: calls, last, .more hread hcalls⟩

theorem length_le (h : GetsOn read) {bytes last : List UInt8} {calls : List (α × List UInt8)}
    (hcalls : Drains read bytes calls last) : calls.length ≤ (Text.lines bytes).length := by
  induction hcalls with
  | done => exact Nat.zero_le _
  | more hread _ ih =>
      have hshorter := h.length_lines_lt hread
      rw [List.length_cons]
      omega

end GetsOn

end Readers

/-! ## Results -/

namespace TestResult

theorem getsOn_fetch : GetsOn fetch where
  atEnd := fetch_of_end rfl
  ended bytes h := by
    obtain ⟨-, -, -, -, -, hended⟩ := fetch_takes bytes
    exact hended h
  takes bytes := by
    obtain ⟨blanks, answered, htakes, -, hanswered, hended⟩ := fetch_takes bytes
    refine ⟨blanks ++ answered, htakes, fun hbytes hnil => ?_⟩
    rw [hnil] at htakes
    obtain ⟨rfl, rfl⟩ := List.append_eq_nil_iff.1 hnil
    -- nothing was said, so the stream is at its end
    have hsaid : (fetch bytes).1 = none := by
      cases hsaid : (fetch bytes).1 with
      | none => rfl
      | some r => rw [hsaid] at hanswered; exact absurd hanswered (by simp)
    rcases htakes.bytes_eq with hall | ⟨-, hall⟩
    · exact hbytes (hall.trans (hended hsaid))
    · exact absurd hall (by simp [Text.unlines])

/-- Calls one after another say what all lines say. -/
theorem map_of_drains {bytes last : List UInt8}
    {calls : List (Except Error TestResult × List UInt8)} (h : Drains fetch bytes calls last) :
    calls.map (·.1) = readAll (Text.lines bytes) := by
  have hcall : ∀ bytes, readAll (Text.lines bytes)
      = (fetch bytes).1.toList ++ readAll (Text.lines (fetch bytes).2) := by
    intro bytes
    obtain ⟨blanks, answered, htakes, hblanks, hanswered, -⟩ := fetch_takes bytes
    have hnone : readAll blanks = [] := List.filterMap_eq_nil_iff.2 hblanks
    have hsaid : readAll answered = (fetch bytes).1.toList := by
      have hmap := congrArg (List.filterMap id) hanswered
      rwa [List.filterMap_map, List.filterMap_map, Function.id_comp, Function.id_comp,
        List.filterMap_some] at hmap
    rw [htakes.lines_eq, readAll_append, readAll_append, hnone, hsaid, List.nil_append]
  induction h with
  | done h => rw [hcall, h, Text.lines_nil]; rfl
  | more h _ ih => rw [hcall, h, List.map_cons, ih]; rfl

end TestResult

/-! ## Messages -/

/-- A line announces a log: a name in hex, and the number of the entries that follow. -/
def JudgeLog.Announces (name : String) (count : Nat) (line : Text.Line) : Prop :=
  count < countBound ∧ ∃ word,
    Text.lineText? line
        = some (Text.unwords ["JUDGE_LOG", Hex.encode (Utf8.encode name), word]) ∧
      Text.IsNumber word count

theorem Text.IsNumber.space_not_mem {word : String} {n : Nat} (h : IsNumber word n) :
    ' ' ∉ word.toList := by
  rcases h with hbare | ⟨ds, hword, hdigits⟩
  · exact hbare.not_mem (by decide)
  · rw [hword]
    intro hmem
    rcases List.mem_cons.1 hmem with hplus | hlater
    · exact absurd hplus (by decide)
    · exact hdigits.not_mem (by decide) hlater

theorem JudgeLog.ofHeader?_eq_some_iff {text name : String} {count : Nat} :
    ofHeader? text = some (name, count) ↔ count < countBound ∧ ∃ word,
      text = Text.unwords ["JUDGE_LOG", Hex.encode (Utf8.encode name), word] ∧
        Text.IsNumber word count := by
  constructor
  · intro h
    refine ⟨?_, ofHeader?_eq_some h⟩
    unfold ofHeader? at h
    split at h
    · split at h
      · next n _ hcount =>
          obtain ⟨s, -, heq⟩ := Option.map_eq_some_iff.1 h
          cases heq
          exact (Text.natBelow?_eq_some_iff.1 hcount).2
      · exact absurd h (by simp)
    · exact absurd h (by simp)
  · rintro ⟨hbound, word, rfl, hword⟩
    have hwords : Text.words (Text.unwords ["JUDGE_LOG", Hex.encode (Utf8.encode name), word])
        = ["JUDGE_LOG", Hex.encode (Utf8.encode name), word] := by
      apply Text.words_unwords (by simp)
      intro w hw
      simp only [List.mem_cons, List.not_mem_nil, or_false] at hw
      rcases hw with rfl | rfl | rfl
      · decide
      · intro hc
        exact absurd (Hex.mem_alphabet_of_mem_encode hc) (by decide)
      · exact hword.space_not_mem
    simp only [ofHeader?, hwords, Hex.decode_encode, Text.natBelow?_eq_some_iff.2 ⟨hword, hbound⟩,
      Utf8.decode?_encode, Option.map_some]

/-- A line starts a report exactly if it is read as the first line of one. -/
theorem MessageHead.ofText?_eq_finish_iff {text : String} {score : UInt32} {full : Bool} :
    ofText? text = some (.finish score full) ↔
      ∃ word, text = Text.unwords ["FINISH", word, if full then "1" else "0"] ∧
        Text.IsNumber word score.toNat := by
  constructor
  · exact eq_unwords_of_finish
  · rintro ⟨word, rfl, hword⟩
    have hwords : Text.words (Text.unwords ["FINISH", word, if full then "1" else "0"])
        = ["FINISH", word, if full then "1" else "0"] := by
      apply Text.words_unwords (by simp)
      intro w hw
      simp only [List.mem_cons, List.not_mem_nil, or_false] at hw
      rcases hw with rfl | rfl | rfl
      · decide
      · exact hword.space_not_mem
      · split <;> decide
    have hflag : flag? (if full then "1" else "0") = some full := by
      cases full <;> rfl
    simp only [ofText?, hwords, Text.word?_eq_some_iff.2 hword, hflag]

/-! ### How many lines are left -/

theorem length_nextText (awaited : Awaited) (lines : List Text.Line) :
    lines.length ≤ (nextText awaited lines).2.length + 1 := by
  cases lines with
  | nil => exact Nat.zero_le _
  | cons line rest =>
      rw [nextText]
      cases Text.lineText? line <;> exact Nat.le_refl _

namespace JudgeLog

/-- However many entries are announced, each takes a line at most. -/
theorem length_readEntries (log : JudgeLog) (count : Nat) (lines : List Text.Line) :
    lines.length ≤ (readEntries log count lines).2.length + count := by
  induction count generalizing log lines with
  | zero => exact Nat.le_refl _
  | succ count ih =>
      have htext := length_nextText .logEntry lines
      rw [readEntries]
      generalize nextText .logEntry lines = taken at htext ⊢
      obtain ⟨outcome, rest⟩ := taken
      cases outcome with
      | error e => exact Nat.le_trans htext (by simp)
      | ok text =>
          simp only at htext ⊢
          cases log.pushText text with
          | error e => exact Nat.le_trans htext (by simp)
          | ok next =>
              have hrest := ih next rest
              simp only
              omega

theorem length_readEnd (log : JudgeLog) (lines : List Text.Line) :
    lines.length ≤ (readEnd log lines).2.length + 1 := by
  have htext := length_nextText .logEnd lines
  rw [readEnd]
  generalize nextText .logEnd lines = taken at htext ⊢
  obtain ⟨outcome, rest⟩ := taken
  cases outcome <;> exact htext

/-- A log takes its header, a line for each entry at most, and its last line; what is no header is
taken alone. -/
theorem length_read (lines : List Text.Line) :
    lines.length ≤ (read lines).2.length +
      match (lines.head?.bind Text.lineText?).bind ofHeader? with
      | none => 1
      | some (_, count) => count + 2 := by
  cases lines with
  | nil => exact Nat.zero_le _
  | cons header rest =>
      rw [read, nextText, List.head?_cons, Option.bind_some]
      cases Text.lineText? header with
      | none => exact Nat.le_refl _
      | some text =>
          rw [Option.bind_some]
          simp only
          cases ofHeader? text with
          | none => exact Nat.le_refl _
          | some announced =>
              obtain ⟨name, count⟩ := announced
              have hentries := length_readEntries (empty name) count rest
              simp only
              generalize readEntries (empty name) count rest = taken at hentries ⊢
              obtain ⟨outcome, left⟩ := taken
              simp only at hentries
              rw [List.length_cons]
              cases outcome with
              | error e =>
                  simp only
                  omega
              | ok log =>
                  have hend := log.length_readEnd left
                  simp only
                  omega

theorem announces_iff {name : String} {count : Nat} {line : Text.Line} :
    Announces name count line ↔ (Text.lineText? line).bind ofHeader? = some (name, count) := by
  simp only [Announces, Option.bind_eq_some_iff, ofHeader?_eq_some_iff]
  constructor
  · rintro ⟨hbound, word, htext, hword⟩
    exact ⟨_, htext, hbound, word, rfl, hword⟩
  · rintro ⟨_, htext, hbound, word, rfl, hword⟩
    exact ⟨hbound, word, htext, hword⟩

theorem length_read_of_announces {lines : List Text.Line} {header : Text.Line} {name : String}
    {count : Nat} (hfirst : lines.head? = some header) (h : Announces name count header) :
    lines.length ≤ (read lines).2.length + (count + 2) := by
  have hlength := length_read lines
  rwa [hfirst, Option.bind_some, announces_iff.1 h] at hlength

theorem length_read_of_unannounced {lines : List Text.Line}
    (h : ¬ ∃ header name count, lines.head? = some header ∧ Announces name count header) :
    lines.length ≤ (read lines).2.length + 1 := by
  have hlength := length_read lines
  have hnone : (lines.head?.bind Text.lineText?).bind ofHeader? = none := by
    by_contra hsome
    obtain ⟨⟨name, count⟩, hannounced⟩ := Option.ne_none_iff_exists'.1 hsome
    rw [Option.bind_assoc] at hannounced
    obtain ⟨header, hfirst, hheader⟩ := Option.bind_eq_some_iff.1 hannounced
    exact h ⟨header, name, count, hfirst, announces_iff.2 hheader⟩
  rwa [hnone] at hlength

end JudgeLog

namespace Message

/-- The lines that a call for a message takes off the front of a stream: the first alone unless it
starts a report, and never more than two unless the second announces a log. -/
structure Spans (lines taken : List Text.Line) : Prop where
  single : ∀ first, lines.head? = some first → (¬ ∃ report : Report, report.StartedBy first) →
    taken = [first]
  unannounced : (¬ ∃ header name count, lines[1]? = some header ∧
    JudgeLog.Announces name count header) → taken.length ≤ 2
  announced : ∀ header name count, lines[1]? = some header →
    JudgeLog.Announces name count header → taken.length ≤ count + 3

/-- Nothing is taken behind a first line unless that starts a report, and then a log is read. -/
theorem rest_of_next? {first : Text.Line} {tail rest : List Text.Line} {item : Except Error Message}
    (h : next? (first :: tail) = some (item, rest)) :
    rest = tail ∨ (∃ report : Report, report.StartedBy first) ∧ rest = (JudgeLog.read tail).2 := by
  rw [next?] at h
  split at h
  · exact .inl (Prod.mk.inj (Option.some.inj h)).2.symm
  · next text htext =>
      split at h
      · exact .inl (Prod.mk.inj (Option.some.inj h)).2.symm
      · next head hhead =>
          obtain ⟨-, rfl⟩ := Prod.mk.inj (Option.some.inj h)
          cases head with
          | run test => exact .inl rfl
          | comment audience comment => exact .inl rfl
          | finish score full =>
              obtain ⟨word, rfl, hword⟩ := MessageHead.ofText?_eq_finish_iff.1 hhead
              refine .inr ⟨⟨⟨score, full, default⟩, word, htext, hword⟩, ?_⟩
              simp only
              generalize JudgeLog.read tail = taken
              obtain ⟨outcome, left⟩ := taken
              cases outcome <;> rfl

theorem spans_of_next? {taken rest : List Text.Line} {item : Except Error Message}
    (h : next? (taken ++ rest) = some (item, rest)) : Spans (taken ++ rest) taken := by
  obtain ⟨first, tail, hlines, -⟩ := next?_suffix h
  rw [hlines] at h ⊢
  have hlength := congrArg List.length hlines
  rw [List.length_append, List.length_cons] at hlength
  rcases rest_of_next? h with rfl | ⟨hstarted, hrest⟩
  · have htaken : taken = [first] := List.append_cancel_right hlines
    exact ⟨fun _ hfirst _ => by rw [htaken, Option.some.inj hfirst],
      fun _ => by rw [htaken]; simp, fun _ _ _ _ _ => by rw [htaken]; simp⟩
  · have hsecond : (first :: tail)[1]? = tail.head? := List.head?_eq_getElem?.symm
    constructor
    · intro f hfirst hother
      obtain rfl := Option.some.inj hfirst
      exact absurd hstarted hother
    · intro hnone
      rw [hsecond] at hnone
      have hlog := JudgeLog.length_read_of_unannounced hnone
      rw [← hrest] at hlog
      omega
    · intro header name count hheader hannounced
      rw [hsecond] at hheader
      have hlog := JudgeLog.length_read_of_announces hheader hannounced
      rw [← hrest] at hlog
      omega

/-- What a call takes off the bytes of a stream. -/
theorem fetch_spans (bytes : List UInt8) :
    ∃ taken, Text.Takes taken bytes (fetch bytes).2 ∧
      (bytes = [] ∧ fetch bytes = (none, []) ∨
        (fetch bytes).1 ≠ none ∧ taken ≠ [] ∧ Spans (Text.lines bytes) taken) := by
  obtain ⟨hnext, taken, htakes⟩ := next?_lines bytes
  refine ⟨taken, htakes, ?_⟩
  rcases Text.fetch_cases bytes with ⟨hbytes, -⟩ | ⟨line, rest, hfetch, -, -⟩
  · exact .inl ⟨hbytes, by rw [hbytes]; rfl⟩
  · have hsaid : (fetch bytes).1 ≠ none := by
      rw [fetch, hfetch]
      cases Text.lineText? line with
      | none => simp
      | some text =>
          simp only
          cases MessageHead.ofText? text <;> simp
    obtain ⟨item, hitem⟩ := Option.ne_none_iff_exists'.1 hsaid
    rw [hitem, Option.map_some, htakes.lines_eq] at hnext
    have hshorter := next?_length hnext
    refine .inr ⟨hsaid, ?_, htakes.lines_eq ▸ spans_of_next? hnext⟩
    rintro rfl
    exact absurd hshorter (by simp)

theorem getsOn_fetch : GetsOn fetch where
  atEnd := rfl
  ended bytes h := by
    obtain ⟨-, -, ⟨-, hend⟩ | ⟨hsaid, -⟩⟩ := fetch_spans bytes
    · rw [hend]
    · exact absurd h hsaid
  takes bytes := by
    obtain ⟨taken, htakes, ⟨hend, -⟩ | ⟨-, htaken, -⟩⟩ := fetch_spans bytes
    · exact ⟨taken, htakes, fun hbytes => absurd hend hbytes⟩
    · exact ⟨taken, htakes, fun _ => htaken⟩

/-- Calls one after another give what all lines say. -/
theorem map_of_drains {bytes last : List UInt8} {calls : List (Except Error Message × List UInt8)}
    (h : Drains fetch bytes calls last) :
    last = [] ∧ calls.map (·.1) = readAll (Text.lines bytes) := by
  induction h with
  | @done bytes h =>
      obtain ⟨-, -, ⟨hbytes, -⟩ | ⟨hsaid, -⟩⟩ := fetch_spans bytes
      · exact ⟨hbytes, by rw [hbytes, Text.lines_nil, readAll_nil]; rfl⟩
      · exact absurd (by rw [h]) hsaid
  | @more item part rest _ _ h _ ih =>
      have hnext := (next?_lines (part ++ rest)).1
      rw [h, Option.map_some] at hnext
      exact ⟨ih.1, by rw [List.map_cons, ih.2, readAll_of_next? hnext]⟩

end Message

/-! ## Both readers -/

/-- Whatever bytes are on a stream, every call of either reader takes whole lines off its front, at
least one as long as there is a byte, and gives nothing only when no byte is left. A call for a
result takes the line that it answers for and before it only blank lines; a call for a message takes
no more lines than the first two allow. So calling a reader again and again, also after errors, comes
to an end after at most as many calls as there are lines, has taken every byte once, and gives what
the lines say. -/
theorem readers_take_whole_lines :
    GetsOn TestResult.fetch ∧ GetsOn Message.fetch ∧ ∀ bytes,
      (∃ blanks answered, Text.Takes (blanks ++ answered) bytes (TestResult.fetch bytes).2 ∧
        (∀ line ∈ blanks, Text.isBlankLine line = true) ∧
        answered.map TestResult.ofLine? = (TestResult.fetch bytes).1.toList.map some) ∧
      (∃ taken, Text.Takes taken bytes (Message.fetch bytes).2 ∧
        (bytes ≠ [] → Message.Spans (Text.lines bytes) taken)) ∧
      (∃ calls last, Drains TestResult.fetch bytes calls last ∧
        bytes = calls.flatMap (·.2) ++ last ∧ calls.length ≤ (Text.lines bytes).length ∧
        calls.map (·.1) = TestResult.readAll (Text.lines bytes)) ∧
      ∃ calls, Drains Message.fetch bytes calls [] ∧
        bytes = calls.flatMap (·.2) ∧ calls.length ≤ (Text.lines bytes).length ∧
        calls.map (·.1) = Message.readAll (Text.lines bytes) := by
  refine ⟨TestResult.getsOn_fetch, Message.getsOn_fetch, fun bytes => ⟨?_, ?_, ?_, ?_⟩⟩
  · obtain ⟨blanks, answered, htakes, hblanks, hanswered, -⟩ := TestResult.fetch_takes bytes
    refine ⟨blanks, answered, htakes, fun line hline => ?_, hanswered⟩
    have hblank := TestResult.isSome_ofLine? line
    rw [hblanks line hline] at hblank
    simpa using hblank.symm
  · obtain ⟨taken, htakes, ⟨hend, -⟩ | ⟨-, -, hspans⟩⟩ := Message.fetch_spans bytes
    · exact ⟨taken, htakes, fun hbytes => absurd hend hbytes⟩
    · exact ⟨taken, htakes, fun _ => hspans⟩
  · obtain ⟨calls, last, hcalls⟩ := TestResult.getsOn_fetch.exists_drains bytes
    exact ⟨calls, last, hcalls, hcalls.bytes_eq, TestResult.getsOn_fetch.length_le hcalls,
      TestResult.map_of_drains hcalls⟩
  · obtain ⟨calls, last, hcalls⟩ := Message.getsOn_fetch.exists_drains bytes
    obtain ⟨rfl, hsaid⟩ := Message.map_of_drains hcalls
    have hbytes := hcalls.bytes_eq
    rw [List.append_nil] at hbytes
    exact ⟨calls, hcalls, hbytes, Message.getsOn_fetch.length_le hcalls, hsaid⟩

/-- A header may announce any number of entries; the call for them ends where the stream does. -/
example : Message.fetch (Utf8.encode "FINISH 1 1\nJUDGE_LOG 6d 18446744073709551615\n")
    = (some (.error (.unexpectedEnd .logEntry)), []) := by rfl

end Valuer
