import Valuer.Proofs.HexText
import Valuer.Proofs.LineText
import Valuer.Proofs.LogEntries
import Valuer.Proofs.SinkWrites
import Valuer.Wire.Message

set_option autoImplicit false

/-! # Streams of messages

A stream of messages is read back as it was written, whatever the messages hold: each line is
unbroken and spells its message (`ofText?` after `text`, line by line), a log is rebuilt entry by
entry because its entries are fit to be pushed in their order, and so a message is taken off the
front of a stream whatever follows it (`next?_texts`). Only the line breaks of a comment are lost.

The log of a report is what makes this more than a fact about lines: that a code is a single word
and that no test is named twice are the reasons why no line of a block is refused. -/

namespace Valuer

/-- What a reader makes of a message: a comment has spaces for its line breaks. -/
def Message.onWire : Message → Message
  | .run test => .run test
  | .comment audience text => .comment audience (oneLine text)
  | .finish report => .finish report

theorem nextText_encode (awaited : Awaited) {text : String} (h : Text.Unbroken text)
    (rest : List Text.Line) :
    nextText awaited (Utf8.encode text :: rest) = (.ok text, rest) := by
  rw [nextText, Text.lineText?_encode h]

/-! ## Entries -/

/-- A code that can be logged has neither blanks nor controls. -/
theorem not_mem_of_isToken {code : String} (h : isToken code = true) {c : Char}
    (hc : (Text.isBlank c || Text.isControl c) = true) : c ∉ code.toList := by
  intro hmem
  rw [isToken, Bool.and_eq_true, List.all_eq_true] at h
  have hfit := h.2 c hmem
  rw [← Bool.not_or, hc] at hfit
  exact Bool.noConfusion hfit

theorem unbroken_of_isToken {code : String} (h : isToken code = true) : Text.Unbroken code :=
  ⟨not_mem_of_isToken h (by decide), not_mem_of_isToken h (by decide)⟩

theorem Verdict.unbroken_name (v : Verdict) : Text.Unbroken v.name := by
  constructor <;> cases v <;> decide

theorem Verdict.space_not_mem_name (v : Verdict) : ' ' ∉ v.name.toList := by
  cases v <;> decide

namespace LogEntry

theorem unbroken_text {e : LogEntry} (h : isToken e.code = true) : Text.Unbroken e.text := by
  apply Text.unbroken_unwords
  intro w hw
  simp only [List.mem_cons, List.not_mem_nil, or_false] at hw
  rcases hw with rfl | rfl | rfl | rfl | rfl
  · exact ⟨by decide, by decide⟩
  · exact Text.unbroken_decimal _
  · exact unbroken_of_isToken h
  · exact e.verdict.unbroken_name
  · exact Text.unbroken_decimal _

theorem words_text {e : LogEntry} (h : isToken e.code = true) :
    Text.words e.text = ["ENTRY", Text.decimal e.test.toNat, e.code, e.verdict.name,
      Text.decimal e.score.toNat] := by
  apply Text.words_unwords (by simp)
  intro w hw
  simp only [List.mem_cons, List.not_mem_nil, or_false] at hw
  rcases hw with rfl | rfl | rfl | rfl | rfl
  · decide
  · exact Text.not_mem_decimal (by decide) _
  · exact not_mem_of_isToken h (by decide)
  · exact e.verdict.space_not_mem_name
  · exact Text.not_mem_decimal (by decide) _

/-- The line of an entry spells the entry. -/
theorem ofText?_text {e : LogEntry} (h : isToken e.code = true) : ofText? e.text = some e := by
  simp only [ofText?, words_text h, Text.word?_decimal, Verdict.ofCode_name]

end LogEntry

/-! ## Logs -/

namespace JudgeLog

/-- A log has no more entries than there are tests, so their number fits in a header. -/
theorem length_entries_lt (log : JudgeLog) : log.entries.length < countBound := by
  have hnodup : ((log.entries.map (·.test)).map UInt32.toNat).Nodup :=
    List.Pairwise.map UInt32.toNat (fun _ _ hne heq => hne (UInt32.toNat_inj.1 heq)) log.distinct
  have hsub : (log.entries.map (·.test)).map UInt32.toNat ⊆ List.range UInt32.size := by
    intro n hn
    obtain ⟨t, -, rfl⟩ := List.mem_map.1 hn
    exact List.mem_range.2 t.toNat_lt_size
  have hlen := hnodup.length_le_of_subset hsub
  simp only [List.length_map, List.length_range] at hlen
  exact Nat.lt_of_le_of_lt hlen (by decide)

theorem unbroken_header (log : JudgeLog) : Text.Unbroken log.header := by
  apply Text.unbroken_unwords
  intro w hw
  simp only [List.mem_cons, List.not_mem_nil, or_false] at hw
  rcases hw with rfl | rfl | rfl
  · exact ⟨by decide, by decide⟩
  · constructor <;> intro hc <;>
      exact absurd (Hex.mem_alphabet_of_mem_encode hc) (by decide)
  · exact Text.unbroken_decimal _

theorem words_header (log : JudgeLog) :
    Text.words log.header = ["JUDGE_LOG", Hex.encode (Utf8.encode log.name),
      Text.decimal log.entries.length] := by
  apply Text.words_unwords (by simp)
  intro w hw
  simp only [List.mem_cons, List.not_mem_nil, or_false] at hw
  rcases hw with rfl | rfl | rfl
  · decide
  · intro hc
    exact absurd (Hex.mem_alphabet_of_mem_encode hc) (by decide)
  · exact Text.not_mem_decimal (by decide) _

/-- The header of a log announces its name and the number of its entries. -/
theorem ofHeader?_header (log : JudgeLog) :
    ofHeader? log.header = some (log.name, log.entries.length) := by
  have hcount := Text.natBelow?_decimal log.length_entries_lt
  simp only [ofHeader?, words_header, Hex.decode_encode, hcount, Utf8.decode?_encode,
    Option.map_some]

/-- An entry that stands next in a whole log can be pushed to the entries before it. -/
theorem pushText_text {log whole : JudgeLog} {e : LogEntry} {es : List LogEntry}
    (hwhole : whole.entries = log.entries ++ e :: es) :
    ∃ next, log.pushText e.text = .ok next ∧ next.name = log.name ∧
      next.entries = log.entries ++ [e] := by
  have hcode : isToken e.code = true := whole.tokens e (by simp [hwhole])
  have hfresh : log.get? e.test = none := by
    rw [get?_eq_none_iff]
    intro hmem
    have hdistinct := whole.distinct
    rw [hwhole, List.map_append, List.map_cons] at hdistinct
    exact (List.nodup_append.1 hdistinct).2.2 _ hmem _ (List.mem_cons_self ..) rfl
  obtain ⟨next, hpush, hnext⟩ := push_of_new hcode hfresh
  refine ⟨next, ?_, hnext⟩
  rw [pushText, LogEntry.ofText?_text hcode]
  simp only [hpush]

/-- The lines of the entries that a log lacks of a whole log make it the whole log. -/
theorem readEntries_texts {log whole : JudgeLog} {es : List LogEntry}
    (hname : log.name = whole.name) (hwhole : whole.entries = log.entries ++ es)
    (rest : List Text.Line) :
    readEntries log es.length (es.map (fun e => Utf8.encode e.text) ++ rest)
      = (.ok whole, rest) := by
  induction es generalizing log with
  | nil =>
      have hsame : log = whole := ext hname (by simp [hwhole])
      simp only [List.length_nil, List.map_nil, List.nil_append, readEntries, hsame]
  | cons e es ih =>
      have hcode : isToken e.code = true := whole.tokens e (by simp [hwhole])
      obtain ⟨next, hpush, hnext, hentries⟩ := pushText_text hwhole
      have hrest := ih (hnext.trans hname) (by rw [hentries, hwhole, List.append_assoc]; rfl)
      simp only [List.length_cons, List.map_cons, List.cons_append, readEntries,
        nextText_encode _ (LogEntry.unbroken_text hcode), hpush]
      exact hrest

/-- The lines of a log are read as the log, whatever follows them. -/
theorem read_texts (log : JudgeLog) (rest : List Text.Line) :
    read (Utf8.encode log.header ::
        (log.entries.map (fun e => Utf8.encode e.text) ++ Utf8.encode "END" :: rest))
      = (.ok log, rest) := by
  have hend : Text.Unbroken "END" := ⟨by decide, by decide⟩
  have hname : (empty log.name).name = log.name := rfl
  have hwhole : log.entries = (empty log.name).entries ++ log.entries := (List.nil_append _).symm
  have hentries := readEntries_texts hname hwhole (Utf8.encode "END" :: rest)
  simp only [read, nextText_encode _ log.unbroken_header, ofHeader?_header, hentries, readEnd,
    nextText_encode _ hend, if_true]

end JudgeLog

/-! ## First lines -/

theorem unbroken_oneLine (text : String) : Text.Unbroken (oneLine text) := by
  constructor <;> intro hmem <;> rw [oneLine, String.toList_ofList] at hmem <;>
    obtain ⟨c, -, hc⟩ := List.mem_map.1 hmem <;> split at hc
  · exact absurd hc (by decide)
  · next hbreak => simp [hc] at hbreak
  · exact absurd hc (by decide)
  · next hbreak => simp [hc] at hbreak

theorem Audience.unbroken_word (audience : Audience) : Text.Unbroken audience.word := by
  constructor <;> cases audience <;> decide

theorem Audience.space_not_mem_word (audience : Audience) : ' ' ∉ audience.word.toList := by
  cases audience <;> decide

namespace MessageHead

theorem audience?_word (audience : Audience) : audience? audience.word = some audience := by
  cases audience <;> rfl

theorem ofText?_run (test : UInt32) :
    ofText? (Text.unwords ["RUN", Text.decimal test.toNat]) = some (.run test) := by
  have hwords : Text.words (Text.unwords ["RUN", Text.decimal test.toNat])
      = ["RUN", Text.decimal test.toNat] := by
    apply Text.words_unwords (by simp)
    intro w hw
    simp only [List.mem_cons, List.not_mem_nil, or_false] at hw
    rcases hw with rfl | rfl
    · decide
    · exact Text.not_mem_decimal (by decide) _
  simp only [ofText?, hwords, Text.word?_decimal, Option.map_some]

/-- The text of a comment is all that follows its audience, spaces included. -/
theorem ofText?_comment (audience : Audience) (text : String) :
    ofText? (Text.unwords ["COMMENT", audience.word, text]) = some (.comment audience text) := by
  have hwords : Text.words (Text.unwords ["COMMENT", audience.word, text])
      = "COMMENT" :: audience.word :: Text.words text := by
    rw [Text.words_unwords_cons (by decide) (by simp),
      Text.words_unwords_cons audience.space_not_mem_word (by simp), Text.unwords_singleton]
  simp only [ofText?, hwords, audience?_word, Text.unwords_words, Option.map_some]

theorem ofText?_finish (report : Report) :
    ofText? report.header = some (.finish report.score report.full) := by
  have hwords : Text.words report.header
      = ["FINISH", Text.decimal report.score.toNat, if report.full then "1" else "0"] := by
    apply Text.words_unwords (by simp)
    intro w hw
    simp only [List.mem_cons, List.not_mem_nil, or_false] at hw
    rcases hw with rfl | rfl | rfl
    · decide
    · exact Text.not_mem_decimal (by decide) _
    · split <;> decide
  have hflag : flag? (if report.full then "1" else "0") = some report.full := by
    cases report.full <;> rfl
  simp only [ofText?, hwords, Text.word?_decimal, hflag]

end MessageHead

/-! ## Messages -/

namespace Message

theorem unbroken_header (report : Report) : Text.Unbroken report.header := by
  apply Text.unbroken_unwords
  intro w hw
  simp only [List.mem_cons, List.not_mem_nil, or_false] at hw
  rcases hw with rfl | rfl | rfl
  · exact ⟨by decide, by decide⟩
  · exact Text.unbroken_decimal _
  · split <;> exact ⟨by decide, by decide⟩

/-- A message is written on lines that are not broken any further. -/
theorem unbroken_texts (m : Message) : ∀ text ∈ m.texts, Text.Unbroken text := by
  intro text htext
  cases m with
  | run test =>
      rw [texts, List.mem_singleton] at htext
      subst htext
      apply Text.unbroken_unwords
      intro w hw
      simp only [List.mem_cons, List.not_mem_nil, or_false] at hw
      rcases hw with rfl | rfl
      · exact ⟨by decide, by decide⟩
      · exact Text.unbroken_decimal _
  | comment audience comment =>
      rw [texts, List.mem_singleton] at htext
      subst htext
      apply Text.unbroken_unwords
      intro w hw
      simp only [List.mem_cons, List.not_mem_nil, or_false] at hw
      rcases hw with rfl | rfl | rfl
      · exact ⟨by decide, by decide⟩
      · exact audience.unbroken_word
      · exact unbroken_oneLine comment
  | finish report =>
      simp only [texts, List.mem_cons, List.mem_append, List.mem_map, List.not_mem_nil,
        or_false] at htext
      rcases htext with rfl | rfl | ⟨e, he, rfl⟩ | rfl
      · exact unbroken_header report
      · exact report.log.unbroken_header
      · exact LogEntry.unbroken_text (report.log.tokens e he)
      · exact ⟨by decide, by decide⟩

theorem texts_ne_nil (m : Message) : m.texts ≠ [] := by
  cases m <;> simp [texts]

/-- The lines of a message are the lines of what it is written as, whatever bytes follow. -/
theorem lines_encode (m : Message) (bytes : List UInt8) :
    Text.lines (m.encode ++ bytes) = m.texts.map Utf8.encode ++ Text.lines bytes :=
  Text.lines_unlines_append (Text.lineFeed_not_mem_of_unbroken m.unbroken_texts) bytes

theorem encode_ne_nil (m : Message) : m.encode ≠ [] := by
  intro hnil
  have hlines := m.lines_encode []
  rw [hnil, List.nil_append, Text.lines_nil, List.append_nil] at hlines
  exact m.texts_ne_nil (List.map_eq_nil_iff.1 hlines.symm)

/-- The lines of a message are read as the message, whatever lines follow. -/
theorem next?_texts (m : Message) (rest : List Text.Line) :
    next? (m.texts.map Utf8.encode ++ rest) = some (.ok m.onWire, rest) := by
  have htexts := m.unbroken_texts
  cases m with
  | run test =>
      have hline := Text.lineText?_encode (htexts _ (List.mem_cons_self ..))
      simp only [texts, List.map_cons, List.map_nil, List.cons_append, List.nil_append, next?,
        hline, MessageHead.ofText?_run, ofHead, onWire]
  | comment audience text =>
      have hline := Text.lineText?_encode (htexts _ (List.mem_cons_self ..))
      simp only [texts, List.map_cons, List.map_nil, List.cons_append, List.nil_append, next?,
        hline, MessageHead.ofText?_comment, ofHead, onWire]
  | finish report =>
      have hline := Text.lineText?_encode (htexts _ (List.mem_cons_self ..))
      have hlog := report.log.read_texts rest
      simp only [texts, List.map_cons, List.map_append, List.map_map, List.map_nil,
        List.cons_append, List.append_assoc, List.nil_append, next?, hline,
        MessageHead.ofText?_finish, ofHead, onWire]
      rw [show (Utf8.encode ∘ LogEntry.text) = fun e => Utf8.encode e.text from rfl, hlog]

theorem readAll_nil : readAll [] = [] := by
  rw [readAll]
  rfl

/-- Reading a stream that starts with a message gives the message first. -/
theorem readAll_texts (m : Message) (rest : List Text.Line) :
    readAll (m.texts.map Utf8.encode ++ rest) = .ok m.onWire :: readAll rest := by
  rw [readAll]
  split
  · next hnone =>
      rw [next?_texts] at hnone
      exact absurd hnone (by simp)
  · next first tail hsome =>
      rw [next?_texts, Option.some.injEq, Prod.mk.injEq] at hsome
      rw [← hsome.1, ← hsome.2]

/-- Messages that were written one after another are read one after another. -/
theorem readAll_encode (ms : List Message) (bytes : List UInt8) :
    readAll (Text.lines (ms.flatMap encode ++ bytes))
      = ms.map (fun m => .ok m.onWire) ++ readAll (Text.lines bytes) := by
  induction ms with
  | nil => rfl
  | cons m ms ih =>
      rw [List.flatMap_cons, List.append_assoc, lines_encode, readAll_texts, ih]
      rfl

/-! ## Writing to a sink -/

/-- Writes messages one after another, going on after one that fails. -/
def writeAll (s : Sink) : List Message → List (Except Error Unit) × Sink
  | [] => ([], s)
  | m :: rest =>
      let (s, outcome) := s.write m.encode
      let (outcomes, s) := writeAll s rest
      (outcome :: outcomes, s)

end Message

/-- A sink that never fails takes all of every message. -/
theorem Message.writeAll_of_unlimited {s : Sink} (h : s.Unlimited) (ms : List Message) :
    (writeAll s ms).1 = ms.map (fun _ => .ok ()) ∧
      (writeAll s ms).2.bytes = s.bytes ++ ms.flatMap encode := by
  induction ms generalizing s with
  | nil => exact ⟨rfl, (List.append_nil _).symm⟩
  | cons m ms ih =>
      obtain ⟨houtcomes, hbytes⟩ := ih (h.write m.encode)
      constructor
      · rw [writeAll, List.map_cons, ← houtcomes, ← h.outcome_write m.encode]
      · rw [List.flatMap_cons, ← List.append_assoc, ← h.bytes_write, ← hbytes]
        rfl

/-- Whatever messages are written one after another, reading the stream to its end gives the same
messages in order and no error; a comment has one space for each of its line breaks. -/
theorem Message.readAll_writeAll (ms : List Message) :
    let written := writeAll {} ms
    written.1 = ms.map (fun _ => .ok ()) ∧
      readAll (Text.lines written.2.bytes) = ms.map fun m => .ok m.onWire := by
  have hsink : ({} : Sink).Unlimited := ⟨rfl, rfl⟩
  obtain ⟨houtcomes, hbytes⟩ := writeAll_of_unlimited hsink ms
  refine ⟨houtcomes, ?_⟩
  have hread := readAll_encode ms []
  rw [List.append_nil, Text.lines_nil, readAll_nil, List.append_nil] at hread
  rw [hbytes]
  exact hread

end Valuer
