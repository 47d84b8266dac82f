import Mathlib.Data.List.Forall2
import Valuer.Proofs.LogEntries
import Valuer.Proofs.MessageStream
import Valuer.Proofs.NumberText

set_option autoImplicit false

/-! # The canonical form of a message

The reader takes more texts than the writer makes: signs and leading zeros in numbers, codes that
stand for a verdict, carriage returns. Whatever the text was, the message that is read is canonical
already: written again it is read back as it is, a comment's carriage returns aside, and from then
on nothing changes (`Message.next?_is_canonical`). A report that is read keeps to the block that it
was read from, line by line (`Report.SpelledBy`). -/

namespace Valuer

/-! ## Comments -/

namespace Message

/-- A message as it is read back: each carriage return in the text of a comment is a space. -/
def withoutReturns : Message → Message
  | .run test => .run test
  | .comment audience text =>
      .comment audience (String.ofList (text.toList.map fun c => if c == '\r' then ' ' else c))
  | .finish report => .finish report

/-- Carriage returns are written as the spaces that stand for them. -/
theorem encode_withoutReturns (m : Message) : m.withoutReturns.encode = m.encode := by
  cases m with
  | run test => rfl
  | finish report => rfl
  | comment audience text =>
      have hline : oneLine (String.ofList (text.toList.map fun c => if c == '\r' then ' ' else c))
          = oneLine text := by
        rw [oneLine, oneLine, String.toList_ofList, List.map_map]
        refine congrArg String.ofList (List.map_congr_left fun c _ => ?_)
        by_cases hreturn : c = '\r'
        · simp [hreturn]
        · simp [hreturn]
      rw [withoutReturns, encode, encode, texts, texts, hline]

end Message

/-- A text without line feeds is put on one line by taking out its carriage returns. -/
theorem oneLine_of_not_mem {text : String} (h : '\n' ∉ text.toList) :
    oneLine text = String.ofList (text.toList.map fun c => if c == '\r' then ' ' else c) := by
  refine congrArg String.ofList (List.map_congr_left fun c hc => ?_)
  have hne : (c == '\n') = false := beq_eq_false_iff_ne.2 fun heq => h (heq ▸ hc)
  rw [hne, Bool.false_or]

/-- The text of a comment is the end of its line. -/
theorem MessageHead.mem_of_comment {text comment : String} {audience : Audience}
    (h : ofText? text = some (.comment audience comment)) {c : Char} (hc : c ∈ comment.toList) :
    c ∈ text.toList := by
  unfold ofText? at h
  split at h
  · obtain ⟨test, -, hrun⟩ := Option.map_eq_some_iff.1 h
    exact absurd hrun (by simp)
  · next word rest hwords =>
      obtain ⟨a, -, hcomment⟩ := Option.map_eq_some_iff.1 h
      cases hcomment
      rw [← Text.unwords_words text, hwords, Text.toList_unwords_cons _ (by simp)]
      cases rest with
      | nil => exact absurd hc (by simp [Text.unwords])
      | cons w ws =>
          rw [Text.toList_unwords_cons _ (by simp)]
          simp [hc]
  · split at h <;> simp at h
  · exact absurd h (by simp)

/-! ## Logs -/

/-- The line of an entry: the numbers as the judge's side may write them, any code of the verdict,
and the status code as it is. -/
def LogEntry.SpelledBy (e : LogEntry) (line : Text.Line) : Prop :=
  ∃ test verdict score,
    Text.lineText? line = some (Text.unwords ["ENTRY", test, e.code, verdict, score]) ∧
      Text.IsNumber test e.test.toNat ∧ Verdict.ofCode verdict = .ok e.verdict ∧
      Text.IsNumber score e.score.toNat

/-- The line that announces a log: its name in hex, and the number of its entries. -/
def JudgeLog.AnnouncedBy (log : JudgeLog) (line : Text.Line) : Prop :=
  ∃ count,
    Text.lineText? line
        = some (Text.unwords ["JUDGE_LOG", Hex.encode (Utf8.encode log.name), count]) ∧
      Text.IsNumber count log.entries.length

/-- The line that starts a report. -/
def Report.StartedBy (report : Report) (line : Text.Line) : Prop :=
  ∃ score,
    Text.lineText? line
        = some (Text.unwords ["FINISH", score, if report.full then "1" else "0"]) ∧
      Text.IsNumber score report.score.toNat

/-- The lines of a report, one for each entry of its log, and `rest` after them. -/
def Report.SpelledBy (report : Report) (lines rest : List Text.Line) : Prop :=
  ∃ first header entries last, lines = first :: header :: (entries ++ last :: rest) ∧
    report.StartedBy first ∧ report.log.AnnouncedBy header ∧
    List.Forall₂ LogEntry.SpelledBy report.log.entries entries ∧
    Text.lineText? last = some "END"

theorem nextText_eq_ok {awaited : Awaited} {lines rest : List Text.Line} {text : String}
    (h : nextText awaited lines = (.ok text, rest)) :
    ∃ line, lines = line :: rest ∧ Text.lineText? line = some text := by
  cases lines with
  | nil => simp [nextText] at h
  | cons line tail =>
      cases htext : Text.lineText? line <;> simp only [nextText, htext, Prod.mk.injEq,
        Except.ok.injEq, reduceCtorEq, false_and] at h
      obtain ⟨rfl, rfl⟩ := h
      exact ⟨line, rfl, htext⟩

theorem MessageHead.word_of_flag? {word : String} {full : Bool} (h : flag? word = some full) :
    word = if full then "1" else "0" := by
  unfold flag? at h
  split at h <;> cases h <;> rfl

/-- The first line of a report gives its score and whether that is the full one. -/
theorem MessageHead.eq_unwords_of_finish {text : String} {score : UInt32} {full : Bool}
    (h : MessageHead.ofText? text = some (.finish score full)) :
    ∃ word, text = Text.unwords ["FINISH", word, if full then "1" else "0"] ∧
      Text.IsNumber word score.toNat := by
  unfold MessageHead.ofText? at h
  split at h
  · obtain ⟨test, -, hrun⟩ := Option.map_eq_some_iff.1 h
    exact absurd hrun (by simp)
  · obtain ⟨audience, -, hcomment⟩ := Option.map_eq_some_iff.1 h
    exact absurd hcomment (by simp)
  · next word flag hwords =>
      split at h
      · next n b hscore hflag =>
          cases h
          refine ⟨word, ?_, Text.word?_eq_some_iff.1 hscore⟩
          rw [← Text.unwords_words text, hwords, MessageHead.word_of_flag? hflag]
      · exact absurd h (by simp)
  · exact absurd h (by simp)

theorem LogEntry.spelledBy_of_ofText? {line : Text.Line} {text : String} {e : LogEntry}
    (hline : Text.lineText? line = some text) (h : ofText? text = some e) : e.SpelledBy line := by
  unfold ofText? at h
  split at h
  · next test code verdict score hwords =>
      split at h
      · next n v m htest hverdict hscore =>
          cases h
          refine ⟨test, verdict, score, ?_, Text.word?_eq_some_iff.1 htest, hverdict,
            Text.word?_eq_some_iff.1 hscore⟩
          rw [hline, ← Text.unwords_words text, hwords]
      · exact absurd h (by simp)
  · exact absurd h (by simp)

namespace JudgeLog

variable {log next whole : JudgeLog} {lines rest : List Text.Line}

theorem pushText_eq_ok {line : Text.Line} {text : String}
    (hline : Text.lineText? line = some text) (h : log.pushText text = .ok next) :
    ∃ e, e.SpelledBy line ∧ next.name = log.name ∧ next.entries = log.entries ++ [e] := by
  unfold pushText at h
  split at h
  · exact absurd h (by simp)
  · next e he =>
      obtain ⟨-, hname, hentries⟩ := push_eq_ok h
      exact ⟨e, LogEntry.spelledBy_of_ofText? hline he, hname, hentries⟩

/-- Entries that were read stand on lines of their own, as many as were announced. -/
theorem readEntries_eq_ok {count : Nat} (h : readEntries log count lines = (.ok whole, rest)) :
    ∃ taken entries, lines = taken ++ rest ∧ entries.length = count ∧ whole.name = log.name ∧
      whole.entries = log.entries ++ entries ∧
      List.Forall₂ LogEntry.SpelledBy entries taken := by
  induction count generalizing log lines with
  | zero =>
      cases h
      exact ⟨[], [], rfl, rfl, rfl, (List.append_nil _).symm, .nil⟩
  | succ count ih =>
      unfold readEntries at h
      split at h
      · exact absurd h (by simp)
      · next text tail htext =>
          obtain ⟨line, rfl, hline⟩ := nextText_eq_ok htext
          split at h
          · exact absurd h (by simp)
          · next next hpush =>
              obtain ⟨e, he, hname, hentries⟩ := pushText_eq_ok hline hpush
              obtain ⟨taken, later, rfl, hlength, hwhole, hall, hspelled⟩ := ih h
              refine ⟨line :: taken, e :: later, rfl, by rw [List.length_cons, hlength],
                hwhole.trans hname, ?_, .cons he hspelled⟩
              rw [hall, hentries, List.append_assoc]
              rfl

theorem readEnd_eq_ok (h : readEnd log lines = (.ok whole, rest)) :
    whole = log ∧ ∃ last, lines = last :: rest ∧ Text.lineText? last = some "END" := by
  unfold readEnd at h
  split at h
  · exact absurd h (by simp)
  · next text tail htext =>
      obtain ⟨line, rfl, hline⟩ := nextText_eq_ok htext
      split at h
      · next hend =>
          cases h
          exact ⟨rfl, line, rfl, hend ▸ hline⟩
      · exact absurd h (by simp)

theorem ofHeader?_eq_some {text name : String} {count : Nat}
    (h : ofHeader? text = some (name, count)) :
    ∃ word, text = Text.unwords ["JUDGE_LOG", Hex.encode (Utf8.encode name), word] ∧
      Text.IsNumber word count := by
  unfold ofHeader? at h
  split at h
  · next hex word hwords =>
      split at h
      · next bytes n hbytes hcount =>
          obtain ⟨s, hs, heq⟩ := Option.map_eq_some_iff.1 h
          cases heq
          refine ⟨word, ?_, (Text.natBelow?_eq_some_iff.1 hcount).1⟩
          rw [← Utf8.decode?_eq_some_iff.1 hs, Hex.encode_of_decode hbytes, ← hwords,
            Text.unwords_words]
      · exact absurd h (by simp)
  · exact absurd h (by simp)

/-- A log that was read stands on the lines that its header announced. -/
theorem read_eq_ok (h : read lines = (.ok log, rest)) :
    ∃ header entries last, lines = header :: (entries ++ last :: rest) ∧
      log.AnnouncedBy header ∧ List.Forall₂ LogEntry.SpelledBy log.entries entries ∧
      Text.lineText? last = some "END" := by
  unfold read at h
  split at h
  · exact absurd h (by simp)
  · next text tail htext =>
      obtain ⟨header, rfl, hline⟩ := nextText_eq_ok htext
      split at h
      · exact absurd h (by simp)
      · next name count hheader =>
          obtain ⟨word, rfl, hcount⟩ := ofHeader?_eq_some hheader
          split at h
          · exact absurd h (by simp)
          · next filled left hread =>
              obtain ⟨taken, entries, rfl, hlength, hname, hentries, hspelled⟩ :=
                readEntries_eq_ok hread
              obtain ⟨rfl, last, rfl, hlast⟩ := readEnd_eq_ok h
              -- the log started empty, so its entries are the ones that were read
              rw [show (empty name).entries = [] from rfl, List.nil_append] at hentries
              subst hentries
              refine ⟨header, taken, last, rfl, ⟨word, ?_, hlength ▸ hcount⟩, hspelled, hlast⟩
              rw [hname]
              exact hline

end JudgeLog

/-! ## Messages -/

namespace Message

variable {m : Message} {lines rest : List Text.Line}

/-- A message that was read starts with a line that says what it is. -/
theorem next?_eq_ok (h : next? lines = some (.ok m, rest)) :
    ∃ line tail text head, lines = line :: tail ∧ Text.lineText? line = some text ∧
      MessageHead.ofText? text = some head ∧ ofHead head tail = (.ok m, rest) := by
  cases lines with
  | nil => simp [next?] at h
  | cons line tail =>
      simp only [next?] at h
      split at h
      · exact absurd h (by simp)
      · next text htext =>
          split at h
          · exact absurd h (by simp)
          · next head hhead => exact ⟨line, tail, text, head, rfl, htext, hhead, Option.some.inj h⟩

/-- A message read from lines without line feeds loses nothing but carriage returns. -/
theorem onWire_of_next? (hlines : ∀ line ∈ lines, Text.lineFeed ∉ line)
    (h : next? lines = some (.ok m, rest)) : m.onWire = m.withoutReturns := by
  obtain ⟨line, tail, text, head, rfl, htext, hhead, hrest⟩ := next?_eq_ok h
  cases m with
  | run test => rfl
  | finish report => rfl
  | comment audience comment =>
      have hcomment : head = .comment audience comment := by
        cases head with
        | run test => simp [ofHead] at hrest
        | comment a t =>
            cases hrest
            rfl
        | finish score full =>
            simp only [ofHead] at hrest
            split at hrest <;> simp at hrest
      subst hcomment
      have hfeed : '\n' ∉ text.toList :=
        Text.lineFeed_not_mem_of_lineText? (hlines _ (List.mem_cons_self ..)) htext
      rw [onWire, withoutReturns,
        oneLine_of_not_mem fun hc => hfeed (MessageHead.mem_of_comment hhead hc)]

/-- A report that was read stands on the lines it was read from. -/
theorem spelledBy_of_next? {report : Report} (h : next? lines = some (.ok (.finish report), rest)) :
    report.SpelledBy lines rest := by
  obtain ⟨first, tail, text, head, rfl, hfirst, hhead, hrest⟩ := next?_eq_ok h
  cases head with
  | run test => simp [ofHead] at hrest
  | comment audience comment => simp [ofHead] at hrest
  | finish score full =>
      simp only [ofHead] at hrest
      split at hrest
      · exact absurd hrest (by simp)
      · next log left hlog =>
          cases hrest
          obtain ⟨header, entries, last, rfl, hheader, hentries, hlast⟩ := JudgeLog.read_eq_ok hlog
          obtain ⟨word, rfl, hscore⟩ := MessageHead.eq_unwords_of_finish hhead
          exact ⟨first, header, entries, last, rfl, ⟨word, hfirst, hscore⟩, hheader, hentries,
            hlast⟩

/-- Whatever bytes a message was read from, it is read back from what it is written as, with a space
for each carriage return of a comment, and what is read back is written as the same bytes. The log
of a report names no test twice, has codes that stay one word, and has the entries of the lines that
its header announced, in their order. -/
theorem next?_is_canonical {bytes : List UInt8}
    (h : next? (Text.lines bytes) = some (.ok m, rest)) :
    (∀ more, next? (Text.lines (m.encode ++ more)) = some (.ok m.withoutReturns, Text.lines more)) ∧
      m.withoutReturns.encode = m.encode ∧
      ∀ report, m = .finish report →
        (report.log.entries.map (·.test)).Nodup ∧
        (∀ e ∈ report.log.entries, e.code ≠ "" ∧
          ∀ c ∈ e.code.toList, Text.isBlank c = false ∧ Text.isControl c = false) ∧
        report.SpelledBy (Text.lines bytes) rest := by
  refine ⟨?_, m.encode_withoutReturns, ?_⟩
  · intro more
    have hlines : ∀ line ∈ Text.lines bytes, Text.lineFeed ∉ line :=
      fun line => Text.lineFeed_not_mem_of_mem_lines
    rw [lines_encode, next?_texts, onWire_of_next? hlines h]
  · rintro report rfl
    refine ⟨report.log.distinct, ?_, spelledBy_of_next? h⟩
    intro e he
    have htoken := report.log.tokens e he
    refine ⟨(Text.field_of_isToken htoken).1, fun c hc => ?_⟩
    rw [isToken, Bool.and_eq_true, List.all_eq_true] at htoken
    simpa using htoken.2 c hc

/-- A report with signs, leading zeros, codes that stand for a verdict, carriage returns and no last
line feed, and a comment with a carriage return inside. -/
theorem next?_is_canonical_of_liberal_texts :
    let liberal := Utf8.encode
      "FINISH +05 1\r\r\nJUDGE_LOG 6d 02\nENTRY +2 OK AC 007\nENTRY 1 WA PE 0\r\nEND"
    let log : JudgeLog :=
      { name := "m"
        entries := [⟨2, "OK", .accepted, 7⟩, ⟨1, "WA", .rejected, 0⟩]
        distinct := by decide
        tokens := by decide }
    let report : Report := ⟨5, true, log⟩
    next? (Text.lines liberal) = some (.ok (.finish report), []) ∧
      next? (Text.lines (encode (.finish report))) = some (.ok (.finish report), []) ∧
      report.SpelledBy (Text.lines liberal) [] ∧
      ∃ rest,
        next? (Text.lines (Utf8.encode "COMMENT PUBLIC a\rb\r\nRUN 1"))
            = some (.ok (.comment .everyone "a\rb"), rest) ∧
          next? (Text.lines (encode (.comment .everyone "a\rb")))
            = some (.ok (.comment .everyone "a b"), []) := by
  intro liberal log report
  have hread : next? (Text.lines liberal) = some (.ok (.finish report), []) := by rfl
  have hcomment : next? (Text.lines (Utf8.encode "COMMENT PUBLIC a\rb\r\nRUN 1"))
      = some (.ok (.comment .everyone "a\rb"), [Utf8.encode "RUN 1"]) := by rfl
  have hreport := next?_is_canonical hread
  have hback := hreport.1 []
  have hcommented := (next?_is_canonical hcomment).1 []
  rw [List.append_nil, Text.lines_nil] at hback hcommented
  exact ⟨hread, hback, (hreport.2.2 report rfl).2.2, _, hcomment, hcommented⟩

end Message

end Valuer
