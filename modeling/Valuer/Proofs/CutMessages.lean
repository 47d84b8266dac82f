import Valuer.Proofs.Cuts
import Valuer.Proofs.MessageStream

set_option autoImplicit false

/-! # Messages on a stream that is cut

What is read of a message that is not whole. A request may have lost digits and a comment the end of
its text, and both are read as if they were meant so. A report is never read from a part of it: its
log announces how many entries follow, and the lines that are left are too few for that, or the last
of them is not the line that ends a log (`JudgeLog.read_cut`). -/

namespace Valuer

/-! ## First lines -/

namespace MessageHead

variable {s : String} {head : MessageHead}

/-- The beginning of a word is no message. -/
theorem ofText?_of_prefix_word {word : String} (hword : ' ' ∉ word.toList)
    (hs : s.toList <+: word.toList) : ofText? s = none := by
  have hspace : ' ' ∉ s.toList := fun hmem => hword (hs.subset hmem)
  have hwords := Text.words_unwords (List.cons_ne_nil s []) (List.forall_mem_singleton.2 hspace)
  rw [Text.unwords_singleton] at hwords
  simp [ofText?, hwords]

/-- Two words of which the second is cut are two words. -/
theorem words_cut_pair {first second t : String} (hfirst : ' ' ∉ first.toList)
    (hsecond : ' ' ∉ second.toList) (ht : t.toList <+: second.toList) :
    Text.words (Text.unwords [first, t]) = [first, t] := by
  have hspace : ' ' ∉ t.toList := fun hmem => hsecond (ht.subset hmem)
  exact Text.words_unwords (List.cons_ne_nil _ _)
    (List.forall_mem_cons.2 ⟨hfirst, List.forall_mem_singleton.2 hspace⟩)

/-- A request that has lost digits is a request for the test that is left. -/
theorem ofText?_cut_run {test : UInt32}
    (hs : s.toList <+: (Text.unwords ["RUN", Text.decimal test.toNat]).toList)
    (h : ofText? s = some head) :
    ∃ t, head = .run t ∧
      (Text.decimal t.toNat).toList <+: (Text.decimal test.toNat).toList := by
  rcases Text.prefix_unwords_cons (by simp) hs with hword | ⟨digits, hdigits, rfl⟩
  · rw [ofText?_of_prefix_word (by decide) hword] at h
    exact absurd h (by simp)
  · rw [Text.unwords_singleton] at hdigits
    have hwords : Text.words (Text.unwords ["RUN", digits]) = ["RUN", digits] :=
      words_cut_pair (by decide) (Text.not_mem_decimal (by decide) _) hdigits
    simp only [ofText?, hwords, Option.map_eq_some_iff] at h
    obtain ⟨t, ht, rfl⟩ := h
    exact ⟨t, rfl, Text.decimal_of_word?_of_prefix hdigits ht ▸ hdigits⟩

theorem word_of_audience? {word : String} {audience : Audience}
    (h : audience? word = some audience) : audience.word = word := by
  unfold audience? at h
  split at h
  · cases h
    rfl
  · cases h
    rfl
  · exact absurd h (by simp)

/-- No audience is the beginning of another. -/
theorem eq_of_word_prefix {a b : Audience} (h : a.word.toList <+: b.word.toList) : a = b := by
  revert h
  cases a <;> cases b <;> decide

/-- A comment that has lost the end of its text is a comment with the text that is left. -/
theorem ofText?_cut_comment {audience : Audience} {text : String}
    (hs : s.toList <+: (Text.unwords ["COMMENT", audience.word, text]).toList)
    (h : ofText? s = some head) :
    ∃ t : String, head = .comment audience t ∧ t.toList <+: text.toList := by
  rcases Text.prefix_unwords_cons (by simp) hs with hword | ⟨later, hlater, rfl⟩
  · rw [ofText?_of_prefix_word (by decide) hword] at h
    exact absurd h (by simp)
  rcases Text.prefix_unwords_cons (by simp) hlater with hword | ⟨t, ht, rfl⟩
  · have hwords : Text.words (Text.unwords ["COMMENT", later]) = ["COMMENT", later] :=
      words_cut_pair (by decide) audience.space_not_mem_word hword
    simp only [ofText?, hwords, Option.map_eq_some_iff] at h
    obtain ⟨found, hfound, rfl⟩ := h
    obtain rfl := eq_of_word_prefix ((word_of_audience? hfound).symm ▸ hword)
    exact ⟨"", rfl, List.nil_prefix⟩
  · rw [Text.unwords_singleton] at ht
    rw [← Text.unwords_cons _ (by simp), ofText?_comment] at h
    exact ⟨t, (Option.some.inj h).symm, ht⟩

/-- The first line of a report that is cut starts a report, if anything. -/
theorem ofText?_cut_finish {report : Report} (hs : s.toList <+: report.header.toList)
    (h : ofText? s = some head) : ∃ score full, head = .finish score full := by
  rcases Text.prefix_unwords_cons (by simp) hs with hword | ⟨later, -, rfl⟩
  · rw [ofText?_of_prefix_word (by decide) hword] at h
    exact absurd h (by simp)
  · have hwords : Text.words (Text.unwords ["FINISH", later]) = "FINISH" :: Text.words later := by
      rw [Text.words_unwords_cons (by decide) (by simp), Text.unwords_singleton]
    unfold ofText? at h
    rw [hwords] at h
    split at h
    · next heq => exact absurd heq (by simp)
    · next heq => exact absurd heq (by simp)
    · split at h
      · exact ⟨_, _, (Option.some.inj h).symm⟩
      · exact absurd h (by simp)
    · exact absurd h (by simp)

end MessageHead

/-! ## Logs -/

theorem nextText_remains (awaited : Awaited) (part : Text.Line) :
    ∃ outcome, nextText awaited (Text.remains part) = (outcome, []) := by
  unfold Text.remains
  split
  · exact ⟨_, rfl⟩
  · simp only [nextText]
    cases Text.lineText? part <;> exact ⟨_, rfl⟩

theorem lineText?_of_nextText {awaited : Awaited} {part : Text.Line} {text : String}
    {rest : List Text.Line} (h : nextText awaited (Text.remains part) = (.ok text, rest)) :
    Text.lineText? part = some text := by
  unfold Text.remains at h
  split at h
  · exact absurd (congrArg Prod.fst h) (by simp [nextText])
  · simp only [nextText] at h
    split at h
    · exact absurd (congrArg Prod.fst h) (by simp)
    · next found hfound =>
        obtain rfl := Except.ok.inj (congrArg Prod.fst h)
        exact hfound

namespace JudgeLog

/-- Reads what follows the header of a log: so many entries, and the line that ends the log. -/
def readBody (log : JudgeLog) (count : Nat) (lines : List Text.Line) :
    Except Error JudgeLog × List Text.Line :=
  match readEntries log count lines with
  | (.error e, rest) => (.error e, rest)
  | (.ok log, rest) => readEnd log rest

theorem read_eq (lines : List Text.Line) :
    read lines = match nextText .logHeader lines with
      | (.error e, rest) => (.error e, rest)
      | (.ok text, rest) =>
          match ofHeader? text with
          | none => (.error (.malformed text), rest)
          | some (name, count) => readBody (empty name) count rest := by
  rfl

theorem readBody_succ (log : JudgeLog) (count : Nat) (lines : List Text.Line) :
    readBody log (count + 1) lines = match nextText .logEntry lines with
      | (.error e, rest) => (.error e, rest)
      | (.ok text, rest) =>
          match log.pushText text with
          | .error e => (.error e, rest)
          | .ok log => readBody log count rest := by
  unfold readBody
  simp only [readEntries]
  rcases nextText .logEntry lines with ⟨outcome, rest⟩
  cases outcome with
  | error e => rfl
  | ok text =>
      simp only
      cases log.pushText text <;> rfl

/-- Nothing is left to end a log with. -/
theorem readBody_nil (log : JudgeLog) (count : Nat) :
    ∃ e, readBody log count [] = (.error e, []) := by
  cases count with
  | zero => exact ⟨_, rfl⟩
  | succ count => exact ⟨_, rfl⟩

/-- A part of a line is no entry with the end of the log behind it. -/
theorem readBody_remains (log : JudgeLog) (count : Nat) (part : Text.Line) :
    ∃ e, readBody log (count + 1) (Text.remains part) = (.error e, []) := by
  obtain ⟨outcome, hread⟩ := nextText_remains .logEntry part
  rw [readBody_succ, hread]
  cases outcome with
  | error e => exact ⟨e, rfl⟩
  | ok text =>
      simp only
      cases log.pushText text with
      | error e => exact ⟨e, rfl⟩
      | ok next => exact next.readBody_nil count

/-- A part of a line is no log. -/
theorem read_remains (part : Text.Line) : ∃ e, read (Text.remains part) = (.error e, []) := by
  obtain ⟨outcome, hread⟩ := nextText_remains .logHeader part
  rw [read_eq, hread]
  cases outcome with
  | error e => exact ⟨e, rfl⟩
  | ok text =>
      simp only
      cases ofHeader? text with
      | none => exact ⟨_, rfl⟩
      | some announced => exact (empty announced.1).readBody_nil announced.2

/-- Entries that stand next in a whole log are taken in, and reading goes on behind them. -/
theorem readBody_texts {log whole : JudgeLog} {es more : List LogEntry}
    (hname : log.name = whole.name) (hwhole : whole.entries = log.entries ++ (es ++ more))
    (count : Nat) (rest : List Text.Line) :
    ∃ next : JudgeLog, next.name = whole.name ∧ next.entries = log.entries ++ es ∧
      log.readBody (es.length + count) (es.map (fun e => Utf8.encode e.text) ++ rest)
        = next.readBody count rest := by
  induction es generalizing log with
  | nil => exact ⟨log, hname, (List.append_nil _).symm, by rw [List.length_nil, Nat.zero_add]; rfl⟩
  | cons e es ih =>
      have hcode : isToken e.code = true := whole.tokens e (by simp [hwhole])
      obtain ⟨first, hpush, hfirst, hentries⟩ := pushText_text hwhole
      obtain ⟨next, hnext, hall, hread⟩ := ih (hfirst.trans hname) (by simp [hentries, hwhole])
      have hcount : (e :: es).length + count = es.length + count + 1 := by
        rw [List.length_cons]
        omega
      refine ⟨next, hnext, by rw [hall, hentries, List.append_assoc]; rfl, ?_⟩
      rw [← hread, hcount, readBody_succ, List.map_cons, List.cons_append,
        nextText_encode _ (LogEntry.unbroken_text hcode)]
      simp only [hpush]

/-- The lines of a log. -/
def texts (log : JudgeLog) : List String :=
  log.header :: (log.entries.map LogEntry.text ++ ["END"])

/-- A cut behind the header of a log falls into an entry or into the last line. -/
theorem cut_cases {es : List LogEntry} {before after : List String} {text : String}
    (h : es.map LogEntry.text ++ ["END"] = before ++ text :: after) :
    (∃ done e more, es = done ++ e :: more ∧ before = done.map LogEntry.text ∧ text = e.text ∧
        after ≠ []) ∨
      before = es.map LogEntry.text ∧ text = "END" ∧ after = [] := by
  rcases List.append_eq_append_iff.1 h with ⟨more, hbefore, hend⟩ | ⟨more, hentries, hend⟩
  · cases more with
    | nil =>
        obtain ⟨rfl, rfl⟩ := List.cons.inj hend
        rw [List.append_nil] at hbefore
        exact .inr ⟨hbefore, rfl, rfl⟩
    | cons line more => exact absurd (congrArg List.length hend) (by simp)
  · cases more with
    | nil =>
        obtain ⟨rfl, rfl⟩ := List.cons.inj hend
        rw [List.append_nil] at hentries
        exact .inr ⟨hentries.symm, rfl, rfl⟩
    | cons line more =>
        obtain ⟨rfl, rfl⟩ := List.cons.inj hend
        obtain ⟨done, tail, rfl, rfl, htail⟩ := List.map_eq_append_iff.1 hentries
        obtain ⟨e, rest, rfl, rfl, rfl⟩ := List.map_eq_cons_iff.1 htail
        exact .inl ⟨done, e, rest, rfl, rfl, rfl, by simp⟩

/-- A part of the last line ends a log only if it is all of it. -/
theorem readEnd_remains (log : JudgeLog) {part : Text.Line}
    (hpart : part <+: Utf8.encode "END") :
    (part = Utf8.encode "END" ∧ readEnd log (Text.remains part) = (.ok log, [])) ∨
      part ≠ Utf8.encode "END" ∧ ∃ e, readEnd log (Text.remains part) = (.error e, []) := by
  obtain ⟨outcome, hread⟩ := nextText_remains .logEnd part
  by_cases hwhole : part = Utf8.encode "END"
  · subst hwhole
    exact .inl ⟨rfl, by rfl⟩
  · refine .inr ⟨hwhole, ?_⟩
    rw [readEnd, hread]
    cases outcome with
    | error e => exact ⟨e, rfl⟩
    | ok text =>
        have hother : text ≠ "END" := by
          rintro rfl
          have hend : Text.Unbroken "END" := ⟨by decide, by decide⟩
          have htext := Text.decode?_of_lineText? hend hpart (lineText?_of_nextText hread)
          exact hwhole (Utf8.decode?_eq_some_iff.1 htext)
        exact ⟨.malformed text, by simp only [if_neg hother]⟩

/-- A log that is cut cannot be read, unless it is all there but for its last line feed. -/
theorem read_cut (log : JudgeLog) {before after : List String} {text : String} {part : Text.Line}
    (hcut : log.texts = before ++ text :: after) (hpart : part <+: Utf8.encode text) :
    (after = [] ∧ part = Utf8.encode text ∧
      read (before.map Utf8.encode ++ Text.remains part) = (.ok log, [])) ∨
    (¬ (after = [] ∧ part = Utf8.encode text) ∧
      ∃ e, read (before.map Utf8.encode ++ Text.remains part) = (.error e, [])) := by
  unfold texts at hcut
  cases before with
  | nil =>
      obtain ⟨rfl, rfl⟩ := List.cons.inj hcut
      exact .inr ⟨by simp, read_remains part⟩
  | cons first before =>
      obtain ⟨rfl, hlater⟩ := List.cons.inj hcut
      have hbody : read ((log.header :: before).map Utf8.encode ++ Text.remains part)
          = readBody (empty log.name) log.entries.length
              (before.map Utf8.encode ++ Text.remains part) := by
        rw [read_eq, List.map_cons, List.cons_append, nextText_encode _ log.unbroken_header]
        simp only [ofHeader?_header]
      have hname : (empty log.name).name = log.name := rfl
      rw [hbody]
      rcases cut_cases hlater with ⟨done, e, more, hentries, rfl, rfl, hafter⟩ | ⟨rfl, rfl, rfl⟩
      · -- the entries before the cut are taken in, and then a line is missing
        obtain ⟨next, -, -, hread⟩ := readBody_texts hname
          (hentries : log.entries = (empty log.name).entries ++ (done ++ e :: more))
          (more.length + 1) (Text.remains part)
        have hcount : log.entries.length = done.length + (more.length + 1) := by
          rw [hentries, List.length_append, List.length_cons]
        obtain ⟨error, hcut⟩ := next.readBody_remains more.length part
        rw [hcount, List.map_map]
        exact .inr ⟨fun hend => hafter hend.1, error, hread.trans hcut⟩
      · -- all entries are taken in, and it depends on the last line
        have hall : log.entries = (empty log.name).entries ++ (log.entries ++ []) :=
          (List.append_nil _).symm
        obtain ⟨next, hnext, hentries, hread⟩ := readBody_texts hname hall 0 (Text.remains part)
        obtain rfl : next = log := ext hnext hentries
        rw [List.map_map]
        rcases readEnd_remains next hpart with ⟨hpart, hend⟩ | ⟨hpart, error, hend⟩
        · exact .inl ⟨rfl, hpart, hread.trans hend⟩
        · exact .inr ⟨fun hboth => hpart hboth.2, error, hread.trans hend⟩

end JudgeLog

/-! ## Messages -/

namespace Message

/-- What may be read of a message of which only so much has arrived. -/
def Remnant (left : List UInt8) : Message → Except Error Message → Prop
  | .run test, item => ∀ m, item = .ok m →
      ∃ t, m = .run t ∧ (Text.decimal t.toNat).toList <+: (Text.decimal test.toNat).toList
  | .comment audience text, item => ∀ m, item = .ok m →
      ∃ t : String, m = .comment audience t ∧ t.toList <+: (oneLine text).toList
  | .finish report, item =>
      if left ++ [Text.lineFeed] = (Message.finish report).encode then item = .ok (.finish report)
      else ∃ e, item = .error e

/-- Of a first line that is cut one thing is read: an error, or what its head makes of the end of
the stream. -/
theorem next?_cut_line {text : String} (htext : Text.Unbroken text) {part : Text.Line}
    (hpart : part <+: Utf8.encode text) {P : Except Error Message → Prop}
    (herror : ∀ e, P (.error e))
    (hhead : ∀ (s : String) (head : MessageHead), s.toList <+: text.toList →
      MessageHead.ofText? s = some head → ∃ item, ofHead head [] = (item, []) ∧ P item) :
    ∃ item, next? [part] = some (item, []) ∧ P item := by
  simp only [next?]
  split
  · exact ⟨_, rfl, herror _⟩
  · next s hs =>
      split
      · exact ⟨_, rfl, herror _⟩
      · next head hread =>
          obtain ⟨item, hitem, hp⟩ :=
            hhead s head (Text.prefix_of_lineText? htext hpart hs) hread
          exact ⟨item, congrArg some hitem, hp⟩

/-- A message of one line has no line but this one. -/
theorem eq_of_singleton_cut {t text : String} {before after : List String}
    (h : [t] = before ++ text :: after) : before = [] ∧ text = t ∧ after = [] := by
  cases before with
  | nil =>
      obtain ⟨rfl, rfl⟩ := List.cons.inj h
      exact ⟨rfl, rfl, rfl⟩
  | cons first before => exact absurd (congrArg List.length h) (by simp)

/-- A report whose first line is whole is read as far as its log is. -/
theorem next?_header (report : Report) (lines : List Text.Line) :
    next? (Utf8.encode report.header :: lines)
      = some (ofHead (.finish report.score report.full) lines) := by
  simp only [next?, Text.lineText?_encode (unbroken_header report), MessageHead.ofText?_finish]

/-- Of a report that is not whole an error is read, unless only its last line feed is missing. -/
theorem next?_cut_finish (report : Report) {before after : List String} {text : String}
    {part : Text.Line} (hcut : (Message.finish report).texts = before ++ text :: after)
    (hpart : part <+: Utf8.encode text) (hfirst : before = [] → Text.remains part = [part]) :
    ∃ item, next? (before.map Utf8.encode ++ Text.remains part) = some (item, []) ∧
      (Message.finish report).Remnant (Text.unlines (before.map Utf8.encode) ++ part) item := by
  have htext : Text.Unbroken text := (Message.finish report).unbroken_texts text (by simp [hcut])
  have hbytes : (Message.finish report).encode = Text.unlines
      (before.map Utf8.encode ++ Utf8.encode text :: after.map Utf8.encode) := by
    rw [encode, hcut, List.map_append, List.map_cons]
  have hcomplete : Text.unlines (before.map Utf8.encode) ++ part ++ [Text.lineFeed]
      = (Message.finish report).encode ↔ after = [] ∧ part = Utf8.encode text := by
    rw [hbytes, Text.append_lineFeed_eq_unlines_iff hpart, List.map_eq_nil_iff]
  cases before with
  | nil =>
      -- a report that is cut in its first line has no log
      obtain ⟨rfl, rfl⟩ := List.cons.inj hcut
      have hpartial := mt hcomplete.1 fun hboth => absurd hboth.1 (by simp)
      rw [hfirst rfl]
      simp only [Remnant, if_neg hpartial]
      refine next?_cut_line htext hpart (fun e => ⟨e, rfl⟩) ?_
      intro s head hs hhead
      obtain ⟨score, full, rfl⟩ := MessageHead.ofText?_cut_finish hs hhead
      exact ⟨_, rfl, _, rfl⟩
  | cons first before =>
      obtain ⟨rfl, hlog⟩ := List.cons.inj hcut
      have hlater : report.log.texts = before ++ text :: after := hlog
      rw [List.map_cons, List.cons_append, next?_header]
      rcases report.log.read_cut hlater hpart with
        ⟨hafter, hwhole, hread⟩ | ⟨hpartial, e, hread⟩
      · refine ⟨.ok (.finish report), by simp only [ofHead, hread], ?_⟩
        rw [Remnant, ← List.map_cons, if_pos (hcomplete.2 ⟨hafter, hwhole⟩)]
      · refine ⟨.error e, by simp only [ofHead, hread], ?_⟩
        rw [Remnant, ← List.map_cons, if_neg (mt hcomplete.1 hpartial)]
        exact ⟨e, rfl⟩

/-- Of a message that is not whole one thing is read. -/
theorem next?_cut (m : Message) {before after : List String} {text : String} {part : Text.Line}
    (hcut : m.texts = before ++ text :: after) (hpart : part <+: Utf8.encode text)
    (hfirst : before = [] → Text.remains part = [part]) :
    ∃ item, next? (before.map Utf8.encode ++ Text.remains part) = some (item, []) ∧
      m.Remnant (Text.unlines (before.map Utf8.encode) ++ part) item := by
  have htext : Text.Unbroken text := m.unbroken_texts text (by simp [hcut])
  cases m with
  | run test =>
      obtain ⟨rfl, rfl, rfl⟩ := eq_of_singleton_cut hcut
      rw [hfirst rfl]
      refine next?_cut_line htext hpart (fun e m hm => absurd hm (by simp)) ?_
      intro s head hs hhead
      obtain ⟨t, rfl, ht⟩ := MessageHead.ofText?_cut_run hs hhead
      exact ⟨.ok (.run t), rfl, fun m hm => ⟨t, (Except.ok.inj hm).symm, ht⟩⟩
  | comment audience comment =>
      obtain ⟨rfl, rfl, rfl⟩ := eq_of_singleton_cut hcut
      rw [hfirst rfl]
      refine next?_cut_line htext hpart (fun e m hm => absurd hm (by simp)) ?_
      intro s head hs hhead
      obtain ⟨t, rfl, ht⟩ := MessageHead.ofText?_cut_comment hs hhead
      exact ⟨.ok (.comment audience t), rfl, fun m hm => ⟨t, (Except.ok.inj hm).symm, ht⟩⟩
  | finish report => exact next?_cut_finish report hcut hpart hfirst

theorem readAll_of_next? {lines rest : List Text.Line} {item : Except Error Message}
    (h : next? lines = some (item, rest)) : readAll lines = item :: readAll rest := by
  rw [readAll]
  split
  · next hnone => exact absurd (hnone.symm.trans h) (by simp)
  · next first tail hsome =>
      obtain ⟨rfl, rfl⟩ := Prod.mk.inj (Option.some.inj (hsome.symm.trans h))
      rfl

/-- What is read of a message that was cut: nothing if none of it has arrived, and else one thing. -/
theorem readAll_take_encode (m : Message) {i : Nat} (hi : i < m.encode.length) :
    if m.encode.take i = [] then readAll (Text.lines (m.encode.take i)) = []
    else ∃ item, readAll (Text.lines (m.encode.take i)) = [item] ∧
      m.Remnant (m.encode.take i) item := by
  split
  · next hnone => rw [hnone, Text.lines_nil, readAll_nil]
  · next harrived =>
      obtain ⟨_, _, _, part, hlines, hpart, htake⟩ := Text.exists_cut hi
      obtain ⟨before, tail, hcut, rfl, htail⟩ := List.map_eq_append_iff.1 hlines
      obtain ⟨text, after, rfl, rfl, rfl⟩ := List.map_eq_cons_iff.1 htail
      have hleft : m.encode.take i = Text.unlines (before.map Utf8.encode) ++ part := htake
      have hclean := Text.lineFeed_not_mem_of_unbroken m.unbroken_texts
      rw [hcut, List.map_append, List.map_cons] at hclean
      obtain ⟨hbefore, hrest⟩ := List.forall_mem_append.1 hclean
      have hfirst : before = [] → Text.remains part = [part] := by
        rintro rfl
        exact if_neg fun hnil => harrived (by rw [hleft, hnil]; rfl)
      obtain ⟨item, hnext, hremnant⟩ := m.next?_cut hcut hpart hfirst
      rw [hleft, Text.lines_cut hbefore (hrest _ (List.mem_cons_self ..)) hpart,
        readAll_of_next? hnext, readAll_nil]
      exact ⟨item, rfl, hremnant⟩

end Message

end Valuer
