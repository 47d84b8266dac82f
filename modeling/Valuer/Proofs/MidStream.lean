import Valuer.Proofs.Boundaries
import Valuer.Proofs.CutMessages

set_option autoImplicit false

/-! # Reading from the middle of a stream

A judge may start to read where any line of a stream of messages ends. If that is inside a report,
the rest of the report is lost, one error for each of its lines, and from the next message on the
judge is in step again (`Message.readAll_from_boundary`). The reason is that only the first line of a
report starts a message: whatever name a log has and whatever codes are in it, its lines begin with
words of their own. -/

namespace Valuer

/-! ## Lines that start no message -/

/-- A text that begins with any other word starts no message. -/
theorem MessageHead.ofText?_of_words {text word : String} {rest : List String}
    (h : Text.words text = word :: rest) (hword : word ∉ ["RUN", "COMMENT", "FINISH"]) :
    ofText? text = none := by
  simp only [List.mem_cons, List.not_mem_nil, or_false, not_or] at hword
  obtain ⟨hrun, hcomment, hfinish⟩ := hword
  unfold ofText?
  rw [h]
  split
  · next heq => exact absurd (List.cons.inj heq).1 hrun
  · next heq => exact absurd (List.cons.inj heq).1 hcomment
  · next heq => exact absurd (List.cons.inj heq).1 hfinish
  · rfl

/-- No line of a log starts a message. -/
theorem JudgeLog.ofText?_of_mem_texts {log : JudgeLog} {text : String} (h : text ∈ log.texts) :
    MessageHead.ofText? text = none := by
  simp only [texts, List.mem_cons, List.mem_append, List.mem_map, List.not_mem_nil, or_false] at h
  rcases h with rfl | ⟨e, he, rfl⟩ | rfl
  · exact MessageHead.ofText?_of_words log.words_header (by decide)
  · exact MessageHead.ofText?_of_words (LogEntry.words_text (log.tokens e he)) (by decide)
  · rfl

namespace Message

/-- Lines that start no message are errors one by one. -/
theorem readAll_of_strays {texts : List String} (htexts : ∀ text ∈ texts, Text.Unbroken text)
    (hstray : ∀ text ∈ texts, MessageHead.ofText? text = none) (rest : List Text.Line) :
    readAll (texts.map Utf8.encode ++ rest)
      = texts.map (fun text => .error (.malformed text)) ++ readAll rest := by
  induction texts with
  | nil => rfl
  | cons text texts ih =>
      obtain ⟨htext, hlater⟩ := List.forall_mem_cons.1 htexts
      obtain ⟨hnone, hrest⟩ := List.forall_mem_cons.1 hstray
      have hnext : next? (Utf8.encode text :: (texts.map Utf8.encode ++ rest))
          = some (.error (.malformed text), texts.map Utf8.encode ++ rest) := by
        simp only [next?, Text.lineText?_encode htext, hnone]
      rw [List.map_cons, List.cons_append, readAll_of_next? hnext, ih hlater hrest]
      rfl

/-! ## Where a boundary falls -/

/-- The end of a line in what messages are written as: behind some of them and before the others, or
inside a report, behind the lines `gone` of it and before the lines `missed`. -/
inductive Boundary : List Message → List Message → List String → List String → List Message → Prop
  | between (sent unread : List Message) : Boundary (sent ++ unread) sent [] [] unread
  | inside (sent : List Message) {report : Report} {gone missed : List String}
      (unread : List Message) (htexts : (Message.finish report).texts = gone ++ missed)
      (hgone : gone ≠ []) (hmissed : missed ≠ []) :
      Boundary (sent ++ .finish report :: unread) sent gone missed unread

theorem Boundary.cons {ms sent unread : List Message} {gone missed : List String}
    (h : Boundary ms sent gone missed unread) (m : Message) :
    Boundary (m :: ms) (m :: sent) gone missed unread := by
  cases h with
  | between => exact .between (m :: sent) unread
  | inside _ _ htexts hgone hmissed => exact .inside (m :: sent) unread htexts hgone hmissed

/-- A message that is cut between two of its lines is a report. -/
theorem exists_report_of_texts {m : Message} {gone missed : List String}
    (h : m.texts = gone ++ missed) (hgone : gone ≠ []) (hmissed : missed ≠ []) :
    ∃ report, m = .finish report := by
  have hlength := congrArg List.length h
  have hfirst := List.length_pos_iff.2 hgone
  have hlast := List.length_pos_iff.2 hmissed
  rw [List.length_append] at hlength
  cases m with
  | run test =>
      have hone : (Message.run test).texts.length = 1 := rfl
      omega
  | comment audience text =>
      have hone : (Message.comment audience text).texts.length = 1 := rfl
      omega
  | finish report => exact ⟨report, rfl⟩

theorem exists_boundary {ms : List Message} {before after : List UInt8}
    (hcut : ms.flatMap encode = before ++ after) (h : Text.EndsLine before) :
    ∃ sent gone missed unread, Boundary ms sent gone missed unread ∧
      before = sent.flatMap encode ++ Text.unlines (gone.map Utf8.encode) ∧
      after = Text.unlines (missed.map Utf8.encode) ++ unread.flatMap encode := by
  induction ms generalizing before with
  | nil =>
      obtain ⟨rfl, rfl⟩ := List.append_eq_nil_iff.1 hcut.symm
      exact ⟨[], [], [], [], .between [] [], rfl, rfl⟩
  | cons m ms ih =>
      rw [List.flatMap_cons] at hcut
      rcases List.append_eq_append_iff.1 hcut with ⟨later, rfl, hlater⟩ | ⟨left, hm, rfl⟩
      · obtain ⟨sent, gone, missed, unread, hboundary, rfl, rfl⟩ := ih hlater h.of_append
        exact ⟨m :: sent, gone, missed, unread, hboundary.cons m,
          by rw [List.flatMap_cons, List.append_assoc], rfl⟩
      · -- the boundary is in this message or at one of its ends
        have hclean := Text.lineFeed_not_mem_of_unbroken m.unbroken_texts
        obtain ⟨_, _, hlines, rfl, rfl⟩ := h.exists_of_unlines hclean hm
        obtain ⟨gone, missed, htexts, rfl, rfl⟩ := List.map_eq_append_iff.1 hlines
        by_cases hgone : gone = []
        · subst hgone
          exact ⟨[], [], [], m :: ms, .between [] (m :: ms), rfl, by
            rw [List.flatMap_cons, encode, htexts]; rfl⟩
        · by_cases hmissed : missed = []
          · subst hmissed
            exact ⟨[m], [], [], ms, .between [m] ms, by
              rw [List.flatMap_singleton, encode, htexts, List.append_nil]; simp [Text.unlines], rfl⟩
          · obtain ⟨report, rfl⟩ := exists_report_of_texts htexts hgone hmissed
            exact ⟨[], gone, missed, ms, .inside [] ms htexts hgone hmissed, rfl, rfl⟩

/-! ## Reading on -/

/-- Wherever a line ends in what messages are written as, reading from there gives one error for each
line that is left of a report, with that line, and then all later messages; a comment has one space
for each of its line breaks. -/
theorem readAll_from_boundary {ms : List Message} {before after : List UInt8}
    (hcut : ms.flatMap encode = before ++ after) (h : Text.EndsLine before) :
    ∃ sent gone missed unread, Boundary ms sent gone missed unread ∧
      before = sent.flatMap encode ++ Text.unlines (gone.map Utf8.encode) ∧
      after = Text.unlines (missed.map Utf8.encode) ++ unread.flatMap encode ∧
      readAll (Text.lines after)
        = missed.map (fun text => .error (.malformed text)) ++ unread.map fun m => .ok m.onWire := by
  obtain ⟨sent, gone, missed, unread, hboundary, hbefore, hafter⟩ := exists_boundary hcut h
  refine ⟨sent, gone, missed, unread, hboundary, hbefore, hafter, ?_⟩
  have hmissed : ∀ text ∈ missed, Text.Unbroken text ∧ MessageHead.ofText? text = none := by
    intro text htext
    cases hboundary with
    | between => exact absurd htext List.not_mem_nil
    | @inside _ report _ _ _ htexts hgone _ =>
        -- the first line of the report is gone, so this is one of its log
        obtain ⟨first, gone, rfl⟩ := List.exists_cons_of_ne_nil hgone
        have hlog : report.log.texts = gone ++ missed := (List.cons.inj htexts).2
        have hmem : text ∈ report.log.texts := hlog ▸ List.mem_append_right _ htext
        exact ⟨unbroken_texts (.finish report) text (List.mem_cons_of_mem _ hmem),
          JudgeLog.ofText?_of_mem_texts hmem⟩
  have hunread := readAll_encode unread []
  rw [List.append_nil, Text.lines_nil, readAll_nil, List.append_nil] at hunread
  have hunbroken : ∀ text ∈ missed, Text.Unbroken text := fun text htext => (hmissed text htext).1
  have hstray := fun text htext => (hmissed text htext).2
  rw [hafter, Text.lines_unlines_append (Text.lineFeed_not_mem_of_unbroken hunbroken),
    readAll_of_strays hunbroken hstray, hunread]

/-- Behind the header of a log, in which a code looks like a request: the two lines that are left of
the report are errors, and the request after it is read. -/
theorem readAll_from_boundary_in_report :
    let log : JudgeLog :=
      { name := "m"
        entries := [⟨1, "RUN", .accepted, 5⟩]
        distinct := by decide
        tokens := by decide }
    let ms : List Message := [.comment .jury "a\nb", .finish ⟨5, true, log⟩, .run 2]
    let before := Utf8.encode "COMMENT PRIVATE a b\nFINISH 5 1\nJUDGE_LOG 6d 1\n"
    let after := Utf8.encode "ENTRY 1 RUN ACCEPTED 5\nEND\nRUN 2\n"
    ms.flatMap encode = before ++ after ∧ Text.EndsLine before ∧
      (∃ sent gone missed unread, Boundary ms sent gone missed unread ∧
        before = sent.flatMap encode ++ Text.unlines (gone.map Utf8.encode) ∧
        after = Text.unlines (missed.map Utf8.encode) ++ unread.flatMap encode ∧
        readAll (Text.lines after) = missed.map (fun text => .error (.malformed text))
          ++ unread.map fun m => .ok m.onWire) ∧
      readAll (Text.lines after)
        = [.error (.malformed "ENTRY 1 RUN ACCEPTED 5"), .error (.malformed "END"), .ok (.run 2)] := by
  intro log ms before after
  have hcut : ms.flatMap encode = before ++ after := by decide +kernel
  have hends : Text.EndsLine before := by decide +kernel
  have hentry : next? (Text.lines after) = some (.error (.malformed "ENTRY 1 RUN ACCEPTED 5"),
      [Utf8.encode "END", Utf8.encode "RUN 2"]) := by rfl
  have hend : next? [Utf8.encode "END", Utf8.encode "RUN 2"]
      = some (.error (.malformed "END"), [Utf8.encode "RUN 2"]) := by rfl
  have hrun : next? [Utf8.encode "RUN 2"] = some (.ok (.run 2), []) := by rfl
  refine ⟨hcut, hends, readAll_from_boundary hcut hends, ?_⟩
  rw [readAll_of_next? hentry, readAll_of_next? hend, readAll_of_next? hrun, readAll_nil]

end Message

end Valuer
