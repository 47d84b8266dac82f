import Valuer.Proofs.Boundaries
import Valuer.Wire.Message
import Valuer.Wire.Result

set_option autoImplicit false

/-! # Readers on bytes

A stream that is not cut into lines beforehand is read by a buffered reader: it takes bytes up to
the next line feed, or all that are left, and takes off the line breaks at their end. What `fetch`
takes off such a stream, a line, a result or a message, is what the readers on lines say, and it is
always made of whole lines (`Text.Takes`, `Text.Mirrors`). -/

namespace Valuer

namespace Text

theorem trimEnd_congr {p q : Char → Bool} {cs : List Char} (h : ∀ c ∈ cs, p c = q c) :
    trimEnd p cs = trimEnd q cs := by
  induction cs using List.reverseRecOn with
  | nil => rfl
  | append_singleton cs c ih =>
      have hc := h c (by simp)
      have hcs := ih fun d hd => h d (by simp [hd])
      simp only [trimEnd_eq_rdropWhile] at hcs ⊢
      by_cases hp : p c = true
      · rw [List.rdropWhile_concat_pos _ _ _ hp, List.rdropWhile_concat_pos _ _ _ (hc ▸ hp), hcs]
      · rw [List.rdropWhile_concat_neg _ _ _ hp, List.rdropWhile_concat_neg _ _ _ (hc ▸ hp)]

/-! ## Taking a line -/

/-- Lines that are taken off the front of a stream. Only the last line of the stream may lack its
line feed. -/
structure Takes (taken : List Line) (bytes rest : List UInt8) : Prop where
  lines_eq : lines bytes = taken ++ lines rest
  bytes_eq : bytes = unlines taken ++ rest ∨ rest = [] ∧ bytes ++ [lineFeed] = unlines taken

namespace Takes

variable {taken more : List Line} {bytes mid rest : List UInt8}

theorem refl (bytes : List UInt8) : Takes [] bytes bytes :=
  ⟨rfl, .inl rfl⟩

theorem trans (h : Takes taken bytes mid) (k : Takes more mid rest) :
    Takes (taken ++ more) bytes rest := by
  constructor
  · rw [h.lines_eq, k.lines_eq, List.append_assoc]
  · rcases h.bytes_eq with rfl | ⟨rfl, hlast⟩
    · rcases k.bytes_eq with rfl | ⟨rfl, hlast⟩
      · exact .inl (by rw [unlines_append, List.append_assoc])
      · exact .inr ⟨rfl, by rw [unlines_append, ← hlast, List.append_assoc]⟩
    · -- nothing was left to be taken
      have hnone := k.lines_eq
      rw [lines_nil] at hnone
      obtain ⟨rfl, -⟩ := List.append_eq_nil_iff.1 hnone.symm
      rcases k.bytes_eq with hrest | ⟨-, hrest⟩
      · obtain rfl : rest = [] := hrest.symm
        exact .inr ⟨rfl, by rw [List.append_nil, hlast]⟩
      · exact absurd hrest (by simp [unlines])

/-- What is left is the end of the stream. -/
theorem exists_append (h : Takes taken bytes rest) : ∃ part, bytes = part ++ rest := by
  rcases h.bytes_eq with hbytes | ⟨rfl, -⟩
  · exact ⟨_, hbytes⟩
  · exact ⟨bytes, (List.append_nil _).symm⟩

end Takes

theorem takeLine_of_not_mem {bytes : List UInt8} (h : lineFeed ∉ bytes) :
    takeLine bytes = (bytes, []) := by
  induction bytes with
  | nil => rfl
  | cons b bytes ih =>
      have hb : b ≠ lineFeed := fun heq => h (heq ▸ List.mem_cons_self ..)
      rw [takeLine, if_neg hb, ih fun hmem => h (List.mem_cons_of_mem _ hmem)]

theorem takeLine_append_cons {line : Line} (h : lineFeed ∉ line) (rest : List UInt8) :
    takeLine (line ++ lineFeed :: rest) = (line ++ [lineFeed], rest) := by
  induction line with
  | nil => rfl
  | cons b line ih =>
      have hb : b ≠ lineFeed := fun heq => h (heq ▸ List.mem_cons_self ..)
      rw [List.cons_append, takeLine, if_neg hb, ih fun hmem => h (List.mem_cons_of_mem _ hmem)]
      rfl

theorem unendedText?_eq {line : Line} (h : lineFeed ∉ line) :
    unendedText? line = lineText? line := by
  unfold unendedText? lineText?
  cases hs : Utf8.decode? line with
  | none => rfl
  | some s =>
      rw [Utf8.decode?_eq_some_iff.1 hs] at h
      rw [Option.map_some, Option.map_some, trimEnd_congr]
      intro c hc
      have hne : c ≠ '\n' := fun heq => h (Utf8.lineFeed_mem_encode (heq ▸ hc))
      rw [beq_eq_false_iff_ne.2 hne, Bool.false_or]

/-- The line feed is taken off together with the carriage returns before it. -/
theorem unendedText?_concat {line : Line} (h : lineFeed ∉ line) :
    unendedText? (line ++ [lineFeed]) = lineText? line := by
  rw [← unendedText?_eq h, unendedText?, unendedText?]
  have hline := Utf8.decode?_concat line (show '\n'.toNat < 128 by decide)
  rw [show UInt8.ofNat '\n'.toNat = lineFeed from rfl] at hline
  rw [hline, Option.map_map]
  refine congrArg (Option.map · _) (funext fun s => ?_)
  rw [Function.comp_apply, String.toList_push, trimEnd_append (by simp)]

/-- Everything that fetching does: at the end of a stream it gives nothing, and else it takes one
line and gives the text of that. -/
theorem fetch_cases (bytes : List UInt8) :
    (bytes = [] ∧ fetch bytes = (none, [])) ∨
      ∃ line rest, fetch bytes = (some (lineText? line), rest) ∧ Takes [line] bytes rest ∧
        rest.length < bytes.length := by
  by_cases hfeed : lineFeed ∈ bytes
  · obtain ⟨line, rest, rfl, hline⟩ := List.eq_append_cons_of_mem hfeed
    refine .inr ⟨line, rest, ?_, ⟨lines_append_cons hline rest, .inl (by simp [unlines])⟩, ?_⟩
    · rw [fetch, takeLine_append_cons hline]
      split
      · next heq => exact absurd (congrArg Prod.fst heq) (by simp)
      · next heq =>
          obtain ⟨rfl, rfl⟩ := Prod.mk.inj heq
          rw [unendedText?_concat hline]
    · rw [List.length_append, List.length_cons]
      omega
  · by_cases hnil : bytes = []
    · exact .inl ⟨hnil, by rw [hnil]; rfl⟩
    · refine .inr ⟨bytes, [], ?_, ⟨?_, .inr ⟨rfl, by simp [unlines]⟩⟩, List.length_pos_iff.2 hnil⟩
      · rw [fetch, takeLine_of_not_mem hfeed]
        split
        · next heq => exact absurd (congrArg Prod.fst heq) hnil
        · next heq =>
            obtain ⟨rfl, rfl⟩ := Prod.mk.inj heq
            rw [unendedText?_eq hfeed]
      · rw [lines_of_not_mem hfeed hnil, lines_nil, List.append_nil]

/-- A read of bytes that comes to the same as a read of their lines, and takes whole lines. -/
structure Mirrors {α : Type} (bytes : List UInt8) (onBytes : α × List UInt8)
    (onLines : α × List Line) : Prop where
  same : onLines = (onBytes.1, lines onBytes.2)
  takes : ∃ taken, Takes taken bytes onBytes.2

/-- What is read behind lines that were taken. -/
theorem Mirrors.after {α : Type} {bytes mid : List UInt8} {taken : List Line}
    {onBytes : α × List UInt8} {onLines : α × List Line} (h : Mirrors mid onBytes onLines)
    (htaken : Takes taken bytes mid) : Mirrors bytes onBytes onLines := by
  obtain ⟨hsame, more, hmore⟩ := h
  exact ⟨hsame, taken ++ more, htaken.trans hmore⟩

end Text

/-! ## Results -/

namespace TestResult

theorem fetch_of_end {bytes rest : List UInt8} (h : Text.fetch bytes = (none, rest)) :
    fetch bytes = (none, rest) := by
  rw [fetch]
  split
  · next heq => rw [(Prod.mk.inj (heq.symm.trans h)).2]
  · next heq => exact absurd (heq.symm.trans h) (by simp)
  · next heq => exact absurd (heq.symm.trans h) (by simp)

/-- What is taken is what the next line says, or what comes behind it if it says nothing. -/
theorem fetch_of_line {bytes rest : List UInt8} {line : Text.Line}
    (h : Text.fetch bytes = (some (Text.lineText? line), rest)) :
    fetch bytes = match ofLine? line with
      | none => fetch rest
      | some r => (some r, rest) := by
  rw [fetch, ofLine?]
  split
  · next heq => exact absurd (heq.symm.trans h) (by simp)
  · next left heq =>
      obtain ⟨hline, rfl⟩ := Prod.mk.inj (heq.symm.trans h)
      rw [← Option.some.inj hline]
  · next text left heq =>
      obtain ⟨hline, rfl⟩ := Prod.mk.inj (heq.symm.trans h)
      rw [← Option.some.inj hline]
      simp only
      split <;> rfl

/-- A call takes lines that say nothing, and then the one that it answers for; if there is none, the
stream is at its end. -/
theorem fetch_takes (bytes : List UInt8) :
    ∃ blanks answered, Text.Takes (blanks ++ answered) bytes (fetch bytes).2 ∧
      (∀ line ∈ blanks, ofLine? line = none) ∧
      answered.map ofLine? = (fetch bytes).1.toList.map some ∧
      ((fetch bytes).1 = none → (fetch bytes).2 = []) := by
  induction hlength : bytes.length using Nat.strongRecOn generalizing bytes with
  | ind n ih =>
      rcases Text.fetch_cases bytes with ⟨rfl, hend⟩ | ⟨line, rest, hfetch, htakes, hshorter⟩
      · rw [fetch_of_end hend]
        exact ⟨[], [], Text.Takes.refl [], List.forall_mem_nil _, rfl, fun _ => rfl⟩
      · rw [fetch_of_line hfetch]
        cases hline : ofLine? line with
        | some r =>
            exact ⟨[], [line], htakes, List.forall_mem_nil _, by simp [hline], by simp⟩
        | none =>
            obtain ⟨blanks, answered, hmore, hblanks, hanswered, hended⟩ :=
              ih rest.length (hlength ▸ hshorter) rest rfl
            exact ⟨line :: blanks, answered, htakes.trans hmore,
              List.forall_mem_cons.2 ⟨hline, hblanks⟩, hanswered, hended⟩

end TestResult

/-! ## Messages -/

theorem mirrors_fetchText (awaited : Awaited) (bytes : List UInt8) :
    Text.Mirrors bytes (fetchText awaited bytes) (nextText awaited (Text.lines bytes)) := by
  rcases Text.fetch_cases bytes with ⟨rfl, hnone⟩ | ⟨line, rest, hfetch, htakes, -⟩
  · rw [fetchText, hnone, Text.lines_nil]
    exact ⟨by rw [nextText, Text.lines_nil], [], Text.Takes.refl []⟩
  · rw [fetchText, hfetch, htakes.lines_eq, List.singleton_append, nextText]
    cases Text.lineText? line <;> exact ⟨rfl, [line], htakes⟩

namespace JudgeLog

theorem mirrors_fetchEntries (log : JudgeLog) (count : Nat) (bytes : List UInt8) :
    Text.Mirrors bytes (fetchEntries log count bytes)
      (readEntries log count (Text.lines bytes)) := by
  induction count generalizing log bytes with
  | zero => exact ⟨rfl, [], Text.Takes.refl bytes⟩
  | succ count ih =>
      obtain ⟨hsame, taken, htakes⟩ := mirrors_fetchText .logEntry bytes
      rw [fetchEntries, readEntries, hsame]
      generalize fetchText .logEntry bytes = fetched at htakes ⊢
      obtain ⟨outcome, rest⟩ := fetched
      cases outcome with
      | error e => exact ⟨rfl, taken, htakes⟩
      | ok text =>
          simp only
          cases log.pushText text with
          | error e => exact ⟨rfl, taken, htakes⟩
          | ok next => exact (ih next rest).after htakes

theorem mirrors_fetchEnd (log : JudgeLog) (bytes : List UInt8) :
    Text.Mirrors bytes (fetchEnd log bytes) (readEnd log (Text.lines bytes)) := by
  obtain ⟨hsame, taken, htakes⟩ := mirrors_fetchText .logEnd bytes
  rw [fetchEnd, readEnd, hsame]
  generalize fetchText .logEnd bytes = fetched at htakes ⊢
  obtain ⟨outcome, rest⟩ := fetched
  cases outcome <;> exact ⟨rfl, taken, htakes⟩

theorem mirrors_fetch (bytes : List UInt8) :
    Text.Mirrors bytes (fetch bytes) (read (Text.lines bytes)) := by
  obtain ⟨hsame, taken, htakes⟩ := mirrors_fetchText .logHeader bytes
  rw [fetch, read, hsame]
  generalize fetchText .logHeader bytes = fetched at htakes ⊢
  obtain ⟨outcome, rest⟩ := fetched
  cases outcome with
  | error e => exact ⟨rfl, taken, htakes⟩
  | ok text =>
      simp only
      cases ofHeader? text with
      | none => exact ⟨rfl, taken, htakes⟩
      | some announced =>
          obtain ⟨name, count⟩ := announced
          obtain ⟨hentries, more, hmore⟩ := mirrors_fetchEntries (empty name) count rest
          simp only [hentries]
          generalize fetchEntries (empty name) count rest = fetched at hmore ⊢
          obtain ⟨outcome, left⟩ := fetched
          cases outcome with
          | error e => exact ⟨rfl, taken ++ more, htakes.trans hmore⟩
          | ok log => exact (log.mirrors_fetchEnd left).after (htakes.trans hmore)

end JudgeLog

namespace Message

theorem mirrors_fetchRest (head : MessageHead) (bytes : List UInt8) :
    Text.Mirrors bytes (fetchRest head bytes) (ofHead head (Text.lines bytes)) := by
  cases head with
  | run test => exact ⟨rfl, [], Text.Takes.refl bytes⟩
  | comment audience text => exact ⟨rfl, [], Text.Takes.refl bytes⟩
  | finish score full =>
      obtain ⟨hsame, taken, htakes⟩ := JudgeLog.mirrors_fetch bytes
      rw [fetchRest, ofHead, hsame]
      generalize JudgeLog.fetch bytes = fetched at htakes ⊢
      obtain ⟨outcome, rest⟩ := fetched
      cases outcome <;> exact ⟨rfl, taken, htakes⟩

/-- A call says what the first message of the lines is, and leaves the lines after it. -/
theorem next?_lines (bytes : List UInt8) :
    next? (Text.lines bytes)
        = (fetch bytes).1.map (fun item => (item, Text.lines (fetch bytes).2)) ∧
      ∃ taken, Text.Takes taken bytes (fetch bytes).2 := by
  rcases Text.fetch_cases bytes with ⟨rfl, hend⟩ | ⟨line, rest, hfetch, htakes, -⟩
  · rw [fetch, hend, Text.lines_nil]
    exact ⟨rfl, [], Text.Takes.refl []⟩
  · rw [fetch, hfetch, htakes.lines_eq, List.singleton_append, next?]
    cases Text.lineText? line with
    | none => exact ⟨rfl, [line], htakes⟩
    | some text =>
        simp only
        cases MessageHead.ofText? text with
        | none => exact ⟨rfl, [line], htakes⟩
        | some head =>
            obtain ⟨hsame, more, hmore⟩ := mirrors_fetchRest head rest
            exact ⟨congrArg some hsame, _, htakes.trans hmore⟩

end Message

end Valuer
