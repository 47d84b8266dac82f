import Valuer.Proofs.LineText

set_option autoImplicit false

/-! # Where lines end

A stream can be taken apart wherever a line ends: at its start, and right behind each line feed
(`Text.EndsLine`). What stands before such a place are whole lines, and what follows it is read as a
stream of its own (`Text.EndsLine.lines_append`). The end of a last line that lacks its line feed is
no such place, since more bytes would still be a part of that line. -/

namespace Valuer.Text

/-- The beginning of a stream that ends where a line ends. -/
def EndsLine (before : List UInt8) : Prop :=
  before = [] ∨ before.getLast? = some lineFeed

instance (before : List UInt8) : Decidable (EndsLine before) :=
  inferInstanceAs (Decidable (_ ∨ _))

theorem unlines_append (ls ks : List Line) : unlines (ls ++ ks) = unlines ls ++ unlines ks :=
  List.flatMap_append

theorem lines_unlines {ls : List Line} (h : ∀ l ∈ ls, lineFeed ∉ l) : lines (unlines ls) = ls := by
  have hlines := lines_unlines_append h []
  rwa [List.append_nil, lines_nil, List.append_nil] at hlines

/-- Any bytes are some whole lines and a line that is not ended. -/
theorem exists_unlines_append (bytes : List UInt8) :
    ∃ ls part, bytes = unlines ls ++ part ∧ (∀ l ∈ ls, lineFeed ∉ l) ∧ lineFeed ∉ part := by
  induction bytes with
  | nil => exact ⟨[], [], rfl, List.forall_mem_nil _, List.not_mem_nil⟩
  | cons b bytes ih =>
      obtain ⟨ls, part, rfl, hls, hpart⟩ := ih
      by_cases hfeed : b = lineFeed
      · exact ⟨[] :: ls, part, by rw [hfeed]; rfl,
          List.forall_mem_cons.2 ⟨List.not_mem_nil, hls⟩, hpart⟩
      · -- the byte belongs to the first line
        have hclean : ∀ {l : Line}, lineFeed ∉ l → lineFeed ∉ b :: l := by
          intro l hl hmem
          rcases List.mem_cons.1 hmem with heq | hlater
          · exact hfeed heq.symm
          · exact hl hlater
        cases ls with
        | nil => exact ⟨[], b :: part, rfl, hls, hclean hpart⟩
        | cons l ls =>
            obtain ⟨hl, hrest⟩ := List.forall_mem_cons.1 hls
            exact ⟨(b :: l) :: ls, part, rfl, List.forall_mem_cons.2 ⟨hclean hl, hrest⟩, hpart⟩

namespace EndsLine

variable {before after : List UInt8}

/-- What ends where a line ends are whole lines. -/
theorem exists_unlines (h : EndsLine before) :
    ∃ ls, before = unlines ls ∧ ∀ l ∈ ls, lineFeed ∉ l := by
  obtain ⟨ls, part, rfl, hls, hpart⟩ := exists_unlines_append before
  by_cases hnil : part = []
  · exact ⟨ls, by rw [hnil, List.append_nil], hls⟩
  · exfalso
    rcases h with hempty | hlast
    · exact hnil (List.append_eq_nil_iff.1 hempty).2
    · rw [List.getLast?_append_of_ne_nil _ hnil] at hlast
      exact hpart (List.mem_of_getLast? hlast)

/-- What follows the end of a line is read as a stream of its own. -/
theorem lines_append (h : EndsLine before) (after : List UInt8) :
    lines (before ++ after) = lines before ++ lines after := by
  obtain ⟨ls, rfl, hls⟩ := h.exists_unlines
  rw [lines_unlines_append hls, lines_unlines hls]

/-- The end of a line behind some whole lines is the end of one of the lines that follow. -/
theorem of_append (h : EndsLine (before ++ after)) : EndsLine after := by
  by_cases hnil : after = []
  · exact .inl hnil
  · rcases h with hempty | hlast
    · exact absurd (List.append_eq_nil_iff.1 hempty).2 hnil
    · rw [List.getLast?_append_of_ne_nil _ hnil] at hlast
      exact .inr hlast

/-- Whole lines that are taken apart where a line ends are whole lines before and after. -/
theorem exists_of_unlines {ls : List Line} (hls : ∀ l ∈ ls, lineFeed ∉ l)
    (hcut : unlines ls = before ++ after) (h : EndsLine before) :
    ∃ gone left, ls = gone ++ left ∧ before = unlines gone ∧ after = unlines left := by
  obtain ⟨gone, rfl, hgone⟩ := h.exists_unlines
  have hsplit : ls = gone ++ lines after := by
    rw [← lines_unlines hls, hcut, lines_unlines_append hgone]
  refine ⟨gone, lines after, hsplit, rfl, ?_⟩
  rw [hsplit, unlines_append] at hcut
  exact (List.append_cancel_left hcut).symm

end EndsLine

end Valuer.Text
