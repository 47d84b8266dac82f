set_option autoImplicit false

/-! # Blanks, controls and white space

Three classes of characters that the formats of this library tell apart, and the ways of cutting
text at them. *Blanks* are the five ASCII characters that separate the fields of a result line.
*Controls* are the ASCII control characters, which no logged status code may hold. *White space* is
the whole Unicode property: a line made of it alone is skipped, and numbers in variables are trimmed
of it. Every blank is white space (`isWhite_of_isBlank`).

A message line separates its words by single spaces, so that an empty word counts; `words` and
`unwords` are inverse to each other on words without spaces. -/

namespace Valuer.Text

/-- The five characters that separate fields: space, tab, line feed, form feed, carriage return. -/
def isBlank (c : Char) : Bool :=
  c == ' ' || c == '\t' || c == '\n' || c == '\x0c' || c == '\r'

/-- The ASCII control characters: those below the space, and DEL. -/
def isControl (c : Char) : Bool :=
  c.toNat < 32 || c.toNat == 127

/-- The Unicode property White_Space. -/
def isWhite (c : Char) : Bool :=
  let n := c.toNat
  (9 ≤ n && n ≤ 13) || n == 32 || n == 0x85 || n == 0xa0 || n == 0x1680
    || (0x2000 ≤ n && n ≤ 0x200a) || n == 0x2028 || n == 0x2029 || n == 0x202f || n == 0x205f
    || n == 0x3000

theorem isWhite_of_isBlank {c : Char} (h : isBlank c = true) : isWhite c = true := by
  simp only [isBlank, Bool.or_eq_true, beq_iff_eq] at h
  rcases h with (((h | h) | h) | h) | h <;> subst h <;> decide

/-! ## Trimming -/

/-- What is left after the last characters in the class `p` are taken off. -/
def trimEnd (p : Char → Bool) (cs : List Char) : List Char :=
  (cs.reverse.dropWhile p).reverse

/-- The text without the white space around it. -/
def trim (s : String) : String :=
  String.ofList (trimEnd isWhite (s.toList.dropWhile isWhite))

/-! ## Fields and words -/

/-- The fields of a line: its maximal runs of characters that are not blank. -/
def fields (s : String) : List String :=
  ((s.toList.splitOnP isBlank).filter fun f => !f.isEmpty).map String.ofList

/-- The words of a line: what stands between its spaces, empty words included. -/
def words (s : String) : List String :=
  (s.toList.splitOn ' ').map String.ofList

/-- A line of words with one space between them. -/
def unwords (ws : List String) : String :=
  String.ofList ([' '].intercalate (ws.map String.toList))

theorem toList_unwords (ws : List String) :
    (unwords ws).toList = [' '].intercalate (ws.map String.toList) := by
  simp [unwords]

/-- Words without spaces are read back. -/
theorem words_unwords {ws : List String} (hne : ws ≠ []) (h : ∀ w ∈ ws, ' ' ∉ w.toList) :
    words (unwords ws) = ws := by
  have hsplit : ([' '].intercalate (ws.map String.toList)).splitOn ' ' = ws.map String.toList := by
    refine List.splitOn_intercalate ' ' ?_ (by simpa using hne)
    intro l hl
    obtain ⟨w, hw, rfl⟩ := List.mem_map.1 hl
    exact h w hw
  rw [words, toList_unwords, hsplit, List.map_map]
  conv => rhs; rw [← List.map_id ws]
  exact List.map_congr_left fun w _ => String.ofList_toList

end Valuer.Text
