import Valuer.Text.Blank
import Valuer.Text.Utf8

set_option autoImplicit false

/-! # Lines of a byte stream

A stream is read line by line. A line ends at a line feed; the last one need not be terminated, and
a stream that ends just after a line feed has no further line. `lines` cuts a whole stream at once,
without the line feeds; its three equations (`lines_nil`, `lines_of_not_mem`, `lines_append_cons`)
determine it. The text of a line leaves out every carriage return at its end, however many. `fetch`
takes one line at a time off a stream that is not cut beforehand. -/

namespace Valuer.Text

/-- The bytes of a line, without the line feed that ends it. -/
abbrev Line := List UInt8

/-- The byte that ends a line. -/
def lineFeed : UInt8 := 10

/-- The lines of a stream, in order, without their line feeds. -/
def lines (bytes : List UInt8) : List Line :=
  let pieces := bytes.splitOn lineFeed
  if pieces.getLast? = some [] then pieces.dropLast else pieces

/-- The bytes of lines that are all terminated. -/
def unlines (ls : List Line) : List UInt8 :=
  ls.flatMap (· ++ [lineFeed])

/-- The text of a line, if it is UTF-8. -/
def lineText? (line : Line) : Option String :=
  (Utf8.decode? line).map fun s => String.ofList (trimEnd (· == '\r') s.toList)

/-! ## Equations -/

theorem lines_nil : lines [] = [] := by
  simp [lines]

theorem lines_of_not_mem {line : Line} (h : lineFeed ∉ line) (hne : line ≠ []) :
    lines line = [line] := by
  have hs : line.splitOn lineFeed = [line] :=
    List.splitOn_eq_singleton_of_beq_eq_false fun x hx =>
      beq_eq_false_iff_ne.2 fun hxe => h (hxe ▸ hx)
  simp [lines, hs, hne]

theorem lines_append_cons {line : Line} (h : lineFeed ∉ line) (rest : List UInt8) :
    lines (line ++ lineFeed :: rest) = line :: lines rest := by
  have hne : rest.splitOn lineFeed ≠ [] := List.splitOn_ne_nil _ _
  unfold lines
  rw [List.splitOn_append_cons_self_of_not_mem h]
  simp only [List.getLast?_cons_of_ne_nil hne, List.dropLast_cons_of_ne_nil hne]
  split <;> rfl

/-- Lines that are all terminated are read back, whatever follows them. -/
theorem lines_unlines_append {ls : List Line} (h : ∀ l ∈ ls, lineFeed ∉ l)
    (rest : List UInt8) : lines (unlines ls ++ rest) = ls ++ lines rest := by
  induction ls with
  | nil => rfl
  | cons l ls ih =>
      have hl : lineFeed ∉ l := h l (List.mem_cons_self ..)
      have hls := ih fun k hk => h k (List.mem_cons_of_mem _ hk)
      have hcut : unlines (l :: ls) ++ rest = l ++ lineFeed :: (unlines ls ++ rest) := by
        simp [unlines]
      rw [hcut, lines_append_cons hl, hls, List.cons_append]

/-! ## One line at a time -/

/-- Takes bytes up to the next line feed and that too, or all bytes if there is none. -/
def takeLine : List UInt8 → List UInt8 × List UInt8
  | [] => ([], [])
  | b :: bytes =>
      if b = lineFeed then ([b], bytes)
      else (b :: (takeLine bytes).1, (takeLine bytes).2)

/-- The text of bytes without the line breaks at their end, if it is UTF-8. -/
def unendedText? (bytes : List UInt8) : Option String :=
  (Utf8.decode? bytes).map fun s =>
    String.ofList (trimEnd (fun c => c == '\n' || c == '\r') s.toList)

/-- Takes the text of the next line, if it is one. At the end of the stream nothing is taken. -/
def fetch (bytes : List UInt8) : Option (Option String) × List UInt8 :=
  match takeLine bytes with
  | ([], rest) => (none, rest)
  | (line, rest) => (some (unendedText? line), rest)

/-- Nothing is lost and nothing is added. -/
theorem takeLine_append (bytes : List UInt8) :
    (takeLine bytes).1 ++ (takeLine bytes).2 = bytes := by
  induction bytes with
  | nil => rfl
  | cons b bytes ih =>
      rw [takeLine]
      split
      · rfl
      · rw [List.cons_append, ih]

/-- A text is taken together with the bytes that spell it. -/
theorem length_lt_of_fetch {bytes rest : List UInt8} {text : Option String}
    (h : fetch bytes = (some text, rest)) : rest.length < bytes.length := by
  unfold fetch at h
  split at h
  · exact absurd h (by simp)
  · next line left hne heq =>
      obtain ⟨-, rfl⟩ := Prod.mk.inj h
      have hbytes := takeLine_append bytes
      rw [heq] at hbytes
      rw [← hbytes, List.length_append]
      exact Nat.lt_add_of_pos_left (List.length_pos_iff.2 hne)

end Valuer.Text
