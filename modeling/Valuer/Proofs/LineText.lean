import Mathlib.Data.List.DropRight
import Valuer.Proofs.ByteClasses
import Valuer.Text.Line
import Valuer.Text.Numeral

set_option autoImplicit false

/-! # Texts on a line

A text without line breaks fills one line of a stream and is read from it unchanged, its spaces and
the characters beyond ASCII included. The words of a line can be cut off one by one, and what is
left is kept as it stands. -/

namespace Valuer

/-! ## Line feeds among bytes -/

/-- No character but the line feed has the byte of one. -/
theorem Utf8.eq_lineFeed_of_mem_encodeChar {c : Char}
    (h : Text.lineFeed ∈ String.utf8EncodeChar c) : c = '\n' := by
  have hline : Text.lineFeed.toNat = 10 := rfl
  rcases Nat.lt_or_ge c.toNat 128 with hascii | hbeyond
  · rw [Utf8.encodeChar_of_ascii hascii, List.mem_singleton] at h
    refine Char.toNat_inj.1 ?_
    rw [h, UInt8.toNat_ofNat', Nat.mod_eq_of_lt (by omega)] at hline
    exact hline
  · have hbyte := Utf8.le_of_mem_encodeChar hbeyond h
    omega

theorem Utf8.lineFeed_not_mem_encode {s : String} (h : '\n' ∉ s.toList) :
    Text.lineFeed ∉ Utf8.encode s := by
  intro hmem
  rw [← String.ofList_toList (s := s), Utf8.encode_ofList] at hmem
  obtain ⟨c, hc, hb⟩ := List.mem_flatMap.1 hmem
  rw [Utf8.eq_lineFeed_of_mem_encodeChar hb] at hc
  exact h hc

theorem Utf8.lineFeed_mem_encode {s : String} (h : '\n' ∈ s.toList) :
    Text.lineFeed ∈ Utf8.encode s := by
  have hbyte : Text.lineFeed ∈ String.utf8EncodeChar '\n' := by decide
  rw [← String.ofList_toList (s := s), Utf8.encode_ofList]
  exact List.mem_flatMap.2 ⟨'\n', h, hbyte⟩

/-! ## ASCII at the end of a text -/

/-- Bytes are a text if they are one with a character of ASCII behind them. -/
theorem Utf8.exists_of_encode_eq_concat {t : String} {bs : List UInt8} {c : Char}
    (hc : c.toNat < 128) (h : encode t = bs ++ [UInt8.ofNat c.toNat]) : ∃ s, bs = encode s := by
  rw [← String.ofList_toList (s := t), encode_ofList] at h
  rcases List.eq_nil_or_concat t.toList with hnil | ⟨cs, d, hcs⟩
  · rw [hnil] at h
    exact absurd h (by simp)
  · rw [hcs, List.concat_eq_append, List.flatMap_append, List.flatMap_singleton] at h
    -- the last character of the text has a byte of ASCII, so it is that byte
    have hlast : UInt8.ofNat c.toNat ∈ String.utf8EncodeChar d := by
      have hmem := congrArg List.getLast? h
      rw [List.getLast?_append_of_ne_nil _ (encodeChar_ne_nil d),
        List.getLast?_append_of_ne_nil _ (List.cons_ne_nil _ _)] at hmem
      exact List.mem_of_getLast? hmem
    have hd : d.toNat < 128 := by
      by_contra hbeyond
      have hle := le_of_mem_encodeChar (Nat.le_of_not_lt hbeyond) hlast
      rw [UInt8.toNat_ofNat', Nat.mod_eq_of_lt (by omega)] at hle
      omega
    rw [encodeChar_of_ascii hd] at h
    refine ⟨String.ofList cs, ?_⟩
    rw [encode_ofList]
    exact (List.append_inj' h rfl).1.symm

/-- A text is still one, or still none, with a character of ASCII behind it. -/
theorem Utf8.decode?_concat (bs : List UInt8) {c : Char} (hc : c.toNat < 128) :
    decode? (bs ++ [UInt8.ofNat c.toNat]) = (decode? bs).map (·.push c) := by
  cases hs : decode? bs with
  | some s =>
      obtain rfl := decode?_eq_some_iff.1 hs
      refine decode?_eq_some_iff.2 ?_
      show _ = encode (s.push c)
      rw [String.push_eq_append, encode_append, String.singleton_eq_ofList, encode_ofList,
        List.flatMap_singleton, encodeChar_of_ascii hc]
  | none =>
      rw [Option.map_none]
      by_contra hsome
      obtain ⟨t, ht⟩ := Option.ne_none_iff_exists'.1 hsome
      obtain ⟨s, rfl⟩ := exists_of_encode_eq_concat hc (decode?_eq_some_iff.1 ht).symm
      rw [decode?_encode] at hs
      exact absurd hs (by simp)

namespace Text

/-! ## Between separators -/

/-- What stands between separators holds none. -/
theorem clean_of_mem_splitOnP {α : Type} {p : α → Bool} {cs piece : List α}
    (h : piece ∈ cs.splitOnP p) : ∀ c ∈ piece, p c = false := by
  induction cs generalizing piece with
  | nil =>
      rw [List.splitOnP_nil, List.mem_singleton] at h
      exact h ▸ List.forall_mem_nil _
  | cons d rest ih =>
      rw [List.splitOnP_cons_eq_if_modifyHead] at h
      split at h
      · rcases List.mem_cons.1 h with rfl | hlater
        · exact List.forall_mem_nil _
        · exact ih hlater
      · next hd =>
          -- what separates nothing goes in front of the first piece of the rest
          cases hpieces : rest.splitOnP p with
          | nil => exact absurd hpieces (List.splitOnP_ne_nil p rest)
          | cons first pieces =>
              rw [hpieces, List.modifyHead_cons] at h
              rcases List.mem_cons.1 h with rfl | hlater
              · have hfirst := ih (hpieces ▸ List.mem_cons_self)
                exact List.forall_mem_cons.2 ⟨Bool.eq_false_iff.2 hd, hfirst⟩
              · exact ih (hpieces ▸ List.mem_cons_of_mem _ hlater)

/-- A line holds no line feed. -/
theorem lineFeed_not_mem_of_mem_lines {bytes : List UInt8} {line : Line} (h : line ∈ lines bytes) :
    lineFeed ∉ line := by
  have hpiece : line ∈ bytes.splitOnP (· == lineFeed) := by
    simp only [lines] at h
    split at h
    · exact List.dropLast_subset _ h
    · exact h
  intro hmem
  exact absurd (clean_of_mem_splitOnP hpiece _ hmem) (by simp)

/-! ## Unbroken texts -/

/-- A text without line breaks of either kind. -/
def Unbroken (s : String) : Prop :=
  '\n' ∉ s.toList ∧ '\r' ∉ s.toList

/-- The lines of unbroken texts hold no line feed. -/
theorem lineFeed_not_mem_of_unbroken {texts : List String} (h : ∀ text ∈ texts, Unbroken text) :
    ∀ line ∈ texts.map Utf8.encode, lineFeed ∉ line := by
  intro line hline
  obtain ⟨text, htext, rfl⟩ := List.mem_map.1 hline
  exact Utf8.lineFeed_not_mem_encode (h text htext).1

theorem trimEnd_eq_rdropWhile (p : Char → Bool) (cs : List Char) :
    trimEnd p cs = cs.rdropWhile p :=
  rfl

theorem trimEnd_append {p : Char → Bool} {cs tail : List Char} (htail : ∀ c ∈ tail, p c = true) :
    trimEnd p (cs ++ tail) = trimEnd p cs := by
  unfold trimEnd
  rw [List.reverse_append, List.dropWhile_append_of_pos (by simpa using htail)]

theorem trimEnd_of_not_mem {c : Char} {cs : List Char} (h : c ∉ cs) :
    trimEnd (· == c) cs = cs := by
  have hkeep : cs.reverse.dropWhile (· == c) = cs.reverse := by
    cases hrev : cs.reverse with
    | nil => rfl
    | cons d ds =>
        have hd : d ∈ cs := List.mem_reverse.1 (hrev ▸ List.mem_cons_self ..)
        have hne : (d == c) = false := beq_eq_false_iff_ne.2 fun hdc => h (hdc ▸ hd)
        rw [List.dropWhile_cons_of_neg (by simp [hne])]
  rw [trimEnd, hkeep, List.reverse_reverse]

/-- An unbroken text is read from its bytes as it was written. -/
theorem lineText?_encode {s : String} (h : Unbroken s) : lineText? (Utf8.encode s) = some s := by
  rw [lineText?, Utf8.decode?_encode, Option.map_some, trimEnd_of_not_mem h.2, String.ofList_toList]

/-- The text of a line holds no line feed. -/
theorem lineFeed_not_mem_of_lineText? {line : Line} {text : String} (hline : lineFeed ∉ line)
    (h : lineText? line = some text) : '\n' ∉ text.toList := by
  obtain ⟨s, hs, rfl⟩ := Option.map_eq_some_iff.1 h
  rw [Utf8.decode?_eq_some_iff.1 hs] at hline
  intro hmem
  rw [String.toList_ofList, trimEnd_eq_rdropWhile] at hmem
  exact hline (Utf8.lineFeed_mem_encode ((List.rdropWhile_prefix _ _).subset hmem))

theorem mem_unwords {ws : List String} {c : Char} (h : c ∈ (unwords ws).toList) :
    c = ' ' ∨ ∃ w ∈ ws, c ∈ w.toList := by
  rw [toList_unwords] at h
  induction ws with
  | nil => simp at h
  | cons w rest ih =>
      cases rest with
      | nil =>
          rw [List.map_cons, List.map_nil, List.intercalate_singleton] at h
          exact .inr ⟨w, List.mem_cons_self .., h⟩
      | cons v rest =>
          rw [List.map_cons, List.map_cons, List.intercalate_cons_cons] at h
          rcases List.mem_append.1 h with h | h
          · rcases List.mem_append.1 h with h | h
            · exact .inr ⟨w, List.mem_cons_self .., h⟩
            · exact .inl (List.mem_singleton.1 h)
          · rcases ih h with h | ⟨u, hu, h⟩
            · exact .inl h
            · exact .inr ⟨u, List.mem_cons_of_mem _ hu, h⟩

/-- Unbroken words make an unbroken line. -/
theorem unbroken_unwords {ws : List String} (h : ∀ w ∈ ws, Unbroken w) : Unbroken (unwords ws) := by
  constructor <;> intro hmem <;> rcases mem_unwords hmem with hc | ⟨w, hw, hc⟩
  · exact absurd hc (by decide)
  · exact (h w hw).1 hc
  · exact absurd hc (by decide)
  · exact (h w hw).2 hc

/-- A character that is no digit does not stand in a number. -/
theorem not_mem_decimal {c : Char} (hc : c.isDigit = false) (n : Nat) :
    c ∉ (decimal n).toList := by
  intro h
  rw [isDigit_of_mem_decimal h] at hc
  exact Bool.noConfusion hc

theorem unbroken_decimal (n : Nat) : Unbroken (decimal n) :=
  ⟨not_mem_decimal (by decide) n, not_mem_decimal (by decide) n⟩

/-! ## Words one by one -/

/-- The words of a line make up the line. -/
theorem unwords_words (s : String) : unwords (words s) = s := by
  rw [unwords, words, List.map_map]
  have hid : (String.toList ∘ String.ofList) = id := by
    funext cs
    exact String.toList_ofList
  rw [hid, List.map_id, List.intercalate_splitOn, String.ofList_toList]

theorem toList_unwords_cons (w : String) {rest : List String} (hne : rest ≠ []) :
    (unwords (w :: rest)).toList = w.toList ++ ' ' :: (unwords rest).toList := by
  rw [toList_unwords, List.map_cons, List.intercalate_cons_of_ne_nil (by simpa using hne),
    toList_unwords, List.append_assoc]
  rfl

/-- The first word is cut off; the words after it are those of the rest. -/
theorem words_unwords_cons {w : String} (hw : ' ' ∉ w.toList) {rest : List String}
    (hne : rest ≠ []) : words (unwords (w :: rest)) = w :: words (unwords rest) := by
  rw [words, toList_unwords_cons w hne, List.splitOn_append_cons_self_of_not_mem hw, List.map_cons,
    String.ofList_toList]
  rfl

theorem unwords_singleton (w : String) : unwords [w] = w := by
  rw [unwords, List.map_cons, List.map_nil, List.intercalate_singleton, String.ofList_toList]

end Text

end Valuer
