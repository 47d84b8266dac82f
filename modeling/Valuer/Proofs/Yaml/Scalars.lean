import Mathlib.Data.List.Basic
import Valuer.Yaml.Scalar
import Valuer.Yaml.Style

set_option autoImplicit false

/-! # Scalars that were written

A text is written plain or in double quotes, and read back from either. A plain one has inside it
neither breaks nor tabs nor any mark, and ends with its line or before the colon of a key
(`readPlain_lineBreak`, `readPlain_colon`); a quoted one may hold everything, because each character
that could end it or change it stands behind a backslash (`readQuoted_escaped`). In both the spaces
inside count when another character follows, and one does. -/

namespace Valuer.Yaml

/-! ## Positions on a line -/

/-- The position so many characters further on the same line. -/
def Position.ahead (p : Position) (n : Nat) : Position :=
  ⟨p.index + n, p.line, p.column + n⟩

namespace Position

variable (p : Position)

@[simp] theorem ahead_column (n : Nat) : (p.ahead n).column = p.column + n := rfl

theorem ahead_ahead (m n : Nat) : (p.ahead m).ahead n = p.ahead (m + n) := by
  simp only [ahead, Nat.add_assoc]

theorem next_of_ne {c : Char} (h : c ≠ '\n') : p.next c = p.ahead 1 := by
  rw [next, if_neg (by simpa using h)]
  rfl

end Position

/-! ## Gaps on a line -/

namespace Gap

variable {gap : Gap} (acc : List Char)

@[simp] theorem none_before : none.before acc = acc := rfl

/-- A blank after a gap on the same line is one more character of the text. -/
theorem blank_before (h : gap.hasBreak = false) (c : Char) :
    (gap.blank c).before acc = c :: gap.before acc := by
  cases gap with
  | none => rfl
  | blanks cs => simp [before, blank, text]
  | folded more => exact absurd h (by simp [hasBreak])
  | joined more => exact absurd h (by simp [hasBreak])

theorem hasBreak_blank (h : gap.hasBreak = false) (c : Char) :
    (gap.blank c).hasBreak = false := by
  cases gap with
  | none => rfl
  | blanks cs => rfl
  | folded more => exact h
  | joined more => exact h

end Gap

/-! ## Plain scalars -/

/-- A character that a plain scalar outside of flow collections goes on with, whatever follows. -/
def isPlainChar (c : Char) : Bool :=
  !isBreak c && c != '\t' && c != ':' && c != '#'

theorem isBlank_iff {c : Char} (h : c ≠ '\t') : isBlank c = true ↔ c = ' ' := by
  simp [isBlank, h]

variable {acc rest : List Char} {gap : Gap} {p : Position} {i : Int}

/-- The next character that is no space takes in the gap before it. -/
theorem readPlain_cons {c : Char} (hc : isPlainChar c = true) (hspace : c ≠ ' ')
    (hgap : gap = .none ∨ (0 < p.column ∧ i ≤ p.column)) :
    readPlain ⟨false, i⟩ acc gap p (c :: rest)
      = readPlain ⟨false, i⟩ (c :: gap.before acc) .none (p.ahead 1) rest := by
  simp only [isPlainChar, Bool.and_eq_true, Bool.not_eq_true', bne_iff_ne, ne_eq] at hc
  obtain ⟨⟨⟨hbreak, htab⟩, hcolon⟩, hcomment⟩ := hc
  have hblank : isBlank c = false := Bool.eq_false_iff.2 fun h => hspace ((isBlank_iff htab).1 h)
  have hword : stopsWord ⟨false, i⟩ c rest = false := by simp [stopsWord, hcolon]
  have hstop : (gap != .none && stopsAfterGap ⟨false, i⟩ p (c :: rest)) = false := by
    rcases hgap with rfl | ⟨hcolumn, hindent⟩
    · rfl
    · have hnot : ¬ (p.column : Int) < i := by omega
      have hzero : p.column ≠ 0 := by omega
      simp [stopsAfterGap, hnot, hzero, hcomment]
  have hne : c ≠ '\n' := by
    rintro rfl
    exact absurd hbreak (by decide)
  rw [readPlain, hblank, hbreak, hstop, hword, Position.next_of_ne p hne]
  rfl

/-- Characters that do not stop a plain scalar are read one after another. -/
theorem readPlain_append {cs : List Char} (acc rest : List Char) (gap : Gap)
    (hcs : ∀ c ∈ cs, isPlainChar c = true) (hbreak : gap.hasBreak = false)
    (hindent : i ≤ p.column + 1) (hgap : gap = .none ∨ (0 < p.column ∧ i ≤ p.column)) :
    ∃ acc' gap', readPlain ⟨false, i⟩ acc gap p (cs ++ rest)
        = readPlain ⟨false, i⟩ acc' gap' (p.ahead cs.length) rest ∧
      gap'.before acc' = cs.reverse ++ gap.before acc ∧
      (gap' = .none ∨
        (0 < (p.ahead cs.length).column ∧ i ≤ (p.ahead cs.length).column)) := by
  induction cs generalizing acc gap p with
  | nil => exact ⟨acc, gap, rfl, rfl, hgap⟩
  | cons c cs ih =>
      obtain ⟨hc, hcs⟩ := List.forall_mem_cons.1 hcs
      -- one character further the scalar can go on after a gap
      have hlater : 0 < (p.ahead 1).column ∧ i ≤ (p.ahead 1).column := by
        rw [Position.ahead_column]
        omega
      have hahead : (p.ahead 1).ahead cs.length = p.ahead (c :: cs).length := by
        rw [Position.ahead_ahead, List.length_cons, Nat.add_comm]
      have hnext : i ≤ (p.ahead 1).column + 1 := by omega
      by_cases hspace : c = ' '
      · obtain ⟨acc', gap', hread, htext, hend⟩ :=
          ih acc (gap.blank c) hcs (Gap.hasBreak_blank hbreak c) hnext (.inr hlater)
        rw [hahead] at hread hend
        refine ⟨acc', gap', ?_, ?_, hend⟩
        · have hblank : isBlank c = true := by simp [hspace, isBlank]
          have hne : c ≠ '\n' := by simp [hspace]
          rw [List.cons_append, readPlain, hblank, hbreak, Position.next_of_ne p hne, ← hread]
          rfl
        · rw [htext, Gap.blank_before acc hbreak, List.reverse_cons, List.append_assoc]
          rfl
      · obtain ⟨acc', gap', hread, htext, hend⟩ :=
          ih (c :: gap.before acc) .none hcs rfl hnext (.inl rfl)
        rw [hahead] at hread hend
        refine ⟨acc', gap', ?_, ?_, hend⟩
        · rw [List.cons_append, readPlain_cons hc hspace hgap, hread]
        · rw [htext, Gap.none_before, List.reverse_cons, List.append_assoc]
          rfl

/-- A text that ends with something else than a space is read without the gap after it. -/
theorem readPlain_text {cs : List Char} (hcs : ∀ c ∈ cs, isPlainChar c = true) (hne : cs ≠ [])
    (hlast : cs.getLast? ≠ some ' ') (hindent : i ≤ p.column + 1) :
    readPlain ⟨false, i⟩ [] .none p (cs ++ rest)
      = readPlain ⟨false, i⟩ cs.reverse .none (p.ahead cs.length) rest := by
  obtain ⟨start, c, rfl⟩ := List.eq_nil_or_concat cs |>.resolve_left hne
  rw [List.concat_eq_append] at hcs hlast ⊢
  have hspace : c ≠ ' ' := by simpa using hlast
  have hstart : ∀ d ∈ start, isPlainChar d = true := fun d hd => hcs d (by simp [hd])
  obtain ⟨acc, gap, hread, htext, hend⟩ := readPlain_append [] (c :: rest) .none hstart rfl
    hindent (.inl rfl)
  rw [List.append_assoc, List.singleton_append, hread, readPlain_cons (hcs c (by simp)) hspace hend,
    htext, Position.ahead_ahead]
  simp

/-- A plain scalar before a colon that makes it a key ends there. -/
theorem readPlain_colon (hends : endsWord rest = true) :
    readPlain ⟨false, i⟩ acc .none p (':' :: rest) = some ⟨acc.reverse, false, p, ':' :: rest⟩ := by
  have hstop : stopsWord ⟨false, i⟩ ':' rest = true := by simp [stopsWord, hends]
  have hcolon : isBlank ':' = false ∧ isBreak ':' = false := by decide
  rw [readPlain, hcolon.1, hcolon.2, hstop, Bool.or_true]
  rfl

/-- A text that does not go on with white space or a comment. -/
def AtWord (cs : List Char) : Prop :=
  ∀ c ∈ cs.head?, isBlank c = false ∧ isBreak c = false ∧ c ≠ '#'

theorem atWord_cons {c : Char} (h : isBlank c = false ∧ isBreak c = false ∧ c ≠ '#') :
    AtWord (c :: rest) := by
  intro d hd
  rwa [← Option.some.inj hd]

theorem readPlain_spaces (more n : Nat) :
    readPlain ⟨false, i⟩ acc (.folded more) p (List.replicate n ' ' ++ rest)
      = readPlain ⟨false, i⟩ acc (.folded more) (p.ahead n) rest := by
  induction n generalizing p with
  | zero => rfl
  | succ n ih =>
      rw [List.replicate_succ, List.cons_append, readPlain, Position.next_of_ne p (by decide)]
      have hblank : (Gap.folded more).blank ' ' = .folded more := rfl
      have hstay := ih (p := p.ahead 1)
      rw [Position.ahead_ahead, Nat.add_comm 1 n] at hstay
      simpa [isBlank, hblank] using hstay

/-- A plain scalar ends with its line if the next one is not indented enough. -/
theorem readPlain_lineBreak {n : Nat} (hindent : (n : Int) < i) (hrest : AtWord rest) :
    readPlain ⟨false, i⟩ acc .none p ('\n' :: (List.replicate n ' ' ++ rest))
      = some ⟨acc.reverse, true, ⟨p.index + 1 + n, p.line + 1, n⟩, rest⟩ := by
  have hbreak : isBlank '\n' = false ∧ isBreak '\n' = true := by decide
  have hnext : (p.next '\n').ahead n = ⟨p.index + 1 + n, p.line + 1, n⟩ := by
    simp [Position.next, Position.ahead]
  rw [readPlain, hbreak.1, hbreak.2, ← hnext]
  show readPlain ⟨false, i⟩ acc (.folded 0) (p.next '\n') (List.replicate n ' ' ++ rest) = _
  rw [readPlain_spaces]
  cases rest with
  | nil => rfl
  | cons c rest =>
      obtain ⟨hblank, hend, -⟩ := hrest c rfl
      have hcolumn : ((p.next '\n').ahead n).column = n := by rw [hnext]
      rw [readPlain, hblank, hend, stopsAfterGap, hcolumn, decide_eq_true hindent]
      rfl

/-! ## Quoted scalars -/

variable {d : Char}

theorem hexValue?_digitChar {n : Nat} (h : n < 16) : hexValue? (Nat.digitChar n) = some n := by
  have hall : ∀ n < 16, hexValue? (Nat.digitChar n) = some n := by decide
  exact hall n h

theorem charOf?_toNat (c : Char) : charOf? c.toNat = some c := by
  have hvalid : c.toNat.isValidChar := c.valid
  rw [charOf?, if_pos hvalid, Char.ofNat_toNat]

/-- A character that stands for itself takes in the gap before it. -/
theorem readQuoted_cons {c : Char} (hblank : isBlank c = false) (hbreak : isBreak c = false)
    (hquote : c ≠ '\x22') (hslash : c ≠ '\\') (hcolumn : 0 < p.column) :
    readQuoted .double acc (.text gap) p (c :: rest)
      = readQuoted .double (c :: gap.before acc) (.text .none) (p.ahead 1) rest := by
  have hzero : p.column ≠ 0 := by omega
  have hne : c ≠ '\n' := by
    rintro rfl
    exact absurd hbreak (by decide)
  simp [readQuoted, hblank, hbreak, hzero, hquote, hslash, Quote.mark, Position.next_of_ne p hne]

/-- A backslash and the letter of a character. -/
theorem readQuoted_backslash {letter : Char} (hbreak : isBreak letter = false)
    (hletter : escape? letter = some (.inl d)) (hcolumn : 0 < p.column) :
    readQuoted .double acc (.text gap) p ('\\' :: letter :: rest)
      = readQuoted .double (d :: gap.before acc) (.text .none) (p.ahead 2) rest := by
  have hzero : p.column ≠ 0 := by omega
  have hslash : isBlank '\\' = false ∧ isBreak '\\' = false := by decide
  have hne : letter ≠ '\n' := by
    rintro rfl
    exact absurd hbreak (by decide)
  have htwo : (p.next '\\').next letter = p.ahead 2 := by
    rw [Position.next_of_ne _ hne, Position.next_of_ne _ (by decide), Position.ahead_ahead]
  simp [readQuoted, hslash, hbreak, hzero, Quote.mark, hletter, htwo]

/-- A backslash and the code point of a character that is below 256. -/
theorem readQuoted_codePoint (hsmall : d.toNat < 256) (hcolumn : 0 < p.column) :
    readQuoted .double acc (.text gap) p ('\\' :: 'u' :: '0' :: '0' :: (twoDigits d.toNat ++ rest))
      = readQuoted .double (d :: gap.before acc) (.text .none) (p.ahead 6) rest := by
  have hzero : p.column ≠ 0 := by omega
  have hslash : isBlank '\\' = false ∧ isBreak '\\' = false := by decide
  have hletter : escape? 'u' = some (.inr 4) ∧ isBreak 'u' = false := by decide
  have hnull : hexValue? '0' = some 0 := by decide
  have hhigh := hexValue?_digitChar (n := d.toNat / 16) (by omega)
  have hlow := hexValue?_digitChar (n := d.toNat % 16) (by omega)
  have hcode : charOf? (16 * (d.toNat / 16) + d.toNat % 16) = some d := by
    rw [Nat.div_add_mod, charOf?_toNat]
  have hdigit : ∀ n < 16, Nat.digitChar n ≠ '\n' := by decide
  have hsix : (((((p.next '\\').next 'u').next '0').next '0').next
      (Nat.digitChar (d.toNat / 16))).next (Nat.digitChar (d.toNat % 16)) = p.ahead 6 := by
    rw [Position.next_of_ne _ (hdigit _ (by omega)), Position.next_of_ne _ (hdigit _ (by omega))]
    simp only [Position.next_of_ne _ (show '\\' ≠ '\n' by decide),
      Position.next_of_ne _ (show 'u' ≠ '\n' by decide),
      Position.next_of_ne _ (show '0' ≠ '\n' by decide), Position.ahead_ahead]
  simp [readQuoted, hslash, hzero, Quote.mark, hletter, hnull, twoDigits, hhigh, hlow, hcode, hsix]

/-- Each character is read back from what it is written as. -/
theorem readQuoted_escapedChar (acc rest : List Char) (c : Char) (hbreak : gap.hasBreak = false)
    (hcolumn : 0 < p.column) :
    ∃ acc' gap', readQuoted .double acc (.text gap) p (escapedChar c ++ rest)
        = readQuoted .double acc' (.text gap') (p.ahead (escapedChar c).length) rest ∧
      gap'.hasBreak = false ∧ gap'.before acc' = c :: gap.before acc := by
  have hletter : ∀ letter, isBreak letter = false → escape? letter = some (.inl c) →
      ∃ acc' gap', readQuoted .double acc (.text gap) p (['\\', letter] ++ rest)
          = readQuoted .double acc' (.text gap') (p.ahead ['\\', letter].length) rest ∧
        gap'.hasBreak = false ∧ gap'.before acc' = c :: gap.before acc :=
    fun letter hplain hread =>
      ⟨_, _, readQuoted_backslash hplain hread hcolumn, rfl, rfl⟩
  unfold escapedChar
  split_ifs with h1 h2 h3 h4 h5 h6 h7 h8
  · exact hletter _ (by decide) (by rw [beq_iff_eq.1 h1]; decide)
  · exact hletter _ (by decide) (by rw [beq_iff_eq.1 h2]; decide)
  · exact hletter _ (by decide) (by rw [beq_iff_eq.1 h3]; decide)
  · exact hletter _ (by decide) (by rw [beq_iff_eq.1 h4]; decide)
  · exact hletter _ (by decide) (by rw [beq_iff_eq.1 h5]; decide)
  · exact hletter _ (by decide) (by rw [beq_iff_eq.1 h6]; decide)
  · exact hletter _ (by decide) (by rw [beq_iff_eq.1 h7]; decide)
  · have hsmall : c.toNat < 256 := by
      rw [Bool.or_eq_true, decide_eq_true_eq, beq_iff_eq] at h8
      omega
    exact ⟨_, _, readQuoted_codePoint hsmall hcolumn, rfl, rfl⟩
  · rw [beq_iff_eq] at h1 h2 h4 h5 h7
    by_cases hspace : c = ' '
    · refine ⟨acc, gap.blank c, ?_, Gap.hasBreak_blank hbreak c, Gap.blank_before acc hbreak c⟩
      have hblank : isBlank c = true := by simp [hspace, isBlank]
      simp [readQuoted, hblank, Position.next_of_ne p h5]
    · have hblank : isBlank c = false := Bool.eq_false_iff.2 fun h => hspace ((isBlank_iff h4).1 h)
      have hplain : isBreak c = false := by simp [isBreak, h5, h7]
      exact ⟨_, _, readQuoted_cons hblank hplain h1 h2 hcolumn, rfl, rfl⟩

/-- A text is read back from what stands for it between double quotes. -/
theorem readQuoted_escaped {cs : List Char} (hbreak : gap.hasBreak = false)
    (hcolumn : 0 < p.column) :
    readQuoted .double acc (.text gap) p (cs.flatMap escapedChar ++ '\x22' :: rest)
      = some ⟨(gap.before acc).reverse ++ cs, false,
          p.ahead ((cs.flatMap escapedChar).length + 1), rest⟩ := by
  induction cs generalizing acc gap p with
  | nil =>
      have hquote : isBlank '\x22' = false ∧ isBreak '\x22' = false := by decide
      simp [readQuoted, hquote, Quote.mark, Position.next_of_ne p (c := '\x22') (by decide),
        atStartMark, atEndMark]
  | cons c cs ih =>
      obtain ⟨acc', gap', hread, hbreak', htext⟩ := readQuoted_escapedChar acc
        (cs.flatMap escapedChar ++ '\x22' :: rest) c hbreak hcolumn
      have hlater : 0 < (p.ahead (escapedChar c).length).column := by
        rw [Position.ahead_column]
        omega
      rw [List.flatMap_cons, List.append_assoc, hread, ih hbreak' hlater, htext,
        Position.ahead_ahead]
      simp [Nat.add_assoc]

end Valuer.Yaml
