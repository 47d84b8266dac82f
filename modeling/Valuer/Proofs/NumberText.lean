import Valuer.Proofs.ResultLines

set_option autoImplicit false

/-! # Texts that spell numbers

An integer is written as decimal digits behind an optional sign, leading zeros allowed, and in a
variable there may be white space around it. The grammar says what a text of any length spells;
the readers accept exactly the integers of 64 bits in variables (`trimmed_int?_eq_some_iff`) and
the numbers of 32 bits, without a minus sign, in fields (`word?_eq_some_iff`). -/

namespace Valuer.Text

/-! ## Grammar -/

/-- Decimal digits spell a number. -/
structure SpellsNat (cs : List Char) (n : Nat) : Prop where
  nonempty : cs ≠ []
  digits : ∀ c ∈ cs, c.isDigit = true
  value : Nat.ofDigitChars 10 cs 0 = n

/-- Digits behind an optional sign spell an integer. -/
inductive SpellsInt : List Char → Int → Prop where
  | bare {ds : List Char} {n : Nat} (h : SpellsNat ds n) : SpellsInt ds n
  | plus {ds : List Char} {n : Nat} (h : SpellsNat ds n) : SpellsInt ('+' :: ds) n
  | minus {ds : List Char} {n : Nat} (h : SpellsNat ds n) : SpellsInt ('-' :: ds) (-n)

/-- A text is `core` with white space around it. -/
def Padded (s : String) (core : List Char) : Prop :=
  ∃ before after, s.toList = before ++ core ++ after ∧
    (∀ c ∈ before, isWhite c = true) ∧ ∀ c ∈ after, isWhite c = true

/-- A text is a decimal integer, white space around it aside. -/
def IsInteger (s : String) (n : Int) : Prop :=
  ∃ core, Padded s core ∧ SpellsInt core n

/-- A text is a decimal number behind an optional plus sign. -/
def IsNumber (s : String) (n : Nat) : Prop :=
  SpellsNat s.toList n ∨ ∃ ds, s.toList = '+' :: ds ∧ SpellsNat ds n

/-- The integers of 64 bits. -/
def InWord (n : Int) : Prop :=
  -9223372036854775808 ≤ n ∧ n ≤ 9223372036854775807

/-! ## Digits and signs -/

theorem digits?_eq_some_iff {cs : List Char} {n : Nat} :
    digits? cs = some n ↔ SpellsNat cs n := by
  unfold digits?
  constructor
  · intro h
    split at h
    · next hdigits =>
        obtain ⟨hne, hall⟩ := hdigits
        exact ⟨hne, List.all_eq_true.1 hall, Option.some.inj h⟩
    · exact absurd h (by simp)
  · rintro ⟨hne, hdigits, rfl⟩
    exact if_pos ⟨hne, List.all_eq_true.2 hdigits⟩

theorem SpellsNat.not_mem {ds : List Char} {n : Nat} (h : SpellsNat ds n) {c : Char}
    (hc : c.isDigit = false) : c ∉ ds := by
  intro hmem
  rw [h.digits c hmem] at hc
  exact Bool.noConfusion hc

theorem SpellsNat.afterPlus_eq {ds : List Char} {n : Nat} (h : SpellsNat ds n) :
    afterPlus ds = ds := by
  unfold afterPlus
  split
  · exact absurd (List.mem_cons_self ..) (h.not_mem (by decide))
  · rfl

/-- What follows a minus sign is read as the opposite of a number. -/
theorem int?_minus (ds : List Char) :
    int? (String.ofList ('-' :: ds))
      = ((digits? ds).filter (· ≤ signedBound)).map fun n : Nat => -(n : Int) := by
  simp only [int?, String.toList_ofList]
  cases (digits? ds).filter (· ≤ signedBound) <;> rfl

theorem int?_of_ne_minus {cs : List Char} (h : cs.head? ≠ some '-') :
    int? (String.ofList cs)
      = ((digits? (afterPlus cs)).filter (· < signedBound)).map fun n : Nat => (n : Int) := by
  unfold int?
  rw [String.toList_ofList]
  split
  · exact absurd rfl h
  · cases (digits? (afterPlus cs)).filter (· < signedBound) <;> rfl

/-- What is read as an integer is spelled by the text, and fits. -/
theorem spellsInt_of_int? {cs : List Char} {n : Int} (h : int? (String.ofList cs) = some n) :
    SpellsInt cs n ∧ InWord n := by
  by_cases hminus : cs.head? = some '-'
  · obtain ⟨ds, rfl⟩ := List.head?_eq_some_iff.1 hminus
    rw [int?_minus] at h
    obtain ⟨m, hm, rfl⟩ := Option.map_eq_some_iff.1 h
    obtain ⟨hdigits, hsmall⟩ := Option.filter_eq_some_iff.1 hm
    rw [decide_eq_true_eq, signedBound] at hsmall
    exact ⟨.minus (digits?_eq_some_iff.1 hdigits), by unfold InWord; omega⟩
  · rw [int?_of_ne_minus hminus] at h
    obtain ⟨m, hm, rfl⟩ := Option.map_eq_some_iff.1 h
    obtain ⟨hdigits, hsmall⟩ := Option.filter_eq_some_iff.1 hm
    rw [decide_eq_true_eq, signedBound] at hsmall
    refine ⟨?_, by unfold InWord; omega⟩
    rw [digits?_eq_some_iff] at hdigits
    unfold afterPlus at hdigits
    split at hdigits
    · exact .plus hdigits
    · exact .bare hdigits

/-- Of the integers that texts spell those that fit are read. -/
theorem int?_of_spellsInt {cs : List Char} {n : Int} (h : SpellsInt cs n) (hfits : InWord n) :
    int? (String.ofList cs) = some n := by
  obtain ⟨hlow, hhigh⟩ := hfits
  cases h with
  | @minus ds m h =>
      have hsmall : m ≤ signedBound := by unfold signedBound; omega
      rw [int?_minus, digits?_eq_some_iff.2 h, Option.filter_some_pos (by simpa using hsmall)]
      rfl
  | @plus ds m h =>
      have hsmall : m < signedBound := by unfold signedBound; omega
      rw [int?_of_ne_minus (by simp), afterPlus, digits?_eq_some_iff.2 h,
        Option.filter_some_pos (by simpa using hsmall)]
      rfl
  | @bare _ m h =>
      have hsmall : m < signedBound := by unfold signedBound; omega
      have hminus : cs.head? ≠ some '-' := fun hhead =>
        h.not_mem (c := '-') (by decide) (List.mem_of_head? hhead)
      rw [int?_of_ne_minus hminus, h.afterPlus_eq, digits?_eq_some_iff.2 h,
        Option.filter_some_pos (by simpa using hsmall)]
      rfl

/-! ## Unsigned numerals -/

theorem natBelow?_eq_some_iff {bound n : Nat} {s : String} :
    natBelow? bound s = some n ↔ IsNumber s n ∧ n < bound := by
  rw [natBelow?, Option.filter_eq_some_iff, digits?_eq_some_iff, decide_eq_true_eq,
    and_congr_left_iff]
  intro _
  constructor
  · intro h
    unfold afterPlus at h
    split at h
    · next ds hs => exact .inr ⟨ds, hs, h⟩
    · exact .inl h
  · rintro (h | ⟨ds, hs, h⟩)
    · rw [h.afterPlus_eq]
      exact h
    · rw [hs]
      exact h

/-- The numbers that are read from fields are the decimal numbers of 32 bits. -/
theorem word?_eq_some_iff {s : String} {n : UInt32} : word? s = some n ↔ IsNumber s n.toNat := by
  rw [word?, Option.map_eq_some_iff]
  constructor
  · rintro ⟨m, hm, rfl⟩
    obtain ⟨hnumber, hsmall⟩ := natBelow?_eq_some_iff.1 hm
    rw [UInt32.toNat_ofNat_of_lt' hsmall]
    exact hnumber
  · intro hnumber
    exact ⟨n.toNat, natBelow?_eq_some_iff.2 ⟨hnumber, n.toNat_lt_size⟩, UInt32.ofNat_toNat⟩

/-! ## White space around a text -/

theorem SpellsInt.ne_nil {cs : List Char} {n : Int} (h : SpellsInt cs n) : cs ≠ [] := by
  cases h with
  | bare h => exact h.nonempty
  | plus h | minus h => exact List.cons_ne_nil _ _

theorem SpellsInt.not_white {cs : List Char} {n : Int} (h : SpellsInt cs n) :
    ∀ c ∈ cs, isWhite c = false := by
  cases h with
  | bare h => exact fun c hc => isWhite_of_isDigit (h.digits c hc)
  | plus h | minus h =>
      exact List.forall_mem_cons.2 ⟨by decide, fun c hc => isWhite_of_isDigit (h.digits c hc)⟩

theorem SpellsInt.unique {cs : List Char} {n m : Int} (hn : SpellsInt cs n) (hm : SpellsInt cs m) :
    n = m := by
  cases hn with
  | bare h =>
      cases hm with
      | bare k => rw [← h.value, ← k.value]
      | plus _ | minus _ => exact absurd (List.mem_cons_self ..) (h.not_mem (by decide))
  | plus h =>
      cases hm with
      | bare k => exact absurd (List.mem_cons_self ..) (k.not_mem (by decide))
      | plus k => rw [← h.value, ← k.value]
  | minus h =>
      cases hm with
      | bare k => exact absurd (List.mem_cons_self ..) (k.not_mem (by decide))
      | minus k => rw [← h.value, ← k.value]

/-- A text without white space is what is left of it when white space is put around it. -/
theorem trim_of_padded {s : String} {core : List Char} (h : Padded s core) (hne : core ≠ [])
    (hcore : ∀ c ∈ core, isWhite c = false) : trim s = String.ofList core := by
  obtain ⟨before, after, hs, hbefore, hafter⟩ := h
  obtain ⟨first, rest, rfl⟩ := List.exists_cons_of_ne_nil hne
  have hfirst : ¬ isWhite first = true := by simp [hcore first (List.mem_cons_self ..)]
  have hlast : (first :: rest).rdropWhile isWhite = first :: rest := by
    refine List.rdropWhile_eq_self_iff.2 fun hl => ?_
    simp [hcore _ (List.getLast_mem hl)]
  rw [trim, hs, List.append_assoc, List.dropWhile_append_of_pos hbefore, List.cons_append,
    List.dropWhile_cons_of_neg hfirst, ← List.cons_append, trimEnd_append hafter,
    trimEnd_eq_rdropWhile, hlast]

/-- Trimming takes off white space and nothing else. -/
theorem padded_trim (s : String) : Padded s (trim s).toList := by
  refine ⟨s.toList.takeWhile isWhite, (s.toList.dropWhile isWhite).rtakeWhile isWhite, ?_, ?_, ?_⟩
  · rw [trim, String.toList_ofList, trimEnd_eq_rdropWhile, List.append_assoc,
      List.rdropWhile_append_rtakeWhile, List.takeWhile_append_dropWhile]
  · exact fun c hc => List.mem_takeWhile_imp hc
  · exact fun c hc => List.mem_rtakeWhile_imp hc

/-- A text spells one integer at most. -/
theorem IsInteger.unique {s : String} {n m : Int} (hn : IsInteger s n) (hm : IsInteger s m) :
    n = m := by
  obtain ⟨core, hpadded, hspells⟩ := hn
  obtain ⟨core', hpadded', hspells'⟩ := hm
  have hcore := trim_of_padded hpadded hspells.ne_nil hspells.not_white
  rw [trim_of_padded hpadded' hspells'.ne_nil hspells'.not_white, String.ofList_inj] at hcore
  exact hspells.unique (hcore ▸ hspells')

/-- The integers that are read from variables are the decimal integers of 64 bits. -/
theorem trimmed_int?_eq_some_iff {s : String} {n : Int} :
    int? (trim s) = some n ↔ IsInteger s n ∧ InWord n := by
  constructor
  · intro h
    rw [← String.ofList_toList (s := trim s)] at h
    obtain ⟨hspells, hfits⟩ := spellsInt_of_int? h
    exact ⟨⟨_, padded_trim s, hspells⟩, hfits⟩
  · rintro ⟨⟨core, hpadded, hspells⟩, hfits⟩
    rw [trim_of_padded hpadded hspells.ne_nil hspells.not_white]
    exact int?_of_spellsInt hspells hfits

end Valuer.Text
