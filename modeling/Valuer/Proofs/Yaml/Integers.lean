import Valuer.Proofs.Yaml.Entries
import Valuer.Text.Numeral
import Valuer.Yaml.Integer

set_option autoImplicit false

/-! # Integers that were written

A number in decimal digits is a word, and is read as the number again: it has no leading zero, so
it is not taken for digits of another base. -/

namespace Valuer.Yaml

/-- The digits of a number start with a zero only if that is the number. -/
theorem head_toDigits {n : Nat} (hn : 0 < n) : (Nat.toDigits 10 n).head? ≠ some '0' := by
  induction n using Nat.strongRecOn with
  | ind n ih =>
      by_cases hsmall : n < 10
      · have hall : ∀ n < 10, 0 < n → [Nat.digitChar n].head? ≠ some '0' := by decide
        rw [Nat.toDigits_of_lt_base hsmall]
        exact hall n hsmall hn
      · have hdigits := Nat.toDigits_of_base_le (b := 10) (by decide) (Nat.le_of_not_lt hsmall)
        rw [hdigits, List.head?_append_of_ne_nil _ Nat.toDigits_ne_nil]
        exact ih (n / 10) (by omega) (by omega)

/-- A decimal digit has the same value in every base that it belongs to. -/
theorem hexValue?_of_isDigit {c : Char} (h : c.isDigit = true) :
    (hexValue? c).filter (· < 10) = some (c.toNat - '0'.toNat) := by
  have hall : ∀ n < 58, 48 ≤ n →
      (hexValue? (Char.ofNat n)).filter (· < 10) = some ((Char.ofNat n).toNat - '0'.toNat) := by
    decide
  have hrange : 48 ≤ c.toNat ∧ c.toNat ≤ 57 := by
    rw [Char.isDigit, Bool.and_eq_true, decide_eq_true_eq, decide_eq_true_eq] at h
    exact h
  have hc := hall c.toNat (by omega) hrange.1
  rwa [Char.ofNat_toNat] at hc

theorem digitsOf?_of_isDigit {cs : List Char} (hne : cs ≠ []) (h : ∀ c ∈ cs, c.isDigit = true) :
    digitsOf? 10 cs = some (Nat.ofDigitChars 10 cs 0) := by
  have hvalues : cs.mapM (fun c => (hexValue? c).filter (· < 10))
      = some (cs.map fun c => c.toNat - '0'.toNat) := by
    clear hne
    induction cs with
    | nil => rfl
    | cons c cs ih =>
        obtain ⟨hc, hcs⟩ := List.forall_mem_cons.1 h
        rw [List.mapM_cons, hexValue?_of_isDigit hc, ih hcs]
        rfl
  rw [digitsOf?, hvalues, Nat.ofDigitChars_eq_foldl]
  simp [hne, List.foldl_map]

theorem natural?_toDigits (n : Nat) : natural? (Nat.toDigits 10 n) = some n := by
  rcases Nat.eq_zero_or_pos n with rfl | hn
  · rfl
  · have hhead := head_toDigits hn
    have hread : digitsOf? 10 (Nat.toDigits 10 n) = some n := by
      rw [digitsOf?_of_isDigit Nat.toDigits_ne_nil
        fun c hc => Nat.isDigit_of_mem_toDigits (by omega) (by omega) hc,
        Nat.ofDigitChars_ten_toDigits]
    unfold natural?
    split
    all_goals first
      | exact hread
      | next heq => exact absurd (congrArg List.head? heq) hhead

/-- A number in decimal digits is read as the number. -/
theorem integer?_decimal (n : Nat) : integer? (Text.decimal n).toList = some (n : Int) := by
  have hdigit : ∀ c ∈ (Text.decimal n).toList, c.isDigit = true :=
    fun c hc => Text.isDigit_of_mem_decimal hc
  unfold integer?
  split
  · next heq => exact absurd (hdigit '+' (heq ▸ List.mem_cons_self)) (by decide)
  · next heq => exact absurd (hdigit '-' (heq ▸ List.mem_cons_self)) (by decide)
  · rw [Text.toList_decimal, natural?_toDigits]
    rfl

theorem isWord_decimal (n : Nat) : IsWord (Text.decimal n).toList where
  nonempty := by
    rw [Text.toList_decimal]
    exact Nat.toDigits_ne_nil
  chars c hc := by
    rw [Char.isAlphanum, Text.isDigit_of_mem_decimal hc, Bool.or_true]

end Valuer.Yaml
