set_option autoImplicit false

/-! # Numerals

Numbers arrive as decimal text. An unsigned numeral is an optional plus sign and at least one
digit, leading zeros allowed; a signed one may have a minus sign instead. Each reader has its bound:
a numeral of any length is judged by its value. `word?_decimal` says that what is printed is read
back. -/

namespace Valuer.Text

/-- A number in decimal digits, without leading zeros. -/
def decimal (n : Nat) : String :=
  String.ofList (Nat.toDigits 10 n)

/-- The value of a nonempty run of decimal digits. -/
def digits? (cs : List Char) : Option Nat :=
  if cs ≠ [] ∧ cs.all Char.isDigit then some (Nat.ofDigitChars 10 cs 0) else none

/-- What follows the plus sign that may stand before a numeral. -/
def afterPlus : List Char → List Char
  | '+' :: cs => cs
  | cs => cs

/-- An unsigned numeral with a value below `bound`. -/
def natBelow? (bound : Nat) (s : String) : Option Nat :=
  (digits? (afterPlus s.toList)).filter (· < bound)

/-- An unsigned numeral of at most 32 bits. -/
def word? (s : String) : Option UInt32 :=
  (natBelow? UInt32.size s).map UInt32.ofNat

/-- The least number that does not fit in 64 bits together with its sign. -/
def signedBound : Nat := 9223372036854775808

/-- A numeral with an optional sign whose value fits in 64 bits, sign included. -/
def int? (s : String) : Option Int :=
  match s.toList with
  | '-' :: cs => ((digits? cs).filter (· ≤ signedBound)).map fun n => -(n : Int)
  | cs => ((digits? (afterPlus cs)).filter (· < signedBound)).map fun n => (n : Int)

/-! ## Reading back what was printed -/

theorem toList_decimal (n : Nat) : (decimal n).toList = Nat.toDigits 10 n := by
  simp [decimal]

theorem isDigit_of_mem_decimal {n : Nat} {c : Char} (h : c ∈ (decimal n).toList) :
    c.isDigit = true := by
  rw [toList_decimal] at h
  exact Nat.isDigit_of_mem_toDigits (by omega) (by omega) h

theorem digits?_decimal (n : Nat) : digits? (decimal n).toList = some n := by
  have hall : (decimal n).toList.all Char.isDigit = true :=
    List.all_eq_true.2 fun c hc => isDigit_of_mem_decimal hc
  have hne : (decimal n).toList ≠ [] := by
    rw [toList_decimal]; exact Nat.toDigits_ne_nil
  rw [digits?, if_pos ⟨hne, hall⟩, toList_decimal, Nat.ofDigitChars_ten_toDigits]

theorem afterPlus_decimal (n : Nat) : afterPlus (decimal n).toList = (decimal n).toList := by
  unfold afterPlus
  split
  · next cs h =>
      have hd := isDigit_of_mem_decimal (n := n) (c := '+') (h ▸ List.mem_cons_self ..)
      exact absurd hd (by decide)
  · rfl

theorem natBelow?_decimal {bound n : Nat} (h : n < bound) :
    natBelow? bound (decimal n) = some n := by
  simp [natBelow?, afterPlus_decimal, digits?_decimal, h]

theorem word?_decimal (n : UInt32) : word? (decimal n.toNat) = some n := by
  simp [word?, natBelow?_decimal n.toNat_lt_size]

end Valuer.Text
