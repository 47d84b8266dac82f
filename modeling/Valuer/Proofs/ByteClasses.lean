import Valuer.Text.Utf8

set_option autoImplicit false

/-! # Classes of bytes and classes of characters

A text can be checked byte by byte or character by character. An ASCII character is one byte, and
every byte of any other character is beyond ASCII, so two checks come to the same if they agree on
ASCII and each treats everything beyond it alike (`Utf8.Reflects`). The first byte that fails is
then the first byte of the first character that fails, and never one inside a character
(`Utf8.Reflects.findIdx?_encode`). -/

namespace Valuer.Utf8

/-! ## Bytes of a character -/

theorem encodeChar_ne_nil (c : Char) : String.utf8EncodeChar c ≠ [] := by
  intro h
  have hsize := String.length_utf8EncodeChar c
  have hpos := c.utf8Size_pos
  rw [h, List.length_nil] at hsize
  omega

/-- A character of ASCII is one byte, its code. -/
theorem encodeChar_of_ascii {c : Char} (h : c.toNat < 128) :
    String.utf8EncodeChar c = [UInt8.ofNat c.toNat] := by
  have hsize : c.utf8Size = 1 := by
    rw [Char.utf8Size_eq_one_iff, UInt32.le_iff_toNat_le]
    exact Nat.le_of_lt_succ h
  rw [String.utf8EncodeChar_eq_singleton hsize]
  rfl

/-- Every byte of any other character is beyond ASCII. -/
theorem le_of_mem_encodeChar {c : Char} {b : UInt8} (h : 128 ≤ c.toNat)
    (hb : b ∈ String.utf8EncodeChar c) : 128 ≤ b.toNat := by
  have hbyte : ∀ n, 128 ≤ n % 256 → 128 ≤ (UInt8.ofNat n).toNat := by
    intro n hn
    rw [UInt8.toNat_ofNat']
    exact hn
  have hval : 128 ≤ c.val.toNat := h
  unfold String.utf8EncodeChar at hb
  simp only at hb
  split at hb
  · omega
  · split at hb
    · simp only [List.mem_cons, List.not_mem_nil, or_false] at hb
      rcases hb with rfl | rfl <;> exact hbyte _ (by omega)
    · split at hb <;> simp only [List.mem_cons, List.not_mem_nil, or_false] at hb
      · rcases hb with rfl | rfl | rfl <;> exact hbyte _ (by omega)
      · rcases hb with rfl | rfl | rfl | rfl <;> exact hbyte _ (by omega)

theorem length_encode (s : String) : (encode s).length = s.utf8ByteSize := by
  simp [encode, String.toUTF8_eq_toByteArray]

/-! ## Checks that come to the same -/

/-- The bytes of a character are in the one class exactly if the character is in the other. -/
def Reflects (q : UInt8 → Bool) (p : Char → Bool) : Prop :=
  ∀ c, ∀ b ∈ String.utf8EncodeChar c, q b = p c

namespace Reflects

variable {q : UInt8 → Bool} {p : Char → Bool}

theorem of_ascii (hascii : ∀ n < 128, q (UInt8.ofNat n) = p (Char.ofNat n)) (beyond : Bool)
    (hbytes : ∀ b : UInt8, 128 ≤ b.toNat → q b = beyond)
    (hchars : ∀ c : Char, 128 ≤ c.toNat → p c = beyond) : Reflects q p := by
  intro c b hb
  rcases Nat.lt_or_ge c.toNat 128 with hlt | hge
  · rw [encodeChar_of_ascii hlt, List.mem_singleton] at hb
    have hc := hascii c.toNat hlt
    rwa [Char.ofNat_toNat, ← hb] at hc
  · rw [hbytes b (le_of_mem_encodeChar hge hb), hchars c hge]

theorem all_encodeChar (h : Reflects q p) (c : Char) : (String.utf8EncodeChar c).all q = p c := by
  obtain ⟨b, bs, hbytes⟩ := List.exists_cons_of_ne_nil (encodeChar_ne_nil c)
  have hall : ∀ d ∈ b :: bs, q d = p c := fun d hd => h c d (hbytes ▸ hd)
  rw [hbytes]
  cases hc : p c with
  | true => exact List.all_eq_true.2 fun d hd => (hall d hd).trans hc
  | false => rw [List.all_cons, hall b List.mem_cons_self, hc, Bool.false_and]

/-- All bytes of a text pass exactly if all of its characters do. -/
theorem all_encode (h : Reflects q p) (s : String) : (encode s).all q = s.toList.all p := by
  rw [← String.ofList_toList (s := s), encode_ofList, String.toList_ofList]
  induction s.toList with
  | nil => rfl
  | cons c cs ih => rw [List.flatMap_cons, List.all_append, h.all_encodeChar, ih, List.all_cons]

/-- The first byte that fails begins the first character that fails. -/
theorem findIdx?_encode (h : Reflects q p) {before : String} {c : Char}
    (hbefore : before.toList.all p = true) (hc : p c = false) (after : String) :
    (encode (before ++ String.singleton c ++ after)).findIdx? (fun b => !q b)
      = some before.utf8ByteSize := by
  obtain ⟨b, bs, hbytes⟩ := List.exists_cons_of_ne_nil (encodeChar_ne_nil c)
  have hb : q b = false := (h c b (hbytes ▸ List.mem_cons_self)).trans hc
  have hchar : encode (String.singleton c) = b :: bs := by
    rw [← hbytes, String.singleton_eq_ofList, encode_ofList, List.flatMap_singleton]
  have hnone : (encode before).findIdx? (fun b => !q b) = none := by
    rw [← h.all_encode, List.all_eq_true] at hbefore
    refine List.findIdx?_eq_none_iff.2 fun d hd => ?_
    rw [hbefore d hd, Bool.not_true]
  rw [encode_append, encode_append, List.append_assoc, List.findIdx?_append, hnone, hchar,
    List.cons_append, List.findIdx?_cons, hb, length_encode]
  simp

end Reflects

end Valuer.Utf8
