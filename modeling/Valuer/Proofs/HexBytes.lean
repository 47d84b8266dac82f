import Valuer.Proofs.ByteClasses
import Valuer.Proofs.HexText

set_option autoImplicit false

/-! # Hexadecimal text as bytes

A text arrives as bytes, and whether it is hexadecimal is a matter of its bytes: their number is
even and each of them is the byte of a digit. The texts that pass are those that are written, one
for each list of bytes (`decode_is_inverse`). `decodeBytes?` searches for a byte, tells a character,
and has a substitute at hand for whatever it might fail to find; it agrees with `decode` whatever
the substitutes are, so it needs none (`decode_tells_first_fault`). -/

namespace Valuer

namespace Hex

/-! ## Digits as bytes -/

/-- The bytes of lower-case digits. -/
def IsDigitByte (b : UInt8) : Prop :=
  '0'.toUInt8 ≤ b ∧ b ≤ '9'.toUInt8 ∨ 'a'.toUInt8 ≤ b ∧ b ≤ 'f'.toUInt8

theorem isSome_nibble?_iff {b : UInt8} : (nibble? b).isSome = true ↔ IsDigitByte b := by
  unfold nibble? IsDigitByte
  split
  · simp [*]
  · split <;> simp [*]

/-- A byte is that of a digit exactly if the character that it belongs to is a digit. -/
theorem reflects_digit? :
    Utf8.Reflects (fun b => (nibble? b).isSome) (fun c => (digit? c).isSome) := by
  have hascii : (alphabet.all fun c => c.toNat < 128) = true := by decide
  refine .of_ascii (by decide) false (fun b hb => ?_) fun c hc => ?_
  · refine Bool.eq_false_iff.2 fun hsome => ?_
    have hnine : '9'.toUInt8.toNat = 57 := rfl
    have hletter : 'f'.toUInt8.toNat = 102 := rfl
    rcases isSome_nibble?_iff.1 hsome with ⟨-, hle⟩ | ⟨-, hle⟩ <;>
      · rw [UInt8.le_iff_toNat_le] at hle
        omega
  · refine Bool.eq_false_iff.2 fun hsome => ?_
    have hlt := List.all_eq_true.1 hascii c (isSome_digit?_iff.1 hsome)
    exact Nat.not_lt.2 hc (of_decide_eq_true hlt)

/-- The characters of a text are digits exactly if its bytes are. -/
theorem forall_mem_alphabet_iff {text : String} :
    (∀ c ∈ text.toList, c ∈ alphabet) ↔ ∀ b ∈ Utf8.encode text, IsDigitByte b := by
  have hall := reflects_digit?.all_encode text
  rw [Bool.eq_iff_iff, List.all_eq_true, List.all_eq_true] at hall
  simp only [isSome_nibble?_iff, isSome_digit?_iff] at hall
  exact hall.symm

/-- The byte of a digit with the given value. -/
def digitByte (d : Nat) : UInt8 :=
  UInt8.ofNat (Nat.digitChar d).toNat

theorem nibble?_digitByte {d : Nat} (h : d < 16) :
    nibble? (digitByte d) = some (UInt8.ofNat d) := by
  have hall : ∀ d < 16, nibble? (digitByte d) = some (UInt8.ofNat d) := by decide
  exact hall d h

theorem encode_digits {ds : List Nat} (h : ∀ d ∈ ds, d < 16) :
    Utf8.encode (String.ofList (ds.map Nat.digitChar)) = ds.map digitByte := by
  have hascii : ∀ d < 16, (Nat.digitChar d).toNat < 128 := by decide
  rw [Utf8.encode_ofList]
  induction ds with
  | nil => rfl
  | cons d ds ih =>
      obtain ⟨hd, hds⟩ := List.forall_mem_cons.1 h
      rw [List.map_cons, List.flatMap_cons, ih hds, Utf8.encodeChar_of_ascii (hascii d hd)]
      rfl

/-! ## The first character that is no digit -/

/-- The first character of a text that is no digit, and the number of bytes before it. -/
def FirstInvalid (text : String) (c : Char) (offset : Nat) : Prop :=
  ∃ before after, text = before ++ String.singleton c ++ after ∧
    (∀ d ∈ before.toList, d ∈ alphabet) ∧ c ∉ alphabet ∧ before.utf8ByteSize = offset

/-- A text consists of digits, or it has a first character that is none. -/
theorem digits_or_firstInvalid (text : String) :
    (∀ c ∈ text.toList, c ∈ alphabet) ∨ ∃ c offset, FirstInvalid text c offset := by
  cases hfind : text.toList.find? fun c => decide (c ∉ alphabet) with
  | none =>
      refine .inl fun c hc => ?_
      have hkept := List.find?_eq_none.1 hfind c hc
      simpa using hkept
  | some c =>
      obtain ⟨hc, before, after, hsplit, hbefore⟩ := List.find?_eq_some_iff_append.1 hfind
      refine .inr ⟨c, _, String.ofList before, String.ofList after, ?_, fun d hd => ?_,
        of_decide_eq_true hc, rfl⟩
      · rw [← String.toList_inj, hsplit]
        simp
      · rw [String.toList_ofList] at hd
        simpa using hbefore d hd

theorem digits_of_invalid {before after : List Char} {c : Char}
    (hbefore : ∀ d ∈ before, d ∈ alphabet) (hc : c ∉ alphabet) (offset : Nat) :
    digits offset (before ++ c :: after)
      = .error (.invalidChar c (offset + (String.ofList before).utf8ByteSize)) := by
  induction before generalizing offset with
  | nil =>
      have hnone : digit? c = none := by
        rw [← Option.not_isSome_iff_eq_none, isSome_digit?_iff]
        exact hc
      simp [digits, hnone]
  | cons d ds ih =>
      obtain ⟨hd, hds⟩ := List.forall_mem_cons.1 hbefore
      obtain ⟨n, hn⟩ := Option.isSome_iff_exists.1 (isSome_digit?_iff.2 hd)
      have hsize : (String.ofList (d :: ds)).utf8ByteSize
          = d.utf8Size + (String.ofList ds).utf8ByteSize := by
        rw [String.ofList_cons, String.utf8ByteSize_append, String.utf8ByteSize_singleton]
      rw [List.cons_append, digits, hn, hsize, ← Nat.add_assoc]
      simp only [ih hds, Except.map]

theorem decode_of_firstInvalid {text : String} {c : Char} {offset : Nat}
    (heven : text.utf8ByteSize % 2 = 0) (h : FirstInvalid text c offset) :
    decode text = .error (.invalidChar c offset) := by
  obtain ⟨before, after, rfl, hbefore, hc, rfl⟩ := h
  have hchars : (before ++ String.singleton c ++ after).toList
      = before.toList ++ c :: after.toList := by simp
  rw [decode, if_neg (by omega), hchars, digits_of_invalid hbefore hc, String.ofList_toList,
    Nat.zero_add]
  rfl

theorem decode_of_odd {text : String} (h : text.utf8ByteSize % 2 = 1) :
    decode text = .error (.oddLength text.utf8ByteSize) := by
  rw [decode, if_pos h]

/-- A text of an even number of digits is decoded, pair by pair. -/
theorem decode_of_digits {text : String} (heven : text.utf8ByteSize % 2 = 0)
    (h : ∀ c ∈ text.toList, c ∈ alphabet) :
    ∃ ds, text = String.ofList (ds.map Nat.digitChar) ∧ (∀ d ∈ ds, d < 16) ∧
      decode text = .ok (joinPairs ds) := by
  obtain ⟨ds, hds⟩ := (digits_isOk_iff 0 text.toList).2 h
  obtain ⟨hchars, hsmall⟩ := digits_eq_ok hds
  refine ⟨ds, by rw [← hchars, String.ofList_toList], hsmall, ?_⟩
  rw [decode, if_neg (by omega), hds]
  rfl

/-- Whatever the text, it is refused for its length, refused for its first character that is no
digit, or decoded. -/
theorem decode_cases (text : String) :
    (text.utf8ByteSize % 2 = 1 ∧ decode text = .error (.oddLength text.utf8ByteSize)) ∨
      (text.utf8ByteSize % 2 = 0 ∧ ∃ c offset, FirstInvalid text c offset ∧
        decode text = .error (.invalidChar c offset)) ∨
      (text.utf8ByteSize % 2 = 0 ∧ ∃ ds, text = String.ofList (ds.map Nat.digitChar) ∧
        (∀ d ∈ ds, d < 16) ∧ decode text = .ok (joinPairs ds)) := by
  rcases Nat.mod_two_eq_zero_or_one text.utf8ByteSize with heven | hodd
  · rcases digits_or_firstInvalid text with hdigits | ⟨c, offset, hfirst⟩
    · exact .inr (.inr ⟨heven, decode_of_digits heven hdigits⟩)
    · exact .inr (.inl ⟨heven, c, offset, hfirst, decode_of_firstInvalid heven hfirst⟩)
  · exact .inl ⟨hodd, decode_of_odd hodd⟩

theorem decode_eq_invalidChar_iff {text : String} {c : Char} {offset : Nat} :
    decode text = .error (.invalidChar c offset)
      ↔ text.utf8ByteSize % 2 = 0 ∧ FirstInvalid text c offset := by
  refine ⟨fun h => ?_, fun ⟨heven, hfirst⟩ => decode_of_firstInvalid heven hfirst⟩
  rcases decode_cases text with ⟨-, htold⟩ | ⟨heven, d, n, hfirst, htold⟩ | ⟨-, ds, -, -, htold⟩ <;>
    rw [h] at htold
  · exact absurd htold (by simp)
  · cases htold
    exact ⟨heven, hfirst⟩
  · exact absurd htold (by simp)

theorem decode_eq_oddLength_iff {text : String} {n : Nat} :
    decode text = .error (.oddLength n) ↔ text.utf8ByteSize % 2 = 1 ∧ n = text.utf8ByteSize := by
  refine ⟨fun h => ?_, fun ⟨hodd, hn⟩ => hn ▸ decode_of_odd hodd⟩
  rcases decode_cases text with ⟨hodd, htold⟩ | ⟨-, d, m, -, htold⟩ | ⟨-, ds, -, -, htold⟩ <;>
    rw [h] at htold
  · cases htold
    exact ⟨hodd, rfl⟩
  · exact absurd htold (by simp)
  · exact absurd htold (by simp)

/-! ## Decoding the bytes -/

theorem findIdx?_of_firstInvalid {text : String} {c : Char} {offset : Nat}
    (h : FirstInvalid text c offset) :
    (Utf8.encode text).findIdx? (fun b => !(nibble? b).isSome) = some offset := by
  obtain ⟨before, after, rfl, hbefore, hc, rfl⟩ := h
  refine reflects_digit?.findIdx?_encode ?_ ?_ after
  · exact List.all_eq_true.2 fun d hd => isSome_digit?_iff.2 (hbefore d hd)
  · exact Bool.eq_false_iff.2 fun hsome => hc (isSome_digit?_iff.1 hsome)

theorem suffixAt?_of_firstInvalid {text : String} {c : Char} {offset : Nat}
    (h : FirstInvalid text c offset) :
    ∃ after, Text.suffixAt? text offset = some (String.singleton c ++ after) := by
  obtain ⟨before, after, rfl, -, -, rfl⟩ := h
  exact ⟨after, by rw [String.append_assoc, Text.suffixAt?_append]⟩

theorem joinNibbles_digits (blank : UInt8) {ds : List Nat} (h : ∀ d ∈ ds, d < 16) :
    joinNibbles blank (ds.map digitByte) = joinPairs ds := by
  have hjoin : ∀ high < 16, ∀ low < 16,
      UInt8.ofNat high <<< 4 ||| UInt8.ofNat low = UInt8.ofNat (16 * high + low) := by decide
  induction ds using joinPairs.induct with
  | case1 high low rest ih =>
      obtain ⟨hhigh, hlater⟩ := List.forall_mem_cons.1 h
      obtain ⟨hlow, hrest⟩ := List.forall_mem_cons.1 hlater
      rw [List.map_cons, List.map_cons, joinNibbles, nibble?_digitByte hhigh,
        nibble?_digitByte hlow, Option.getD_some, Option.getD_some, hjoin high hhigh low hlow,
        ih hrest, joinPairs]
  | case2 ds hshort =>
      rcases ds with _ | ⟨high, _ | ⟨low, rest⟩⟩
      · rfl
      · rfl
      · exact absurd rfl (hshort high low rest)

theorem decodeBytes?_eq (missing : Char) (blank : UInt8) (text : String) :
    decodeBytes? missing blank text = some (decode text) := by
  unfold decodeBytes?
  simp only [Utf8.length_encode]
  rcases decode_cases text with ⟨hodd, htold⟩ | ⟨heven, c, offset, hfirst, htold⟩ |
    ⟨heven, ds, htext, hsmall, htold⟩ <;> rw [htold]
  · rw [if_pos hodd]
  · obtain ⟨after, hafter⟩ := suffixAt?_of_firstInvalid hfirst
    rw [if_neg (by omega), findIdx?_of_firstInvalid hfirst]
    simp [hafter]
  · have hnone : (Utf8.encode text).findIdx? (fun b => !(nibble? b).isSome) = none := by
      rw [htext, encode_digits hsmall, List.findIdx?_eq_none_iff]
      intro b hb
      obtain ⟨d, hd, rfl⟩ := List.mem_map.1 hb
      rw [nibble?_digitByte (hsmall d hd)]
      rfl
    rw [if_neg (by omega), hnone]
    simp only [htext, encode_digits hsmall, joinNibbles_digits blank hsmall]

/-! ## What decoding does -/

/-- Decoding and writing are inverse to each other. A text is decoded exactly if its bytes are an
even number of bytes of digits, so that no other character is ever let through, and then to half as
many bytes, which are written as that text and as no other. -/
theorem decode_is_inverse :
    (∀ bytes, decode (encode bytes) = .ok bytes) ∧
    (∀ text, (∃ bytes, decode text = .ok bytes) ↔
      text.utf8ByteSize % 2 = 0 ∧ ∀ b ∈ Utf8.encode text, IsDigitByte b) ∧
    (∀ text bytes, decode text = .ok bytes →
      bytes.length = text.utf8ByteSize / 2 ∧ encode bytes = text) ∧
    (∀ text other bytes, decode text = .ok bytes → decode other = .ok bytes → text = other) ∧
    ∀ text, (∃ c ∈ text.toList, c ∉ alphabet) → ∀ bytes, decode text ≠ .ok bytes := by
  refine ⟨decode_encode, fun text => ?_, fun text bytes h => ⟨?_, encode_of_decode h⟩, ?_, ?_⟩
  · rw [decode_isOk_iff, forall_mem_alphabet_iff]
  · have hsize := utf8ByteSize_encode bytes
    rw [encode_of_decode h] at hsize
    omega
  · intro text other bytes htext hother
    exact (encode_of_decode htext).symm.trans (encode_of_decode hother)
  · rintro text ⟨c, hc, hinvalid⟩ bytes h
    obtain ⟨-, hdigits⟩ := (decode_isOk_iff text).1 ⟨bytes, h⟩
    exact hinvalid (hdigits c hc)

/-- A text of odd length is refused with its length, whatever its characters are; any other text
that does not consist of digits is refused with the first character that is none, in full, and the
number of bytes before it. The first byte that is no digit is where that character begins, so a
decoder of bytes can cut the text there and finds the character; and it knows the value of every
byte that it joins. -/
theorem decode_tells_first_fault (text : String) :
    (∀ n, decode text = .error (.oddLength n)
      ↔ text.utf8ByteSize % 2 = 1 ∧ n = text.utf8ByteSize) ∧
    (∀ c offset, decode text = .error (.invalidChar c offset)
      ↔ text.utf8ByteSize % 2 = 0 ∧ FirstInvalid text c offset) ∧
    ((∃ c ∈ text.toList, c ∉ alphabet) → ∃ c offset, FirstInvalid text c offset) ∧
    (∀ c offset, FirstInvalid text c offset →
      (Utf8.encode text).findIdx? (fun b => !(nibble? b).isSome) = some offset ∧
      offset < text.utf8ByteSize ∧ String.Pos.Raw.IsValid text ⟨offset⟩ ∧
      ∃ after, Text.suffixAt? text offset = some (String.singleton c ++ after)) ∧
    (∀ bytes, decode text = .ok bytes → ∀ b ∈ Utf8.encode text, (nibble? b).isSome = true) ∧
    ∀ missing blank, decodeBytes? missing blank text = some (decode text) := by
  refine ⟨fun n => decode_eq_oddLength_iff, fun c offset => decode_eq_invalidChar_iff, ?_, ?_, ?_,
    fun missing blank => decodeBytes?_eq missing blank text⟩
  · rintro ⟨c, hc, hinvalid⟩
    exact (digits_or_firstInvalid text).resolve_left fun hall => hinvalid (hall c hc)
  · intro c offset h
    refine ⟨findIdx?_of_firstInvalid h, ?_, ?_, suffixAt?_of_firstInvalid h⟩
    · obtain ⟨before, after, rfl, -, -, rfl⟩ := h
      have hpos := c.utf8Size_pos
      rw [String.utf8ByteSize_append, String.utf8ByteSize_append, String.utf8ByteSize_singleton]
      omega
    · obtain ⟨before, after, rfl, -, -, rfl⟩ := h
      rw [String.append_assoc]
      exact String.Pos.Raw.isValid_iff_exists_append.2 ⟨before, _, rfl, rfl⟩
  · intro bytes h b hb
    obtain ⟨-, hdigits⟩ := (decode_isOk_iff text).1 ⟨bytes, h⟩
    exact isSome_nibble?_iff.2 (forall_mem_alphabet_iff.1 hdigits b hb)

/-- The character of two bytes is told in full, with the offset of its first byte. -/
example : decode "1é4" = .error (.invalidChar 'é' 1) := by rfl

end Hex

end Valuer
