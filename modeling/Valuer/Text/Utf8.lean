set_option autoImplicit false

/-! # UTF-8 text in byte lists

Streams and sinks carry bytes; text enters and leaves them as UTF-8. `decode?` accepts exactly the
encodings of texts, so the two functions are inverse to each other (`decode?_eq_some_iff`). -/

namespace Valuer

namespace Utf8

/-- The bytes of a text. -/
def encode (s : String) : List UInt8 :=
  s.toUTF8.data.toList

/-- The text that the bytes spell, if they are UTF-8. -/
def decode? (bs : List UInt8) : Option String :=
  String.fromUTF8? bs.toByteArray

theorem toByteArray_encode (s : String) : (encode s).toByteArray = s.toByteArray := by
  apply ByteArray.ext
  simp [encode, String.toUTF8_eq_toByteArray, List.data_toByteArray]

theorem decode?_eq_some_iff {bs : List UInt8} {s : String} :
    decode? bs = some s ↔ bs = encode s := by
  unfold decode? String.fromUTF8?
  split
  · next h =>
      rw [Option.some.injEq, ← String.toByteArray_inj]
      constructor
      · intro hs
        have hb : bs.toByteArray = s.toByteArray := hs
        rw [← toByteArray_encode, List.toByteArray_inj] at hb
        exact hb
      · rintro rfl
        exact toByteArray_encode s
  · next h =>
      simp only [reduceCtorEq, false_iff]
      rintro rfl
      rw [toByteArray_encode] at h
      exact h s.isValidUTF8

theorem decode?_encode (s : String) : decode? (encode s) = some s :=
  decode?_eq_some_iff.2 rfl

theorem encode_append (s t : String) : encode (s ++ t) = encode s ++ encode t := by
  simp [encode, String.toUTF8_eq_toByteArray]

theorem encode_ofList (cs : List Char) :
    encode (String.ofList cs) = cs.flatMap String.utf8EncodeChar := by
  simp [encode, String.toUTF8_eq_toByteArray, String.toByteArray_ofList, List.utf8Encode,
    List.data_toByteArray]

end Utf8

/-! ## Cuts between characters -/

/-- The rest of a text from a byte offset on. There is none from inside a character, nor from beyond
the end. -/
def Text.suffixAt? (text : String) (offset : Nat) : Option String :=
  if h : String.Pos.Raw.IsValid text ⟨offset⟩ then some (text.sliceFrom (text.pos ⟨offset⟩ h)).copy
  else none

/-- A text can be cut behind any of its beginnings. -/
theorem Text.suffixAt?_append (before after : String) :
    suffixAt? (before ++ after) before.utf8ByteSize = some after := by
  have hvalid : String.Pos.Raw.IsValid (before ++ after) ⟨before.utf8ByteSize⟩ :=
    String.Pos.Raw.isValid_iff_exists_append.2 ⟨before, after, rfl, rfl⟩
  have hsplits : ((before ++ after).pos ⟨before.utf8ByteSize⟩ hvalid).Splits before after :=
    ⟨rfl, rfl⟩
  rw [suffixAt?, dif_pos hvalid, Option.some.injEq]
  exact (String.Pos.splits _).eq_right hsplits

end Valuer
