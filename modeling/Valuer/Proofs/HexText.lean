import Valuer.Hex

set_option autoImplicit false

/-! # Hexadecimal text

What `Hex.encode` writes consists of lower-case digits alone, two for each byte, so it stays one
word of a line, and `Hex.decode` reads the same bytes back. It reads any text of lower-case digits
whose length is even, and no other (`decode_isOk_iff`). -/

namespace Valuer.Hex

/-! ## Digits -/

/-- The digits that a half byte can have. -/
def alphabet : List Char :=
  ['0', '1', '2', '3', '4', '5', '6', '7', '8', '9', 'a', 'b', 'c', 'd', 'e', 'f']

theorem digitChar_mem_alphabet {n : Nat} (h : n < 16) : Nat.digitChar n ∈ alphabet := by
  have hall : ∀ n < 16, Nat.digitChar n ∈ alphabet := by decide
  exact hall n h

theorem digit?_digitChar {n : Nat} (h : n < 16) : digit? (Nat.digitChar n) = some n := by
  have hall : ∀ n < 16, digit? (Nat.digitChar n) = some n := by decide
  exact hall n h

theorem utf8Size_digitChar {n : Nat} (h : n < 16) : (Nat.digitChar n).utf8Size = 1 := by
  have hall : ∀ n < 16, (Nat.digitChar n).utf8Size = 1 := by decide
  exact hall n h

/-- Both halves of a byte are below sixteen. -/
theorem halves_lt (b : UInt8) : b.toNat / 16 < 16 ∧ b.toNat % 16 < 16 := by
  have hb : b.toNat < 256 := b.toNat_lt_size
  omega

/-! ## What is written -/

theorem toList_encode (bytes : List UInt8) : (encode bytes).toList = bytes.flatMap digitPair := by
  simp [encode]

/-- A hexadecimal text holds nothing but digits. -/
theorem mem_alphabet_of_mem_encode {bytes : List UInt8} {c : Char}
    (h : c ∈ (encode bytes).toList) : c ∈ alphabet := by
  rw [toList_encode] at h
  obtain ⟨b, -, hc⟩ := List.mem_flatMap.1 h
  obtain ⟨hhigh, hlow⟩ := halves_lt b
  simp only [digitPair, List.mem_cons, List.not_mem_nil, or_false] at hc
  rcases hc with rfl | rfl
  · exact digitChar_mem_alphabet hhigh
  · exact digitChar_mem_alphabet hlow

/-- Every digit takes one byte. -/
theorem utf8ByteSize_ofList_digits {ds : List Nat} (h : ∀ d ∈ ds, d < 16) :
    (String.ofList (ds.map Nat.digitChar)).utf8ByteSize = ds.length := by
  induction ds with
  | nil => rfl
  | cons d ds ih =>
      obtain ⟨hd, hds⟩ := List.forall_mem_cons.1 h
      have hcut : String.ofList ((d :: ds).map Nat.digitChar)
          = String.singleton (Nat.digitChar d) ++ String.ofList (ds.map Nat.digitChar) := by
        apply String.toList_inj.1
        simp
      rw [hcut, String.utf8ByteSize_append, String.utf8ByteSize_singleton, utf8Size_digitChar hd,
        ih hds, List.length_cons]
      omega

/-- The halves of bytes, high half first. -/
def halves (bytes : List UInt8) : List Nat :=
  bytes.flatMap fun b => [b.toNat / 16, b.toNat % 16]

theorem lt_of_mem_halves {bytes : List UInt8} {d : Nat} (h : d ∈ halves bytes) : d < 16 := by
  obtain ⟨b, -, hd⟩ := List.mem_flatMap.1 h
  obtain ⟨hhigh, hlow⟩ := halves_lt b
  simp only [List.mem_cons, List.not_mem_nil, or_false] at hd
  rcases hd with rfl | rfl <;> assumption

theorem encode_eq (bytes : List UInt8) :
    encode bytes = String.ofList ((halves bytes).map Nat.digitChar) := by
  rw [encode, halves, List.map_flatMap]
  rfl

theorem length_halves (bytes : List UInt8) : (halves bytes).length = 2 * bytes.length := by
  induction bytes with
  | nil => rfl
  | cons b rest ih =>
      have hcut : halves (b :: rest) = [b.toNat / 16, b.toNat % 16] ++ halves rest := rfl
      rw [hcut, List.length_append, ih, List.length_cons]
      simp only [List.length_cons, List.length_nil]
      omega

/-- Every byte takes two digits of one byte each. -/
theorem utf8ByteSize_encode (bytes : List UInt8) :
    (encode bytes).utf8ByteSize = 2 * bytes.length := by
  rw [encode_eq, utf8ByteSize_ofList_digits fun _ => lt_of_mem_halves, length_halves]

/-! ## Reading back -/

/-- The values of the digits of a list of bytes are the halves of the bytes. -/
theorem digits_flatMap_digitPair (offset : Nat) (bytes : List UInt8) :
    digits offset (bytes.flatMap digitPair) = .ok (halves bytes) := by
  induction bytes generalizing offset with
  | nil => rfl
  | cons b rest ih =>
      obtain ⟨hhigh, hlow⟩ := halves_lt b
      simp [halves, digitPair, digits, digit?_digitChar hhigh, digit?_digitChar hlow, ih,
        Except.map]

/-- Joining the halves of bytes gives the bytes. -/
theorem joinPairs_halves (bytes : List UInt8) : joinPairs (halves bytes) = bytes := by
  induction bytes with
  | nil => rfl
  | cons b rest ih =>
      have hwhole : 16 * (b.toNat / 16) + b.toNat % 16 = b.toNat := Nat.div_add_mod b.toNat 16
      have hjoin : joinPairs (halves (b :: rest))
          = UInt8.ofNat (16 * (b.toNat / 16) + b.toNat % 16) :: joinPairs (halves rest) := rfl
      rw [hjoin, hwhole, UInt8.ofNat_toNat, ih]

/-- What is written is read back. -/
theorem decode_encode (bytes : List UInt8) : decode (encode bytes) = .ok bytes := by
  have heven : ¬ (encode bytes).utf8ByteSize % 2 = 1 := by
    rw [utf8ByteSize_encode]
    omega
  rw [decode, if_neg heven, toList_encode, digits_flatMap_digitPair]
  exact congrArg Except.ok (joinPairs_halves bytes)

/-! ## What can be read -/

theorem mem_alphabet_of_digit? {c : Char} {d : Nat} (h : digit? c = some d) : c ∈ alphabet := by
  have hdecimal : ∀ n < 58, 48 ≤ n → Char.ofNat n ∈ alphabet := by decide
  have hletter : ∀ n < 103, 97 ≤ n → Char.ofNat n ∈ alphabet := by decide
  unfold digit? at h
  rw [← Char.ofNat_toNat c]
  split at h
  · next hrange =>
      obtain ⟨hlow, hhigh⟩ := hrange
      exact hdecimal _ (Nat.lt_succ_of_le hhigh) hlow
  · split at h
    · next hrange =>
        obtain ⟨hlow, hhigh⟩ := hrange
        exact hletter _ (Nat.lt_succ_of_le hhigh) hlow
    · exact absurd h (by simp)

/-- A digit has the value that it is written for. -/
theorem digitChar_of_digit? {c : Char} {d : Nat} (h : digit? c = some d) :
    d < 16 ∧ Nat.digitChar d = c := by
  have hall : alphabet.all (fun c => (digit? c).all fun d => d < 16 && Nat.digitChar d == c)
      = true := by decide
  have hc := List.all_eq_true.1 hall c (mem_alphabet_of_digit? h)
  rw [h, Option.all_some, Bool.and_eq_true, decide_eq_true_eq, beq_iff_eq] at hc
  exact hc

theorem isSome_digit?_iff {c : Char} : (digit? c).isSome ↔ c ∈ alphabet := by
  constructor
  · intro h
    obtain ⟨d, hd⟩ := Option.isSome_iff_exists.1 h
    exact mem_alphabet_of_digit? hd
  · have hall : alphabet.all (fun c => (digit? c).isSome) = true := by decide
    exact List.all_eq_true.1 hall c

theorem digits_isOk_iff (offset : Nat) (cs : List Char) :
    (∃ ds, digits offset cs = .ok ds) ↔ ∀ c ∈ cs, c ∈ alphabet := by
  induction cs generalizing offset with
  | nil => simp [digits]
  | cons c cs ih =>
      rw [List.forall_mem_cons, ← ih (offset + c.utf8Size), ← isSome_digit?_iff, digits]
      cases digit? c with
      | none => simp
      | some d => cases digits (offset + c.utf8Size) cs <;> simp [Except.map]

/-- A text can be read exactly if it consists of digits and its length is even. -/
theorem decode_isOk_iff (text : String) :
    (∃ bytes, decode text = .ok bytes)
      ↔ text.utf8ByteSize % 2 = 0 ∧ ∀ c ∈ text.toList, c ∈ alphabet := by
  unfold decode
  split
  · next hodd => simp [hodd]
  · next heven =>
      have hlength : text.utf8ByteSize % 2 = 0 := by omega
      rw [← digits_isOk_iff 0, and_iff_right hlength]
      cases digits 0 text.toList <;> simp [Except.map]

/-! ## One text for each list of bytes -/

theorem digits_eq_ok {offset : Nat} {cs : List Char} {ds : List Nat}
    (h : digits offset cs = .ok ds) : cs = ds.map Nat.digitChar ∧ ∀ d ∈ ds, d < 16 := by
  induction cs generalizing offset ds with
  | nil =>
      cases h
      exact ⟨rfl, List.forall_mem_nil _⟩
  | cons c cs ih =>
      rw [digits] at h
      cases hc : digit? c with
      | none => simp [hc] at h
      | some d =>
          simp only [hc] at h
          cases hrest : digits (offset + c.utf8Size) cs with
          | error fault => simp [hrest, Except.map] at h
          | ok rest =>
              rw [hrest] at h
              cases h
              obtain ⟨hd, hchar⟩ := digitChar_of_digit? hc
              obtain ⟨hcs, hall⟩ := ih hrest
              exact ⟨by rw [List.map_cons, hchar, ← hcs], List.forall_mem_cons.2 ⟨hd, hall⟩⟩

/-- The halves of joined pairs are the pairs. -/
theorem halves_joinPairs {ds : List Nat} (hall : ∀ d ∈ ds, d < 16) (heven : ds.length % 2 = 0) :
    halves (joinPairs ds) = ds := by
  induction ds using joinPairs.induct with
  | case1 high low rest ih =>
      obtain ⟨hhigh, hlater⟩ := List.forall_mem_cons.1 hall
      obtain ⟨hlow, hrest⟩ := List.forall_mem_cons.1 hlater
      simp only [List.length_cons] at heven
      have hbyte : (UInt8.ofNat (16 * high + low)).toNat = 16 * high + low :=
        UInt8.toNat_ofNat_of_lt' (by have hsize : UInt8.size = 256 := rfl; omega)
      have hfirst : (16 * high + low) / 16 = high := by omega
      have hsecond : (16 * high + low) % 16 = low := by omega
      have hhalves : halves (joinPairs (high :: low :: rest))
          = (UInt8.ofNat (16 * high + low)).toNat / 16
            :: (UInt8.ofNat (16 * high + low)).toNat % 16 :: halves (joinPairs rest) := rfl
      rw [hhalves, hbyte, hfirst, hsecond, ih hrest (by omega)]
  | case2 ds hshort =>
      -- one digit alone is no pair
      match ds with
      | [] => rfl
      | [_] => simp at heven
      | high :: low :: rest => exact absurd rfl (hshort high low rest)

/-- What can be read is what is written for its bytes. -/
theorem encode_of_decode {text : String} {bytes : List UInt8} (h : decode text = .ok bytes) :
    encode bytes = text := by
  unfold decode at h
  split at h
  · exact absurd h (by simp)
  · next heven =>
      cases hdigits : digits 0 text.toList with
      | error fault => simp [hdigits, Except.map] at h
      | ok ds =>
          rw [hdigits] at h
          cases h
          obtain ⟨hchars, hall⟩ := digits_eq_ok hdigits
          have htext : text = String.ofList (ds.map Nat.digitChar) := by
            rw [← hchars, String.ofList_toList]
          rw [htext, utf8ByteSize_ofList_digits hall] at heven
          rw [htext, encode_eq, halves_joinPairs hall (by omega)]

end Valuer.Hex
