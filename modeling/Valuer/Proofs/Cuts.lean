import Valuer.Proofs.LineText

set_option autoImplicit false

/-! # Streams that are cut

A stream may end at any byte. Of what was written to it some items are whole (`Holds`), and of the
next one some lines are whole and one is there in part (`Text.exists_cut`). The part is no text if
the cut falls into a character, and else the beginning of what the line says
(`Text.prefix_of_lineText?`): some words are whole, and then comes the beginning of the next one. Of
a number the beginning is a number again, with fewer digits. -/

namespace Valuer

/-! ## Items -/

section Items

variable {α : Type} {encode : α → List UInt8} {n : Nat} {whole lost : List α}

/-- So many bytes hold all of some items and not all of the next one. -/
structure Holds (encode : α → List UInt8) (n : Nat) (whole lost : List α) : Prop where
  fit : (whole.flatMap encode).length ≤ n
  beyond : ∀ a, lost.head? = some a → n < (whole.flatMap encode).length + (encode a).length

theorem Holds.cons {a : α} (hfit : (encode a).length ≤ n)
    (h : Holds encode (n - (encode a).length) whole lost) : Holds encode n (a :: whole) lost := by
  have hlength : ((a :: whole).flatMap encode).length
      = (encode a).length + (whole.flatMap encode).length := by
    rw [List.flatMap_cons, List.length_append]
  constructor
  · have hrest := h.fit
    omega
  · intro b hb
    have hrest := h.beyond b hb
    omega

/-- Any number of bytes holds some of the items. -/
theorem exists_holds (encode : α → List UInt8) (n : Nat) (items : List α) :
    ∃ whole lost, items = whole ++ lost ∧ Holds encode n whole lost := by
  induction items generalizing n with
  | nil => exact ⟨[], [], rfl, Nat.zero_le n, by simp⟩
  | cons a rest ih =>
      by_cases hfit : (encode a).length ≤ n
      · obtain ⟨whole, lost, rfl, hholds⟩ := ih (n - (encode a).length)
        exact ⟨a :: whole, lost, rfl, hholds.cons hfit⟩
      · refine ⟨[], a :: rest, rfl, Nat.zero_le n, fun b hb => ?_⟩
        obtain rfl := Option.some.inj hb
        have hempty : (([] : List α).flatMap encode).length = 0 := rfl
        omega

/-- A cut leaves the items that are held, and of the next one some bytes but not all. -/
theorem Holds.take_flatMap (h : Holds encode n whole lost) :
    ((whole ++ lost).flatMap encode).take n = whole.flatMap encode ++
      (lost.head?.toList.flatMap encode).take (n - (whole.flatMap encode).length) := by
  rw [List.flatMap_append, List.take_append, List.take_of_length_le h.fit]
  congr 1
  cases lost with
  | nil => rfl
  | cons a rest =>
      have hbeyond := h.beyond a rfl
      rw [List.head?_cons, Option.toList_some, List.flatMap_cons, List.flatMap_singleton,
        List.take_append_of_le_length (by omega)]

end Items

/-! ## Texts -/

namespace Utf8

/-- The first character of a text is known from its first bytes. -/
theorem eq_of_encodeChar_append {c d : Char} {bs cs : List UInt8}
    (h : String.utf8EncodeChar c ++ bs = String.utf8EncodeChar d ++ cs) : c = d := by
  have hc := ByteArray.utf8DecodeChar?_utf8EncodeChar_append (b := bs.toByteArray) (c := c)
  have hd := ByteArray.utf8DecodeChar?_utf8EncodeChar_append (b := cs.toByteArray) (c := d)
  rw [← List.toByteArray_append, h, List.toByteArray_append, hd] at hc
  exact (Option.some.inj hc).symm

theorem prefix_of_flatMap_prefix {cs ds : List Char}
    (h : cs.flatMap String.utf8EncodeChar <+: ds.flatMap String.utf8EncodeChar) : cs <+: ds := by
  induction cs generalizing ds with
  | nil => exact List.nil_prefix
  | cons c cs ih =>
      obtain ⟨rest, hrest⟩ := h
      rw [List.flatMap_cons, List.append_assoc] at hrest
      cases ds with
      | nil => exact absurd (List.append_eq_nil_iff.1 hrest).1 (encodeChar_ne_nil c)
      | cons d ds =>
          rw [List.flatMap_cons] at hrest
          obtain rfl := eq_of_encodeChar_append hrest
          exact (List.cons_prefix_cons).2 ⟨rfl, ih ⟨rest, List.append_cancel_left hrest⟩⟩

/-- The beginning of the bytes of a text is the beginning of the text, if it is a text. -/
theorem prefix_of_decode? {s t : String} {part : List UInt8} (hpart : part <+: encode s)
    (h : decode? part = some t) : t.toList <+: s.toList := by
  obtain rfl := decode?_eq_some_iff.1 h
  refine prefix_of_flatMap_prefix ?_
  rw [← encode_ofList, ← encode_ofList, String.ofList_toList, String.ofList_toList]
  exact hpart

end Utf8

namespace Text

/-! ## Lines -/

/-- A cut leaves some lines whole and a part of the next one, which may be all of it but its line
feed. -/
theorem exists_cut {ls : List Line} {n : Nat} (h : n < (unlines ls).length) :
    ∃ before line after part, ls = before ++ line :: after ∧ part <+: line ∧
      (unlines ls).take n = unlines before ++ part := by
  induction ls generalizing n with
  | nil => exact absurd h (Nat.not_lt_zero n)
  | cons line ls ih =>
      have hcons : unlines (line :: ls) = (line ++ [lineFeed]) ++ unlines ls := List.flatMap_cons
      by_cases hshort : n ≤ line.length
      · refine ⟨[], line, ls, line.take n, rfl, List.take_prefix .., ?_⟩
        rw [hcons, List.append_assoc, List.take_append_of_le_length hshort]
        rfl
      · have hlength : (line ++ [lineFeed]).length = line.length + 1 := List.length_append
        have hlater : n - (line.length + 1) < (unlines ls).length := by
          rw [hcons, List.length_append, hlength] at h
          omega
        obtain ⟨before, next, after, part, rfl, hpart, hcut⟩ := ih hlater
        refine ⟨line :: before, next, after, part, rfl, hpart, ?_⟩
        have hwhole : (line ++ [lineFeed]).take n = line ++ [lineFeed] :=
          List.take_of_length_le (by omega)
        rw [hcons, List.take_append, hwhole, hlength, hcut, ← List.append_assoc]
        rfl

/-- Only the last line feed is missing exactly if the cut falls in front of it. -/
theorem append_lineFeed_eq_unlines_iff {before after : List Line} {line part : Line}
    (hpart : part <+: line) :
    unlines before ++ part ++ [lineFeed] = unlines (before ++ line :: after) ↔
      after = [] ∧ part = line := by
  have hsplit : unlines (before ++ line :: after)
      = unlines before ++ (line ++ [lineFeed] ++ unlines after) := by
    rw [unlines, List.flatMap_append, List.flatMap_cons]
    rfl
  rw [hsplit, List.append_assoc, List.append_cancel_left_eq]
  constructor
  · intro h
    have hlength := congrArg List.length h
    have hshort := hpart.length_le
    simp only [List.length_append, List.length_singleton] at hlength
    have hwhole : part = line := hpart.eq_of_length (by omega)
    cases after with
    | nil => exact ⟨rfl, hwhole⟩
    | cons next after =>
        have hmore : (unlines (next :: after)).length
            = next.length + 1 + (unlines after).length := by
          rw [unlines, List.flatMap_cons, List.length_append, List.length_append]
          rfl
        omega
  · rintro ⟨rfl, rfl⟩
    exact (List.append_nil _).symm

/-- What a part of a line adds to the lines of a stream: a line, unless it is empty. -/
def remains (part : Line) : List Line :=
  if part = [] then [] else [part]

/-- The lines of a stream that was cut. -/
theorem lines_cut {before : List Line} {line part : Line} (hbefore : ∀ l ∈ before, lineFeed ∉ l)
    (hline : lineFeed ∉ line) (hpart : part <+: line) :
    lines (unlines before ++ part) = before ++ remains part := by
  rw [lines_unlines_append hbefore, remains]
  split
  · next hnone => rw [hnone, lines_nil]
  · next hsome => rw [lines_of_not_mem (fun hmem => hline (hpart.subset hmem)) hsome]

/-- A part of an unbroken line has no line break to be taken off. -/
theorem decode?_of_lineText? {s t : String} (hs : Unbroken s) {part : Line}
    (hpart : part <+: Utf8.encode s) (h : lineText? part = some t) : Utf8.decode? part = some t := by
  obtain ⟨u, hu, rfl⟩ := Option.map_eq_some_iff.1 h
  have hclean : '\r' ∉ u.toList := fun hmem => hs.2 ((Utf8.prefix_of_decode? hpart hu).subset hmem)
  rw [hu, trimEnd_of_not_mem hclean, String.ofList_toList]

/-- What is read of a part of a line is the beginning of the line. -/
theorem prefix_of_lineText? {s t : String} (hs : Unbroken s) {part : Line}
    (hpart : part <+: Utf8.encode s) (h : lineText? part = some t) : t.toList <+: s.toList :=
  Utf8.prefix_of_decode? hpart (decode?_of_lineText? hs hpart h)

/-! ## Words -/

theorem unwords_cons (w : String) {rest : List String} (hne : rest ≠ []) :
    unwords (w :: rest) = unwords [w, unwords rest] := by
  rw [← String.toList_inj, toList_unwords_cons w hne, toList_unwords_cons w (List.cons_ne_nil _ _),
    unwords_singleton]

/-- The beginning of a line of words is that of its first word, or goes on after it. -/
theorem prefix_unwords_cons {s w : String} {rest : List String} (hne : rest ≠ [])
    (h : s.toList <+: (unwords (w :: rest)).toList) :
    s.toList <+: w.toList ∨
      ∃ t : String, t.toList <+: (unwords rest).toList ∧ s = unwords [w, t] := by
  rw [toList_unwords_cons w hne] at h
  rcases List.prefix_or_prefix_of_prefix h (List.prefix_append ..) with hshort | ⟨more, hmore⟩
  · exact .inl hshort
  · rw [← hmore, List.prefix_append_right_inj] at h
    cases more with
    | nil => exact .inl ⟨[], by rw [← hmore, List.append_nil, List.append_nil]⟩
    | cons c cs =>
        obtain ⟨rfl, hcs⟩ := List.cons_prefix_cons.1 h
        refine .inr ⟨String.ofList cs, by rwa [String.toList_ofList], ?_⟩
        rw [← String.toList_inj, toList_unwords_cons w (List.cons_ne_nil _ _), unwords_singleton,
          String.toList_ofList, hmore]

/-! ## Numbers -/

/-- The leading digits of a number are the digits of a number. -/
theorem exists_toDigits_of_prefix {n : Nat} {ds : List Char} (h : ds <+: Nat.toDigits 10 n)
    (hne : ds ≠ []) : ∃ m, m ≤ n ∧ ds = Nat.toDigits 10 m := by
  induction n using Nat.strongRecOn with
  | ind n ih =>
      by_cases hsmall : n < 10
      · rw [Nat.toDigits_of_lt_base hsmall] at h
        obtain ⟨more, hmore⟩ := h
        cases ds with
        | nil => exact absurd rfl hne
        | cons d ds =>
            rw [List.cons_append, List.cons.injEq, List.append_eq_nil_iff] at hmore
            obtain ⟨rfl, rfl, -⟩ := hmore
            exact ⟨n, Nat.le_refl n, (Nat.toDigits_of_lt_base hsmall).symm⟩
      · -- the digits of a larger number are those of its tenth and one more
        have hdigits := Nat.toDigits_of_base_le (by decide) (Nat.le_of_not_lt hsmall)
        rw [hdigits, List.prefix_concat_iff] at h
        rcases h with rfl | hshort
        · exact ⟨n, Nat.le_refl n, hdigits.symm⟩
        · obtain ⟨m, hm, hds⟩ := ih (n / 10) (by omega) hshort
          exact ⟨m, by omega, hds⟩

/-- A number that is read of the beginning of a number has the digits that are left of it. -/
theorem decimal_of_word?_of_prefix {n k : UInt32} {s : String}
    (h : s.toList <+: (decimal n.toNat).toList) (hk : word? s = some k) :
    decimal k.toNat = s := by
  have hne : s.toList ≠ [] := by
    intro hnil
    have hempty : word? "" = none := by decide
    rw [String.toList_inj.1 (hnil.trans String.toList_empty.symm), hempty] at hk
    exact absurd hk (by simp)
  rw [toList_decimal] at h
  obtain ⟨m, hm, hdigits⟩ := exists_toDigits_of_prefix h hne
  have hs : s = decimal m := by rw [← String.toList_inj, toList_decimal, hdigits]
  have hsmall : m < UInt32.size := Nat.lt_of_le_of_lt hm n.toNat_lt_size
  have hvalue : (UInt32.ofNat m).toNat = m := UInt32.toNat_ofNat_of_lt' hsmall
  rw [hs, word?, natBelow?_decimal hsmall, Option.map_some, Option.some.injEq] at hk
  rw [hs, ← hk, hvalue]

end Text

end Valuer
