import Valuer.Proofs.Launching
import Valuer.Proofs.NumberText

set_option autoImplicit false

/-! # The number of tests of a launch

What comes of a launch for each text in the variable that holds the number of tests, when nothing
else is wrong with it (`Launch.count_outcomes`). The number passes through 64 bits before it is
judged, so an integer that does not fit there is told as no integer, however plain it is written
(`Launch.huge_count_is_told_as_no_integer`). -/

namespace Valuer

/-! ## Leaving out a variable -/

namespace Environment

/-- The variables but one. -/
def without (env : Environment) (name : String) : Environment := fun other =>
  if other = name then none else env other

variable {env : Environment} {name other : String}

theorem without_of_ne (h : other ≠ name) : env.without name other = env other :=
  if_neg h

theorem number?_without (h : other ≠ name) :
    (env.without name).number? other = env.number? other := by
  rw [number?, without_of_ne h, number?]

end Environment

namespace Launch

variable {env : Environment} {table : DescriptorTable}

/-- A launch that would be possible without a number of tests is judged by that number alone. -/
theorem firstFault?_of_possible (h : Possible (env.without countVar) table) :
    firstFault? env table = countFault? env := by
  obtain ⟨⟨input, hinput, hread⟩, ⟨output, houtput, hwrite⟩, hdifferent, -, hseed⟩ := h
  have hin : inputVar ≠ countVar := by decide
  have hout : outputVar ≠ countVar := by decide
  rw [Environment.number?_without hin] at hinput hdifferent
  rw [Environment.number?_without hout] at houtput hdifferent
  rw [Environment.without_of_ne (by decide)] at hseed
  simp only [firstFault?, faults, findSome?_id_cons, List.findSome?_nil,
    Environment.numberFault?_eq_none_iff.2 ⟨input, hinput⟩,
    Environment.numberFault?_eq_none_iff.2 ⟨output, houtput⟩, sharedFault?, if_neg hdifferent,
    seedFault?_eq_none_iff.2 hseed, (Environment.descriptorFault?_eq_none_iff hinput).2 hread,
    (Environment.descriptorFault?_eq_none_iff houtput).2 hwrite, Option.none_or, Option.or_none]

/-! ## What comes of a text -/

variable {value : String} {n : Int}

/-- An integer that fits in 64 bits is judged by its range. -/
theorem countFault?_of_inWord (hvalue : env countVar = some value)
    (hn : Text.IsInteger value n) (hfits : Text.InWord n) :
    countFault? env = rangeFault? n := by
  have hnumber := (Environment.number?_eq_some_iff hvalue).2 ⟨hn, hfits⟩
  rw [countFault?, if_neg (by simp [hvalue]),
    Environment.numberFault?_eq_none_iff.2 ⟨n, hnumber⟩, hnumber, Option.none_or, Option.bind_some]

/-- A text that is no integer of 64 bits is told as it stands. -/
theorem countFault?_of_not_inWord (hvalue : env countVar = some value)
    (hno : ∀ n, Text.IsInteger value n → ¬ Text.InWord n) :
    countFault? env = some (.notInteger countVar value) := by
  have hnumber : env.number? countVar = none := by
    rw [Option.eq_none_iff_forall_ne_some]
    intro n hsome
    obtain ⟨hn, hfits⟩ := (Environment.number?_eq_some_iff hvalue).1 hsome
    exact hno n hn hfits
  have hread : Text.int? (Text.trim value) = none := by
    rwa [Environment.number?, hvalue, Option.bind_some] at hnumber
  rw [countFault?, if_neg (by simp [hvalue]), Environment.numberFault?, hvalue]
  simp only [hread, Option.some_or]

theorem rangeFault?_ne_notInteger (n : Int) (name text : String) :
    rangeFault? n ≠ some (.notInteger name text) := by
  unfold rangeFault?
  split
  · simp
  · split <;> simp

/-- A launch that nothing is wrong with has the number of tests that its variable gives. -/
theorem givesCount_of_sound (h : firstFault? env table = none) :
    ∃ l, (take env table).1 = .ok l ∧ GivesCount env l.count := by
  obtain ⟨l, hnames, htake⟩ := take_of_sound h
  exact ⟨l, by rw [htake], hnames.count⟩

/-- A number of tests in range is taken as it is, and minus one as none. -/
theorem take_of_count (hothers : Possible (env.without countVar) table)
    (hvalue : env countVar = some value) (hn : Text.IsInteger value n) (hlow : -1 ≤ n)
    (hhigh : n ≤ 4294967295) :
    ∃ l, (take env table).1 = .ok l ∧
      if n = -1 then l.count = none
      else ∃ count : UInt32, l.count = some count ∧ (count.toNat : Int) = n := by
  have hfits : Text.InWord n := by unfold Text.InWord; omega
  have hnumber := (Environment.number?_eq_some_iff hvalue).2 ⟨hn, hfits⟩
  have hsound : firstFault? env table = none := by
    rw [firstFault?_of_possible hothers, countFault?_of_inWord hvalue hn hfits]
    exact rangeFault?_eq_none_iff.2 ⟨hlow, hhigh⟩
  obtain ⟨l, htake, hcount⟩ := givesCount_of_sound hsound
  refine ⟨l, htake, ?_⟩
  cases hgiven : l.count with
  | none =>
      -- nothing is given only by minus one, as the variable is there
      rw [hgiven, GivesCount, hvalue, hnumber] at hcount
      rcases hcount with habsent | hunknown
      · exact absurd habsent (by simp)
      · rw [if_pos (Option.some.inj hunknown)]
  | some count =>
      rw [hgiven, GivesCount, hnumber, Option.some.injEq] at hcount
      rw [if_neg (by omega)]
      exact ⟨count, rfl, hcount.symm⟩

/-- If nothing else is wrong with a launch, each text in the variable that holds the number of tests
has one outcome. Minus one gives no number and every number of 32 bits gives itself. Other negative
numbers and greater ones are refused as what they are if they fit in 64 bits. Every other text is
told as no integer, and no other is. -/
theorem count_outcomes (env : Environment) (table : DescriptorTable) (value : String)
    (hvalue : env countVar = some value) (hothers : Possible (env.without countVar) table) :
    (∀ n, Text.IsInteger value n →
      (n = -1 → ∃ l, (take env table).1 = .ok l ∧ l.count = none) ∧
      (0 ≤ n → n ≤ 4294967295 → ∃ l, (take env table).1 = .ok l ∧
        ∃ count : UInt32, l.count = some count ∧ (count.toNat : Int) = n) ∧
      (n < -1 → -9223372036854775808 ≤ n →
        (take env table).1 = .error (.negative countVar n)) ∧
      (4294967295 < n → n ≤ 9223372036854775807 →
        (take env table).1 = .error (.tooLarge countVar n)) ∧
      (n < -9223372036854775808 ∨ 9223372036854775807 < n →
        (take env table).1 = .error (.notInteger countVar value))) ∧
    ∀ name text, (take env table).1 = .error (.notInteger name text) ↔
      name = countVar ∧ text = value ∧ ∀ n, Text.IsInteger value n → ¬ Text.InWord n := by
  have hrefused : ∀ e, countFault? env = some e → (take env table).1 = .error e := by
    intro e he
    rw [take_of_fault ((firstFault?_of_possible hothers).trans he)]
  have hnone : (∀ n, Text.IsInteger value n → ¬ Text.InWord n) →
      (take env table).1 = .error (.notInteger countVar value) := fun hno =>
    hrefused _ (countFault?_of_not_inWord hvalue hno)
  have hrange : ∀ n, Text.IsInteger value n → Text.InWord n → ∀ e, rangeFault? n = some e →
      (take env table).1 = .error e := fun n hn hfits e he =>
    hrefused e ((countFault?_of_inWord hvalue hn hfits).trans he)
  refine ⟨fun n hn => ⟨?_, ?_, ?_, ?_, ?_⟩, fun name text => ⟨?_, ?_⟩⟩
  · rintro rfl
    obtain ⟨l, htake, hcount⟩ := take_of_count hothers hvalue hn (by omega) (by omega)
    exact ⟨l, htake, by simpa using hcount⟩
  · intro hlow hhigh
    obtain ⟨l, htake, hcount⟩ := take_of_count hothers hvalue hn (by omega) hhigh
    rw [if_neg (by omega)] at hcount
    exact ⟨l, htake, hcount⟩
  · intro hnegative hlow
    refine hrange n hn ⟨hlow, by omega⟩ _ ?_
    rw [rangeFault?, if_pos hnegative]
  · intro hlarge hhigh
    refine hrange n hn ⟨by omega, hhigh⟩ _ ?_
    rw [rangeFault?, if_neg (by omega), if_pos hlarge]
  · intro hhuge
    refine hnone fun m hm hfits => ?_
    obtain rfl := hn.unique hm
    unfold Text.InWord at hfits
    omega
  · intro htake
    by_cases hno : ∀ n, Text.IsInteger value n → ¬ Text.InWord n
    · rw [hnone hno, Except.error.injEq, Error.notInteger.injEq] at htake
      exact ⟨htake.1.symm, htake.2.symm, hno⟩
    · -- an integer that fits is refused for its range or not at all
      push Not at hno
      obtain ⟨n, hn, hfits⟩ := hno
      have hfault := (firstFault?_of_possible hothers).trans (countFault?_of_inWord hvalue hn hfits)
      cases hjudged : rangeFault? n with
      | none =>
          obtain ⟨l, htaken, -⟩ := givesCount_of_sound (hfault.trans hjudged)
          rw [htaken] at htake
          exact absurd htake (by simp)
      | some e =>
          rw [hrange n hn hfits e hjudged, Except.error.injEq] at htake
          exact absurd (htake ▸ hjudged) (rangeFault?_ne_notInteger n name text)
  · rintro ⟨rfl, rfl, hno⟩
    exact hnone hno

/-- A count with a sign, leading zeros and a line break behind it is the number that it spells. -/
theorem count_outcomes_of_padded_count :
    let env : Environment := fun name =>
      [(inputVar, "7"), (outputVar, "8"), (countVar, " +0042\n")].lookup name
    let table : DescriptorTable := [{ number := 7, mode := .readOnly },
      { number := 8, mode := .writeOnly }]
    env countVar = some " +0042\n" ∧ Possible (env.without countVar) table ∧
      Text.IsInteger " +0042\n" 42 ∧
      ∃ l, (take env table).1 = .ok l ∧ ∃ count : UInt32, l.count = some count ∧
        (count.toNat : Int) = 42 := by
  intro env table
  have hvalue : env countVar = some " +0042\n" := by rfl
  have hothers : Possible (env.without countVar) table := firstFault?_eq_none_iff.1 (by rfl)
  have hspells : Text.IsInteger " +0042\n" 42 := by
    refine ⟨"+0042".toList, ⟨[' '], ['\n'], by decide, List.all_eq_true.1 (by decide),
      List.all_eq_true.1 (by decide)⟩, ?_⟩
    exact .plus (n := 42) ⟨by decide, List.all_eq_true.1 (by decide), by decide⟩
  obtain ⟨houtcome, -⟩ := count_outcomes env table " +0042\n" hvalue hothers
  exact ⟨hvalue, hothers, hspells, (houtcome 42 hspells).2.1 (by decide) (by decide)⟩

/-- The least positive number that does not fit in 64 bits is not told as too large: nothing else is
wrong with the launch, and it is refused because of a text that is said to be no integer. -/
theorem huge_count_is_told_as_no_integer :
    let value := "9223372036854775808"
    let env : Environment := fun name =>
      [(inputVar, "100"), (outputVar, "101"), (countVar, value)].lookup name
    let table : DescriptorTable := [{ number := 100, mode := .readOnly },
      { number := 101, mode := .writeOnly }]
    Possible (env.without countVar) table ∧ Text.IsInteger value 9223372036854775808 ∧
      take env table = (.error (.notInteger countVar value), table) := by
  intro value env table
  have hvalue : env countVar = some value := by rfl
  have hothers : Possible (env.without countVar) table := firstFault?_eq_none_iff.1 (by rfl)
  have hspells : Text.IsInteger value 9223372036854775808 := by
    refine ⟨value.toList, ⟨[], [], by decide, List.forall_mem_nil _, List.forall_mem_nil _⟩, ?_⟩
    exact .bare (n := 9223372036854775808)
      ⟨by decide, List.all_eq_true.1 (by decide), by decide⟩
  have hno : ∀ n, Text.IsInteger value n → ¬ Text.InWord n := by
    intro n hn hfits
    obtain rfl := hn.unique hspells
    exact absurd hfits.2 (by decide)
  have hfault := (firstFault?_of_possible hothers).trans (countFault?_of_not_inWord hvalue hno)
  exact ⟨hothers, hspells, take_of_fault hfault⟩

end Launch

end Valuer
