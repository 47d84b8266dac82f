import Mathlib.Data.List.Nodup
import Mathlib.Order.Bounds.Basic
import Valuer.Config.Document
import Valuer.Text.Numeral

set_option autoImplicit false

/-! # What is wrong with a list of tests

A test offends where it is zero or was listed before (`Config.Offends`), and a list without such a
place is one whose tests can all be run. The check goes through the list once and keeps the tests it
has seen; these are the tests in front of the place it has come to (`Config.Passed`), so it stops at
the first place that offends and blames the test there. A text is refused for what the tests of its
configuration are blamed for, and for nothing else once it spells a configuration
(`Config.check_blames_first_offender`). -/

namespace Valuer

/-- Tests that can be asked for, each once. -/
def Runnable (tests : List UInt32) : Prop :=
  0 ∉ tests ∧ tests.Nodup

namespace Config

variable {tests scanned seen : List UInt32} {test : UInt32} {fault : Fault} {i : Nat}

/-! ## Tests that offend -/

/-- The test at a position is zero, or it is listed at an earlier position too. -/
def Offends (tests : List UInt32) (i : Nat) : Prop :=
  ∃ test, tests[i]? = some test ∧ (test = 0 ∨ ∃ j < i, tests[j]? = some test)

theorem Offends.lt_length (h : Offends tests i) : i < tests.length := by
  obtain ⟨test, htest, -⟩ := h
  exact (List.getElem?_eq_some_iff.1 htest).1

/-- The test behind those that were scanned offends if it is zero or one of them. -/
theorem offends_length_iff (rest : List UInt32) :
    Offends (scanned ++ test :: rest) scanned.length ↔ test = 0 ∨ test ∈ scanned := by
  have hearlier : (∃ j < scanned.length, (scanned ++ test :: rest)[j]? = some test)
      ↔ test ∈ scanned := by
    rw [List.mem_iff_getElem?]
    constructor
    · rintro ⟨j, hj, hsame⟩
      exact ⟨j, by rwa [List.getElem?_append_left hj] at hsame⟩
    · rintro ⟨j, hsame⟩
      have hj : j < scanned.length := (List.getElem?_eq_some_iff.1 hsame).1
      exact ⟨j, hj, by rwa [List.getElem?_append_left hj]⟩
  have hhere : (scanned ++ test :: rest)[scanned.length]? = some test := by simp
  simp only [Offends, hhere, Option.some.injEq, exists_eq_left', hearlier]

/-- Tests can be run if no position of their list offends. -/
theorem runnable_iff_not_offends : Runnable tests ↔ ∀ i, ¬ Offends tests i := by
  constructor
  · rintro ⟨hzero, hnodup⟩ i hoffends
    have hlt := hoffends.lt_length
    obtain ⟨test, htest, rfl | ⟨j, hj, hsame⟩⟩ := hoffends
    · exact hzero (List.mem_of_getElem? htest)
    · have hne := List.nodup_iff_getElem?_ne_getElem?.1 hnodup j i hj hlt
      exact hne (hsame.trans htest.symm)
  · intro hclean
    refine ⟨fun hzero => ?_, List.nodup_iff_getElem?_ne_getElem?.2 fun j i hj hi hsame => ?_⟩
    · obtain ⟨i, htest⟩ := List.mem_iff_getElem?.1 hzero
      exact hclean i ⟨0, htest, .inl rfl⟩
    · have htest : tests[i]? = some tests[i] := List.getElem?_eq_getElem hi
      exact hclean i ⟨tests[i], htest, .inr ⟨j, hj, hsame.trans htest⟩⟩

/-! ## Who is blamed -/

/-- What a test that offends is blamed for. -/
def blame (test : UInt32) : Fault :=
  if test = 0 then .testZero else .listedTwice test

/-- What there is to say against a list of tests: nothing if no position offends, else what the test
at the first one that does is blamed for. -/
inductive Blames (tests : List UInt32) : Option Fault → Prop where
  | nobody (hclean : ∀ i, ¬ Offends tests i) : Blames tests none
  | first {i : Nat} {test : UInt32} (hleast : IsLeast {i | Offends tests i} i)
      (htest : tests[i]? = some test) : Blames tests (some (blame test))

theorem Blames.unique {a b : Option Fault} (h : Blames tests a) (h' : Blames tests b) : a = b := by
  cases h with
  | nobody hclean =>
      cases h' with
      | nobody => rfl
      | first hleast => exact absurd hleast.1 (hclean _)
  | first hleast htest =>
      cases h' with
      | nobody hclean => exact absurd hleast.1 (hclean _)
      | first hleast' htest' =>
          obtain rfl := hleast.unique hleast'
          rw [Option.some.inj (htest.symm.trans htest')]

/-! ## Going through the list -/

/-- The check has let the tests in front pass: they are those it has seen, and none of them offends.
-/
structure Passed (seen scanned rest : List UInt32) : Prop where
  mem_seen_iff : ∀ t, t ∈ seen ↔ t ∈ scanned
  clean : ∀ i < scanned.length, ¬ Offends (scanned ++ rest) i

namespace Passed

variable {rest : List UInt32}

theorem start (tests : List UInt32) : Passed [] [] tests where
  mem_seen_iff _ := Iff.rfl
  clean _ hi := absurd hi (Nat.not_lt_zero _)

/-- What was seen tells whether the next test offends. -/
theorem offends_iff (h : Passed seen scanned (test :: rest)) :
    Offends (scanned ++ test :: rest) scanned.length ↔ test = 0 ∨ test ∈ seen := by
  rw [offends_length_iff, h.mem_seen_iff]

/-- The check goes on behind a test that does not offend. -/
theorem next (h : Passed seen scanned (test :: rest))
    (hpass : ¬ Offends (scanned ++ test :: rest) scanned.length) :
    fault? seen (test :: rest) = fault? (test :: seen) rest ∧
      Passed (test :: seen) (scanned ++ [test]) rest := by
  obtain ⟨hzero, hnew⟩ := not_or.1 (h.offends_iff.not.1 hpass)
  refine ⟨by rw [fault?, if_neg hzero, if_neg hnew], fun t => ?_, fun i hi => ?_⟩
  · rw [List.mem_cons, List.mem_append, List.mem_singleton, h.mem_seen_iff, or_comm]
  · rw [← List.append_cons]
    rw [List.length_append, List.length_singleton] at hi
    rcases Nat.lt_succ_iff_lt_or_eq.1 hi with hlt | rfl
    · exact h.clean i hlt
    · exact hpass

/-- The check stops at a test that offends, and no place in front of it does. -/
theorem stop (h : Passed seen scanned (test :: rest))
    (hoffends : Offends (scanned ++ test :: rest) scanned.length) :
    fault? seen (test :: rest) = some (blame test) ∧
      IsLeast {i | Offends (scanned ++ test :: rest) i} scanned.length := by
  have hfault : fault? seen (test :: rest) = some (blame test) := by
    rw [fault?, blame]
    by_cases hzero : test = 0
    · rw [if_pos hzero, if_pos hzero]
    · rw [if_neg hzero, if_neg hzero, if_pos ((h.offends_iff.1 hoffends).resolve_left hzero)]
  refine ⟨hfault, hoffends, fun i hi => ?_⟩
  exact Nat.le_of_not_lt fun hlt => h.clean i hlt hi

/-- What the check finds in the rest is what there is to say against the whole list. -/
theorem blames (h : Passed seen scanned rest) : Blames (scanned ++ rest) (fault? seen rest) := by
  induction rest generalizing seen scanned with
  | nil =>
      refine .nobody fun i hoffends => h.clean i ?_ hoffends
      simpa using hoffends.lt_length
  | cons test rest ih =>
      by_cases hoffends : Offends (scanned ++ test :: rest) scanned.length
      · obtain ⟨hfault, hleast⟩ := h.stop hoffends
        rw [hfault]
        exact .first hleast (by simp)
      · obtain ⟨hfault, hnext⟩ := h.next hoffends
        rw [hfault, List.append_cons]
        exact ih hnext

end Passed

/-- The fault of a list of tests is what there is to say against it. -/
theorem fault?_eq_iff {verdict : Option Fault} :
    fault? [] tests = verdict ↔ Blames tests verdict := by
  have hblames : Blames tests (fault? [] tests) := (Passed.start tests).blames
  exact ⟨fun h => h ▸ hblames, hblames.unique⟩

theorem fault?_eq_none_iff : fault? [] tests = none ↔ Runnable tests := by
  rw [fault?_eq_iff, runnable_iff_not_offends]
  constructor
  · rintro ⟨hclean⟩
    exact hclean
  · exact .nobody

theorem fault?_eq_some_iff :
    fault? [] tests = some fault
      ↔ ∃ i test, IsLeast {i | Offends tests i} i ∧ tests[i]? = some test ∧ fault = blame test := by
  rw [fault?_eq_iff]
  constructor
  · rintro (_ | ⟨hleast, htest⟩)
    exact ⟨_, _, hleast, htest, rfl⟩
  · rintro ⟨i, test, hleast, htest, rfl⟩
    exact .first hleast htest

/-! ## The check of a configuration -/

/-- A configuration is accepted if every listed test can be run once. -/
theorem check_eq_ok_iff (c : Config) :
    c.check = .ok () ↔ ∀ tests, c.tests = some tests → Runnable tests := by
  rw [check]
  cases htests : c.tests with
  | none => simp
  | some tests =>
      simp only [Option.bind_some, Option.some.injEq, forall_eq', ← fault?_eq_none_iff]
      cases fault? [] tests <;> simp

/-- A configuration is refused for the fault of the tests that it lists. -/
theorem check_eq_error_iff (c : Config) :
    c.check = .error fault ↔ ∃ tests, c.tests = some tests ∧ fault? [] tests = some fault := by
  rw [check, ← Option.bind_eq_some_iff]
  cases c.tests.bind (fault? []) <;> simp

/-! ## How a fault is told -/

theorem toList_message_listedTwice (test : UInt32) :
    (Fault.listedTwice test).message.toList
      = "test ".toList ++ (Text.decimal test.toNat).toList ++ " is listed twice".toList := by
  have htext : (Fault.listedTwice test).message
      = "test " ++ Text.decimal test.toNat ++ " is listed twice" := rfl
  rw [htext, String.toList_append, String.toList_append]

theorem message_testZero_ne (test : UInt32) :
    Fault.testZero.message ≠ (Fault.listedTwice test).message := by
  intro heq
  -- only a test zero is told about with an f
  have hmem : 'f' ∈ (Fault.listedTwice test).message.toList := heq ▸ by decide
  rw [toList_message_listedTwice, List.mem_append, List.mem_append] at hmem
  rcases hmem with (hmem | hmem) | hmem
  · exact absurd hmem (by decide)
  · exact absurd (Text.isDigit_of_mem_decimal hmem) (by decide)
  · exact absurd hmem (by decide)

/-- No two faults are told in the same words. -/
theorem message_injective : Function.Injective Fault.message := by
  intro a b h
  cases a with
  | testZero =>
      cases b with
      | testZero => rfl
      | listedTwice test => exact absurd h (message_testZero_ne test)
  | listedTwice test =>
      cases b with
      | testZero => exact absurd h.symm (message_testZero_ne test)
      | listedTwice other =>
          have htexts := congrArg String.toList h
          rw [toList_message_listedTwice, toList_message_listedTwice] at htexts
          have hdecimals : Text.decimal test.toNat = Text.decimal other.toNat :=
            String.toList_inj.1 (List.append_cancel_left (List.append_cancel_right htexts))
          have hwords := congrArg Text.word? hdecimals
          rw [Text.word?_decimal, Text.word?_decimal, Option.some.injEq] at hwords
          rw [hwords]

/-! ## Texts of configurations -/

/-- A text is accepted as the configuration that it spells, if that passes the check. -/
theorem ofText_eq_ok_iff {text : String} {c : Config} :
    ofText text = .ok c
      ↔ (Yaml.Node.ofText? text).bind ofNode? = some c ∧ c.check = .ok () := by
  rw [ofText]
  constructor
  · intro h
    split at h
    · exact absurd h (by simp)
    · next d hspelled =>
        split at h
        · next hok =>
            cases h
            exact ⟨hspelled, hok⟩
        · exact absurd h (by simp)
  · rintro ⟨hspelled, hcheck⟩
    simp only [hspelled, hcheck]

/-- A text is refused for a fault if the check finds it in the configuration that is spelled. -/
theorem ofText_eq_invalid_iff {text : String} :
    ofText text = .error (.invalid fault)
      ↔ ∃ c, (Yaml.Node.ofText? text).bind ofNode? = some c ∧ c.check = .error fault := by
  rw [ofText]
  constructor
  · intro h
    split at h
    · exact absurd h (by simp)
    · next d hspelled =>
        split at h
        · exact absurd h (by simp)
        · next hfault =>
            cases h
            exact ⟨d, hspelled, hfault⟩
  · rintro ⟨c, hspelled, hcheck⟩
    simp only [hspelled, hcheck]

/-- What is accepted as text has passed the check. -/
theorem check_of_ofText {text : String} {config : Config} (h : ofText text = .ok config) :
    config.check = .ok () :=
  (ofText_eq_ok_iff.1 h).2

/-- A configuration that is accepted as text lists tests that can be run, if it lists any. -/
theorem runnable_of_ofText {text : String} {config : Config} (h : ofText text = .ok config)
    (htests : config.tests = some tests) : Runnable tests :=
  config.check_eq_ok_iff.1 (check_of_ofText h) tests htests

/-- A configuration passes the check if it lists no tests at all, or none that is zero and none
twice. Otherwise the test at the first position that offends is blamed: for being zero if it is, and
else by its number for being listed twice. The words tell which of these it was. A text is accepted
as the configuration that it spells if that passes the check, and it is refused for a fault exactly
if the check finds that fault in the configuration that it spells. -/
theorem check_blames_first_offender :
    (∀ c : Config,
      (c.check = .ok () ↔
        c.tests = none ∨ ∃ tests, c.tests = some tests ∧ 0 ∉ tests ∧ tests.Nodup) ∧
      ∀ fault, c.check = .error fault ↔
        ∃ tests i test, c.tests = some tests ∧ IsLeast {i | Offends tests i} i ∧
          tests[i]? = some test ∧ fault = blame test) ∧
    Function.Injective Fault.message ∧
    ∀ text : String,
      (∀ c, ofText text = .ok c ↔
        (Yaml.Node.ofText? text).bind ofNode? = some c ∧ c.check = .ok ()) ∧
      ∀ fault, ofText text = .error (.invalid fault) ↔
        ∃ c, (Yaml.Node.ofText? text).bind ofNode? = some c ∧ c.check = .error fault := by
  refine ⟨fun c => ⟨?_, fun fault => ?_⟩, message_injective, fun text =>
    ⟨fun c => ofText_eq_ok_iff, fun fault => ofText_eq_invalid_iff⟩⟩
  · rw [check_eq_ok_iff]
    cases c.tests with
    | none => simp
    | some tests => simp [Runnable]
  · rw [check_eq_error_iff]
    constructor
    · rintro ⟨tests, htests, hfault⟩
      obtain ⟨i, test, hoffender⟩ := fault?_eq_some_iff.1 hfault
      exact ⟨tests, i, test, htests, hoffender⟩
    · rintro ⟨tests, i, test, htests, hoffender⟩
      exact ⟨tests, htests, fault?_eq_some_iff.2 ⟨i, test, hoffender⟩⟩

/-- A zero behind a test that is listed twice is not come to. -/
example : check { tests := some [3, 1, 3, 0] } = .error (.listedTwice 3) := by rfl

end Config

end Valuer
