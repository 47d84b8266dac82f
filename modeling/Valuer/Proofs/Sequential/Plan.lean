import Mathlib.Data.List.Nodup
import Valuer.Proofs.ConfigFaults
import Valuer.Sequential

set_option autoImplicit false

/-! # The plan of the sequential strategy

Which tests a run is to go through. A configuration that was accepted lists no test zero and no test
twice, and the same holds of all tests of a problem, so a plan that is made from either names tests
that can be asked for, each once. -/

namespace Valuer

namespace Sequential

variable {config : Config} {count : Option UInt32} {tests : List UInt32}

/-! ## All tests of a problem -/

theorem mem_allTests {last test : UInt32} : test ∈ allTests last ↔ test ≠ 0 ∧ test ≤ last := by
  have hlast : last.toNat < UInt32.size := last.toNat_lt_size
  have hzero : test ≠ 0 ↔ test.toNat ≠ 0 := not_congr UInt32.toNat_inj.symm
  rw [allTests, List.mem_map, UInt32.le_iff_toNat_le, hzero]
  constructor
  · rintro ⟨n, hn, rfl⟩
    have hrange := List.mem_range'_1.1 hn
    have hval : (UInt32.ofNat n).toNat = n := UInt32.toNat_ofNat_of_lt' (by omega)
    omega
  · rintro ⟨hpos, hle⟩
    exact ⟨test.toNat, List.mem_range'_1.2 (by omega), UInt32.ofNat_toNat⟩

theorem nodup_allTests (last : UInt32) : (allTests last).Nodup := by
  have hlast : last.toNat < UInt32.size := last.toNat_lt_size
  refine List.Nodup.map_on ?_ List.nodup_range'
  intro n hn m hm heq
  have hn' := List.mem_range'_1.1 hn
  have hm' := List.mem_range'_1.1 hm
  have hvals : (UInt32.ofNat n).toNat = (UInt32.ofNat m).toNat := by rw [heq]
  rwa [UInt32.toNat_ofNat_of_lt' (by omega), UInt32.toNat_ofNat_of_lt' (by omega)] at hvals

/-! ## Making the plan -/

/-- The tests that a run is to go through: those that are configured, or else all of the problem. -/
def planned (config : Config) (count : Option UInt32) : Option (List UInt32) :=
  config.tests.or (count.map allTests)

theorem plan_eq_ok_iff :
    plan config count = .ok tests
      ↔ planned config count = some tests ∧ ∀ last, count = some last → ∀ t ∈ tests, t ≤ last := by
  unfold plan planned
  cases config.tests with
  | none =>
      cases count with
      | none => simp
      | some last =>
          simp only [Except.ok.injEq, Option.map_some, Option.none_or, Option.some.injEq,
            iff_self_and]
          rintro rfl _ rfl t ht
          exact (mem_allTests.1 ht).2
  | some listed =>
      cases count with
      | none => simp
      | some last =>
          simp only [Option.some_or, Option.some.injEq]
          split
          · next t hfind =>
              have hbeyond := List.find?_some hfind
              simp only [reduceCtorEq, false_iff]
              rintro ⟨rfl, hbound⟩
              have hle := hbound last rfl t (List.mem_of_find?_eq_some hfind)
              exact absurd (of_decide_eq_true hbeyond) (UInt32.not_lt.2 hle)
          · next hnone =>
              rw [Except.ok.injEq, iff_self_and]
              rintro rfl _ rfl t ht
              have hfits := List.find?_eq_none.1 hnone t ht
              rw [decide_eq_true_eq] at hfits
              exact UInt32.not_lt.1 hfits

/-- A run without a plan is ended by the strategy's own complaint. -/
theorem complaint_of_plan_eq_error {e : Error} (h : plan config count = .error e) :
    ∃ cause, e = .complaint cause := by
  unfold plan at h
  split at h
  · exact ⟨_, (Except.error.inj h).symm⟩
  · exact absurd h (by simp)
  · exact absurd h (by simp)
  · split at h
    · exact ⟨_, (Except.error.inj h).symm⟩
    · exact absurd h (by simp)

/-- The plan of a run with an accepted configuration names tests that can be run. -/
theorem runnable_of_planned {text : String} (hconfig : Config.ofText text = .ok config)
    (hplanned : planned config count = some tests) : Runnable tests := by
  unfold planned at hplanned
  cases hlisted : config.tests with
  | some listed =>
      rw [hlisted, Option.some_or, Option.some.injEq] at hplanned
      exact hplanned ▸ Config.runnable_of_ofText hconfig hlisted
  | none =>
      rw [hlisted, Option.none_or, Option.map_eq_some_iff] at hplanned
      obtain ⟨last, -, rfl⟩ := hplanned
      exact ⟨fun hzero => (mem_allTests.1 hzero).1 rfl, nodup_allTests last⟩

end Sequential

end Valuer
