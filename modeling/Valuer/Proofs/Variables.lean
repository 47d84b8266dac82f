import Valuer.Environment
import Valuer.Proofs.NumberText

set_option autoImplicit false

/-! # What variables and descriptors can be used for

What is wrong with a variable is said apart from its reading: a reading fails exactly for that
fault. Taking a descriptor changes who owns it and nothing else, so it does not change what can be
read or written. -/

namespace Valuer

/-! ## Descriptors -/

namespace DescriptorTable

/-- Changes the open descriptors of some numbers. -/
def updateAll (table : DescriptorTable) (numbers : List Nat) (f : Descriptor → Descriptor) :
    DescriptorTable :=
  table.map fun d => if d.number ∈ numbers ∧ d.isOpen = true then f d else d

/-- Changing one descriptor after another in the same way changes them all. -/
theorem update_update (table : DescriptorTable) (f : Descriptor → Descriptor)
    (hnumber : ∀ d, (f d).number = d.number)
    (hagain : ∀ d, (f d).isOpen = true → f (f d) = f d) (first second : Nat) :
    (table.update first f).update second f = table.updateAll [first, second] f := by
  simp only [update, updateAll, List.map_map]
  refine List.map_congr_left fun d _ => ?_
  simp only [Function.comp_apply, Bool.and_eq_true, beq_iff_eq, List.mem_cons, List.not_mem_nil,
    or_false]
  by_cases hopen : d.isOpen = true
  · by_cases hfirst : d.number = first
    · simp only [hfirst, hopen, and_self, if_true, hnumber, true_or]
      split
      · -- both numbers name this descriptor, so it is changed twice
        next hsecond => exact hagain d hsecond.2
      · rfl
    · simp [hfirst, hopen]
  · simp [hopen]

theorem updateAll_updateAll (table : DescriptorTable) (f g : Descriptor → Descriptor)
    (hnumber : ∀ d, (f d).number = d.number)
    (hopen : ∀ d, (f d).isOpen = d.isOpen) (numbers : List Nat) :
    (table.updateAll numbers f).updateAll numbers g = table.updateAll numbers (g ∘ f) := by
  simp only [updateAll, List.map_map]
  refine List.map_congr_left fun d _ => ?_
  by_cases hnamed : d.number ∈ numbers ∧ d.isOpen = true
  · simp only [Function.comp_apply, if_pos hnamed, hnumber, hopen]
  · simp only [Function.comp_apply, if_neg hnamed]

/-- Among descriptors without owners exactly those have one that were taken. -/
theorem owned_taken {table : DescriptorTable} {numbers : List Nat}
    (hfree : ∀ d ∈ table, d.owned = false) :
    ∀ d ∈ table.updateAll numbers Descriptor.taken,
      d.owned = true ↔ d.number ∈ numbers ∧ d.isOpen = true := by
  intro d hd
  obtain ⟨before, hbefore, rfl⟩ := List.mem_map.1 hd
  split
  · next htaken => exact iff_of_true rfl htaken
  · next hother => exact iff_of_false (by simp [hfree before hbefore]) hother

/-- A number names the same descriptor after a change that keeps numbers and what is open. -/
theorem find?_update (table : DescriptorTable) (f : Descriptor → Descriptor)
    (hnumber : ∀ d, (f d).number = d.number) (hopen : ∀ d, (f d).isOpen = d.isOpen)
    (changed number : Nat) :
    (table.update changed f).find? number
      = (table.find? number).map fun d => if d.number == changed && d.isOpen then f d else d := by
  unfold find? update
  rw [List.find?_map]
  congr 2
  funext d
  rw [Function.comp_apply]
  split
  · rw [hnumber, hopen]
  · rfl

/-- A number is open exactly if it names an open descriptor. -/
theorem mem_openNumbers_iff {table : DescriptorTable} {number : Nat} :
    number ∈ table.openNumbers ↔ ∃ d, table.find? number = some d := by
  constructor
  · intro h
    obtain ⟨d, hd, rfl⟩ := List.mem_map.1 h
    obtain ⟨hmem, hopen⟩ := List.mem_filter.1 hd
    refine Option.isSome_iff_exists.1 (List.find?_isSome.2 ⟨d, hmem, ?_⟩)
    rw [beq_self_eq_true, hopen]
    rfl
  · rintro ⟨d, hfind⟩
    have hd := List.find?_some hfind
    rw [Bool.and_eq_true, beq_iff_eq] at hd
    obtain ⟨rfl, hopen⟩ := hd
    exact List.mem_map_of_mem (List.mem_filter.2 ⟨List.mem_of_find?_eq_some hfind, hopen⟩)

/-- What can be used is open. -/
theorem mem_openNumbers_of_allows {table : DescriptorTable} {number : Nat} {access : Access}
    (h : table.allows number access = true) : number ∈ table.openNumbers := by
  obtain ⟨d, hfind, -⟩ := (Option.any_eq_true _ _).1 h
  exact mem_openNumbers_iff.2 ⟨d, hfind⟩

/-- Whether a descriptor can be used does not depend on its owner. -/
theorem allows_own (table : DescriptorTable) (owned number : Nat) (access : Access) :
    (table.own owned).allows number access = table.allows number access := by
  unfold allows own
  rw [find?_update table Descriptor.taken (fun _ => rfl) (fun _ => rfl), Option.any_map]
  congr 1
  funext d
  show (if _ then d.taken else d).mode.allows access = d.mode.allows access
  split <;> rfl

end DescriptorTable

/-! ## Faults of variables -/

/-- The reason for a failure. -/
def faultOf {α : Type} : Except Error α → Option Error
  | .error e => some e
  | .ok _ => none

section Faults

variable {α β : Type} {r : Except Error α}

theorem eq_error_of_faultOf {e : Error} (h : faultOf r = some e) : r = .error e := by
  cases r with
  | error e' => exact congrArg _ (Option.some.inj h)
  | ok a => exact absurd h (by simp [faultOf])

theorem exists_eq_ok_of_faultOf (h : faultOf r = none) : ∃ a, r = .ok a := by
  cases r with
  | error e => exact absurd h (by simp [faultOf])
  | ok a => exact ⟨a, rfl⟩

/-- Two checks in a row fail for the fault of the first, or else for that of the second. -/
theorem faultOf_bind {f : α → Except Error β} {first second : Option Error}
    (hfirst : faultOf r = first) (hsecond : ∀ a, r = .ok a → faultOf (f a) = second) :
    faultOf (r >>= f) = first.or second := by
  subst hfirst
  cases r with
  | error e => rfl
  | ok a => exact hsecond a rfl

theorem eq_ok_of_bind {f : α → Except Error β} {b : β} (h : (r >>= f) = .ok b) :
    ∃ a, r = .ok a ∧ f a = .ok b := by
  cases r with
  | error e => exact absurd h (by simp [Bind.bind, Except.bind])
  | ok a => exact ⟨a, rfl, h⟩

end Faults

namespace Environment

variable {env : Environment} {table : DescriptorTable} {name : String} {access : Access}

/-- The number that a variable holds, white space around it aside. -/
def number? (env : Environment) (name : String) : Option Int :=
  (env name).bind fun value => Text.int? (Text.trim value)

/-- An integer is read from a variable exactly if its text is one and it fits. -/
theorem number?_eq_some_iff {value : String} (hvalue : env name = some value) {n : Int} :
    env.number? name = some n ↔ Text.IsInteger value n ∧ Text.InWord n := by
  rw [number?, hvalue, Option.bind_some, Text.trimmed_int?_eq_some_iff]

/-- What is wrong with a variable that must hold a number. -/
def numberFault? (env : Environment) (name : String) : Option Error :=
  match env name with
  | none => some (.missingVar name)
  | some value =>
      match Text.int? (Text.trim value) with
      | none => some (.notInteger name value)
      | some _ => none

/-- What is wrong with the descriptor that a number names. -/
def descriptorFault? (env : Environment) (table : DescriptorTable) (name : String)
    (access : Access) : Option Error :=
  (env.number? name).bind fun n =>
    if 0 ≤ n ∧ n ≤ 2147483647 ∧ table.allows n.toNat access = true then none
    else some (.badDescriptor name n access)

theorem int_eq_ok_iff {n : Int} : env.int name = .ok n ↔ env.number? name = some n := by
  unfold int text number?
  cases env name with
  | none => simp
  | some value =>
      simp only [Option.bind_some]
      cases Text.int? (Text.trim value) <;> simp

theorem faultOf_int (env : Environment) (name : String) :
    faultOf (env.int name) = env.numberFault? name := by
  unfold int text numberFault?
  cases env name with
  | none => rfl
  | some value =>
      simp only
      cases Text.int? (Text.trim value) <;> rfl

theorem numberFault?_eq_none_iff :
    env.numberFault? name = none ↔ ∃ n, env.number? name = some n := by
  unfold numberFault? number?
  cases env name with
  | none => simp
  | some value =>
      simp only [Option.bind_some]
      cases Text.int? (Text.trim value) <;> simp

theorem lt_descriptorBound {n : Int} : n < descriptorBound ↔ n ≤ 2147483647 := by
  unfold descriptorBound
  omega

theorem descriptor_eq_ok_iff {number : Nat} :
    env.descriptor table name access = .ok number ↔
      env.number? name = some (number : Int) ∧ number ≤ 2147483647 ∧
        table.allows number access = true := by
  unfold descriptor
  cases hint : env.int name with
  | error e =>
      have hnone : env.number? name ≠ some (number : Int) := by
        rw [Ne, ← int_eq_ok_iff, hint]
        simp
      simp [hnone]
  | ok n =>
      rw [int_eq_ok_iff.1 hint, Option.some.injEq]
      simp only [lt_descriptorBound]
      by_cases hfits : 0 ≤ n ∧ n ≤ 2147483647 ∧ table.allows n.toNat access = true
      · obtain ⟨hlow, hhigh, hallows⟩ := hfits
        rw [if_pos ⟨hlow, hhigh, hallows⟩, Except.ok.injEq]
        constructor
        · rintro rfl
          exact ⟨by omega, by omega, hallows⟩
        · rintro ⟨rfl, -, -⟩
          exact Int.toNat_natCast number
      · simp only [if_neg hfits, reduceCtorEq, false_iff]
        rintro ⟨rfl, hhigh, hallows⟩
        exact hfits ⟨by omega, by omega, hallows⟩

theorem faultOf_descriptor {n : Int} (h : env.number? name = some n) :
    faultOf (env.descriptor table name access) = env.descriptorFault? table name access := by
  simp only [descriptor, int_eq_ok_iff.2 h, descriptorFault?, h, Option.bind_some,
    lt_descriptorBound]
  split <;> rfl

theorem descriptorFault?_eq_none_iff {n : Int} (h : env.number? name = some n) :
    env.descriptorFault? table name access = none ↔
      0 ≤ n ∧ n ≤ 2147483647 ∧ table.allows n.toNat access = true := by
  rw [descriptorFault?, h, Option.bind_some]
  split
  · next hfits => exact iff_of_true rfl hfits
  · next hunfit => exact iff_of_false (by simp) hunfit

/-- Taking a descriptor does not change what else can be taken. -/
theorem descriptor_own (env : Environment) (table : DescriptorTable) (number : Nat) (name : String)
    (access : Access) :
    env.descriptor (table.own number) name access = env.descriptor table name access := by
  simp only [descriptor, DescriptorTable.allows_own]

end Environment

end Valuer
