import Valuer.Launch
import Valuer.Proofs.HexText
import Valuer.Proofs.Variables

set_option autoImplicit false

/-! # Launches are all or nothing

What can be wrong with a launch is listed once, in the order in which it is looked for
(`Launch.faults`). A launch that is refused is refused for the first of these faults and leaves the
descriptors as they were; one that is made has taken exactly the two descriptors that it names
(`Launch.take_all_or_nothing`). -/

namespace Valuer

/-! ## Faults of a launch -/

namespace Launch

variable {env : Environment} {table : DescriptorTable}

/-- The two descriptors must have different numbers. -/
def sharedFault? (env : Environment) : Option Error :=
  if env.number? inputVar = env.number? outputVar then some (.sharedDescriptor inputVar outputVar)
  else none

/-- What is wrong with a number of tests. -/
def rangeFault? (n : Int) : Option Error :=
  if n < -1 then some (.negative countVar n)
  else if 4294967295 < n then some (.tooLarge countVar n)
  else none

/-- What is wrong with the variable that holds the number of tests, if it is given. -/
def countFault? (env : Environment) : Option Error :=
  if env countVar = none then none
  else (env.numberFault? countVar).or ((env.number? countVar).bind rangeFault?)

/-- What is wrong with the payload, if it is given. -/
def seedFault? (env : Environment) : Option Error :=
  (env seedVar).bind fun value =>
    match Hex.decode value with
    | .error fault => some (.notHex seedVar value fault)
    | .ok _ => none

/-- What can be wrong with a launch, in the order in which it is looked for. -/
def faults (env : Environment) (table : DescriptorTable) : List (Option Error) :=
  [env.numberFault? inputVar, env.numberFault? outputVar, sharedFault? env, countFault? env,
    seedFault? env, env.descriptorFault? table inputVar .read,
    env.descriptorFault? table outputVar .write]

/-- The first thing that is wrong with a launch. -/
def firstFault? (env : Environment) (table : DescriptorTable) : Option Error :=
  (faults env table).findSome? id

theorem faultOf_countOf (n : Int) : faultOf (countOf n) = rangeFault? n := by
  have hsize : ((UInt32.size : Nat) : Int) = 4294967296 := rfl
  unfold countOf rangeFault?
  rw [hsize]
  split
  · next hunknown =>
      rw [if_neg (by omega), if_neg (by omega)]
      rfl
  · split
    · rw [if_pos (by omega)]
      rfl
    · split
      · rw [if_neg (by omega), if_neg (by omega)]
        rfl
      · rw [if_neg (by omega), if_pos (by omega)]
        rfl

theorem faultOf_readCount (env : Environment) : faultOf (readCount env) = countFault? env := by
  unfold readCount countFault?
  by_cases habsent : env countVar = none
  · simp only [habsent, Option.isNone_none, if_true]
    rfl
  · rw [if_neg (by simpa using habsent), if_neg habsent]
    refine faultOf_bind (Environment.faultOf_int env countVar) fun n hn => ?_
    rw [Environment.int_eq_ok_iff.1 hn, Option.bind_some, faultOf_countOf]

theorem faultOf_readSeed (env : Environment) : faultOf (readSeed env) = seedFault? env := by
  unfold readSeed seedFault? Environment.payload Environment.text
  cases env seedVar with
  | none => rfl
  | some value =>
      simp only [Option.bind_some]
      cases Hex.decode value <;> rfl

theorem findSome?_id_cons {α : Type} (first : Option α) (rest : List (Option α)) :
    (first :: rest).findSome? id = first.or (rest.findSome? id) := by
  cases first <;> rfl

/-- The checks of a launch fail for the first thing that is wrong with it. -/
theorem faultOf_check (env : Environment) (table : DescriptorTable) :
    faultOf (check env table) = firstFault? env table := by
  -- one step for each check, in the order of the faults
  simp only [firstFault?, faults, findSome?_id_cons, check]
  refine faultOf_bind (Environment.faultOf_int env inputVar) fun input hinput => ?_
  refine faultOf_bind (Environment.faultOf_int env outputVar) fun output houtput => ?_
  rw [Environment.int_eq_ok_iff] at hinput houtput
  simp only [sharedFault?, hinput, houtput, Option.some.injEq]
  split
  · rfl
  · rw [Option.none_or]
    refine faultOf_bind (faultOf_readCount env) fun count _ => ?_
    refine faultOf_bind (faultOf_readSeed env) fun seed _ => ?_
    refine faultOf_bind (Environment.faultOf_descriptor hinput) fun _ _ => ?_
    exact faultOf_bind (Environment.faultOf_descriptor houtput) fun _ _ => rfl

/-! ## What is needed for a launch -/

/-- What the variables and descriptors must be like for a launch to be made. -/
structure Possible (env : Environment) (table : DescriptorTable) : Prop where
  input : ∃ n, env.number? inputVar = some n ∧ 0 ≤ n ∧ n ≤ 2147483647 ∧
    table.allows n.toNat .read = true
  output : ∃ n, env.number? outputVar = some n ∧ 0 ≤ n ∧ n ≤ 2147483647 ∧
    table.allows n.toNat .write = true
  different : env.number? inputVar ≠ env.number? outputVar
  count : env countVar = none ∨
    ∃ n, env.number? countVar = some n ∧ -1 ≤ n ∧ n ≤ 4294967295
  seed : ∀ value, env seedVar = some value →
    value.utf8ByteSize % 2 = 0 ∧ ∀ c ∈ value.toList, c ∈ Hex.alphabet

theorem rangeFault?_eq_none_iff {n : Int} : rangeFault? n = none ↔ -1 ≤ n ∧ n ≤ 4294967295 := by
  unfold rangeFault?
  split
  · simp; omega
  · split <;> simp <;> omega

theorem countFault?_eq_none_iff :
    countFault? env = none ↔ env countVar = none ∨
      ∃ n, env.number? countVar = some n ∧ -1 ≤ n ∧ n ≤ 4294967295 := by
  unfold countFault?
  by_cases habsent : env countVar = none
  · simp [habsent]
  · rw [if_neg habsent, Option.or_eq_none_iff, Environment.numberFault?_eq_none_iff,
      or_iff_right habsent]
    constructor
    · rintro ⟨⟨n, hn⟩, hrange⟩
      rw [hn, Option.bind_some, rangeFault?_eq_none_iff] at hrange
      exact ⟨n, hn, hrange⟩
    · rintro ⟨n, hn, hrange⟩
      rw [hn, Option.bind_some, rangeFault?_eq_none_iff]
      exact ⟨⟨n, rfl⟩, hrange⟩

theorem seedFault?_eq_none_iff :
    seedFault? env = none ↔ ∀ value, env seedVar = some value →
      value.utf8ByteSize % 2 = 0 ∧ ∀ c ∈ value.toList, c ∈ Hex.alphabet := by
  unfold seedFault?
  cases env seedVar with
  | none => simp
  | some value =>
      simp only [Option.bind_some, Option.some.injEq, forall_eq', ← Hex.decode_isOk_iff]
      cases Hex.decode value <;> simp

/-- Nothing is wrong with a launch exactly if it can be made. -/
theorem firstFault?_eq_none_iff : firstFault? env table = none ↔ Possible env table := by
  simp only [firstFault?, List.findSome?_eq_none_iff, faults, List.forall_mem_cons, id_eq]
  constructor
  · rintro ⟨hin, hout, hshared, hcount, hseed, hread, hwrite, -⟩
    obtain ⟨input, hinput⟩ := Environment.numberFault?_eq_none_iff.1 hin
    obtain ⟨output, houtput⟩ := Environment.numberFault?_eq_none_iff.1 hout
    refine ⟨⟨input, hinput, ?_⟩, ⟨output, houtput, ?_⟩, ?_, countFault?_eq_none_iff.1 hcount,
      seedFault?_eq_none_iff.1 hseed⟩
    · exact (Environment.descriptorFault?_eq_none_iff hinput).1 hread
    · exact (Environment.descriptorFault?_eq_none_iff houtput).1 hwrite
    · intro hsame
      rw [sharedFault?, if_pos hsame] at hshared
      exact absurd hshared (by simp)
  · rintro ⟨⟨input, hinput, hread⟩, ⟨output, houtput, hwrite⟩, hdifferent, hcount, hseed⟩
    refine ⟨Environment.numberFault?_eq_none_iff.2 ⟨input, hinput⟩,
      Environment.numberFault?_eq_none_iff.2 ⟨output, houtput⟩, if_neg hdifferent,
      countFault?_eq_none_iff.2 hcount, seedFault?_eq_none_iff.2 hseed, ?_, ?_, by simp⟩
    · exact (Environment.descriptorFault?_eq_none_iff hinput).2 hread
    · exact (Environment.descriptorFault?_eq_none_iff houtput).2 hwrite

/-! ## What a launch takes -/

/-- The number of tests is what the variable says, where nothing and minus one say nothing. -/
def GivesCount (env : Environment) : Option UInt32 → Prop
  | none => env countVar = none ∨ env.number? countVar = some (-1)
  | some count => env.number? countVar = some (count.toNat : Int)

/-- The payload is what the variable spells, which may be empty, if it is there. -/
def GivesSeed (env : Environment) : Option (List UInt8) → Prop
  | none => env seedVar = none
  | some bytes => ∃ value, env seedVar = some value ∧ Hex.decode value = .ok bytes

/-- A launch holds what the variables say. -/
structure Names (env : Environment) (l : Launch) : Prop where
  input : env.number? inputVar = some (l.input : Int)
  output : env.number? outputVar = some (l.output : Int)
  count : GivesCount env l.count
  seed : GivesSeed env l.seed

theorem givesCount_of_readCount {count : Option UInt32} (h : readCount env = .ok count) :
    GivesCount env count := by
  unfold readCount at h
  split at h
  · next habsent =>
      cases h
      exact .inl (Option.isNone_iff_eq_none.1 habsent)
  · obtain ⟨n, hint, hcount⟩ := eq_ok_of_bind h
    rw [Environment.int_eq_ok_iff] at hint
    unfold countOf at hcount
    split at hcount
    · next hunknown =>
        cases hcount
        exact .inr (hunknown ▸ hint)
    · split at hcount
      · exact absurd hcount (by simp)
      · next hpositive =>
          split at hcount
          · next hsmall =>
              cases hcount
              have hvalue : (UInt32.ofNat n.toNat).toNat = n.toNat :=
                UInt32.toNat_ofNat_of_lt' (by omega)
              rw [GivesCount, hint, hvalue, Int.toNat_of_nonneg (by omega)]
          · exact absurd hcount (by simp)

theorem givesSeed_of_readSeed {seed : Option (List UInt8)} (h : readSeed env = .ok seed) :
    GivesSeed env seed := by
  unfold readSeed Environment.payload Environment.text at h
  cases hvalue : env seedVar with
  | none =>
      rw [hvalue] at h
      cases h
      exact hvalue
  | some value =>
      rw [hvalue] at h
      simp only at h
      cases hdecode : Hex.decode value with
      | error fault =>
          rw [hdecode] at h
          exact absurd h (by simp [Except.map])
      | ok bytes =>
          rw [hdecode] at h
          cases h
          exact ⟨value, hvalue, hdecode⟩

/-- What was checked is there to be taken. -/
theorem check_eq_ok {count : Option UInt32} {seed : Option (List UInt8)}
    (h : check env table = .ok (count, seed)) :
    GivesCount env count ∧ GivesSeed env seed ∧
      (∃ input, env.descriptor table inputVar .read = .ok input) ∧
      ∃ output, env.descriptor table outputVar .write = .ok output := by
  obtain ⟨input, -, h⟩ := eq_ok_of_bind h
  obtain ⟨output, -, h⟩ := eq_ok_of_bind h
  simp only at h
  split at h
  · obtain ⟨_, hthrow, -⟩ := eq_ok_of_bind h
    exact absurd hthrow (by simp [throw, throwThe, MonadExceptOf.throw])
  · obtain ⟨count', hcount, h⟩ := eq_ok_of_bind h
    obtain ⟨seed', hseed, h⟩ := eq_ok_of_bind h
    obtain ⟨number, hread, h⟩ := eq_ok_of_bind h
    obtain ⟨other, hwrite, h⟩ := eq_ok_of_bind h
    cases h
    exact ⟨givesCount_of_readCount hcount, givesSeed_of_readSeed hseed, ⟨number, hread⟩,
      ⟨other, hwrite⟩⟩

/-- Nothing is taken for a launch that something is wrong with. -/
theorem take_of_fault {e : Error} (h : firstFault? env table = some e) :
    take env table = (.error e, table) := by
  have hcheck : check env table = .error e :=
    eq_error_of_faultOf ((faultOf_check env table).trans h)
  rw [take, hcheck]

/-- Both descriptors are taken for a launch that nothing is wrong with. -/
theorem take_of_sound (h : firstFault? env table = none) :
    ∃ l, Names env l ∧
      take env table = (.ok l, table.updateAll [l.input, l.output] Descriptor.taken) := by
  obtain ⟨⟨count, seed⟩, hcheck⟩ := exists_eq_ok_of_faultOf ((faultOf_check env table).trans h)
  obtain ⟨hcount, hseed, ⟨input, hread⟩, output, hwrite⟩ := check_eq_ok hcheck
  refine ⟨⟨input, output, count, seed⟩, ⟨?_, ?_, hcount, hseed⟩, ?_⟩
  · exact (Environment.descriptor_eq_ok_iff.1 hread).1
  · exact (Environment.descriptor_eq_ok_iff.1 hwrite).1
  · -- the second descriptor is still there when the first has been taken
    have hlater := (Environment.descriptor_own env table input outputVar .write).trans hwrite
    simp only [take, hcheck, Environment.take, hread, hlater]
    exact congrArg _ (DescriptorTable.update_update table Descriptor.taken (fun _ => rfl)
      (fun _ _ => rfl) input output)

/-- Letting a launch go closes exactly what it has taken. -/
theorem release_taken (l : Launch) (table : DescriptorTable) :
    l.release (table.updateAll [l.input, l.output] Descriptor.taken)
      = table.updateAll [l.input, l.output] Descriptor.closed := by
  have hclose := DescriptorTable.update_update
    (table.updateAll [l.input, l.output] Descriptor.taken) Descriptor.closed (fun _ => rfl)
    (fun _ _ => rfl) l.input l.output
  have hboth := DescriptorTable.updateAll_updateAll table Descriptor.taken Descriptor.closed
    (fun _ => rfl) (fun _ => rfl) [l.input, l.output]
  exact hclose.trans hboth

/-- A launch is made exactly if its variables and descriptors are in order. One that is refused is
refused for the first thing that is wrong with it; no descriptor was closed, taken or written to,
and no hook of a strategy is called. One that is made holds what the variables say and has taken
exactly the two descriptors that they name, and letting it go closes exactly these. -/
theorem take_all_or_nothing (env : Environment) (table : DescriptorTable) :
    ((∃ l, (take env table).1 = .ok l) ↔ Possible env table) ∧
    (∀ e, (take env table).1 = .error e →
      firstFault? env table = some e ∧ (take env table).2 = table ∧
      ∀ (σ : Type) (S : Strategy σ) (s : σ),
        let run := S.runFrom s env table
        run.result = .error e ∧ run.journal = [] ∧ run.state = s ∧ run.table = table) ∧
    ∀ l, (take env table).1 = .ok l →
      Names env l ∧
      (take env table).2 = table.updateAll [l.input, l.output] Descriptor.taken ∧
      ((∀ d ∈ table, d.owned = false) → ∀ d ∈ (take env table).2,
        d.owned = true ↔ d.number ∈ [l.input, l.output] ∧ d.isOpen = true) ∧
      l.release (take env table).2 = table.updateAll [l.input, l.output] Descriptor.closed := by
  cases hfault : firstFault? env table with
  | some e =>
      have htake := take_of_fault hfault
      rw [← firstFault?_eq_none_iff, hfault, htake]
      refine ⟨by simp, ?_, by simp⟩
      intro e' heq
      cases heq
      refine ⟨rfl, rfl, fun σ S s => ?_⟩
      rw [Strategy.runFrom, htake]
      exact ⟨rfl, rfl, rfl, rfl⟩
  | none =>
      obtain ⟨l, hnames, htake⟩ := take_of_sound hfault
      rw [← firstFault?_eq_none_iff, hfault, htake]
      refine ⟨by simp, by simp, ?_⟩
      intro l' heq
      cases heq
      exact ⟨hnames, rfl, DescriptorTable.owned_taken, release_taken l table⟩

/-- A launch over two pipes among three descriptors, with a payload of no bytes: it can be made, and
the third descriptor is not its own. -/
theorem take_all_or_nothing_of_two_pipes :
    let env : Environment := fun name =>
      [(inputVar, "7"), (outputVar, " 8 "), (countVar, "-1"), (seedVar, "")].lookup name
    let table : DescriptorTable := [{ number := 7, mode := .readOnly },
      { number := 8, mode := .writeOnly }, { number := 9, mode := .readWrite }]
    let launch : Launch := { input := 7, output := 8, count := none, seed := some [] }
    (take env table).1 = .ok launch ∧ Possible env table ∧ Names env launch ∧
      (∀ d ∈ (take env table).2, d.owned = true ↔ d.number ∈ [7, 8] ∧ d.isOpen = true) ∧
      launch.release (take env table).2 = table.updateAll [7, 8] Descriptor.closed := by
  intro env table launch
  have hlaunch : (take env table).1 = .ok launch := by rfl
  obtain ⟨hpossible, -, hmade⟩ := take_all_or_nothing env table
  obtain ⟨hnames, -, howned, hrelease⟩ := hmade launch hlaunch
  exact ⟨hlaunch, hpossible.1 ⟨launch, hlaunch⟩, hnames, howned (by decide), hrelease⟩

/-- A payload that cannot be read is told before a descriptor that is not open. -/
example :
    let env : Environment := fun name =>
      [(inputVar, "100"), (outputVar, "101"), (seedVar, "abc")].lookup name
    take env [] = (.error (.notHex seedVar "abc" (.oddLength 3)), []) := by
  rfl

end Launch

end Valuer
