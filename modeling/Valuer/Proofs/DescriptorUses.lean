import Mathlib.Data.List.Nodup
import Valuer.Proofs.Variables

set_option autoImplicit false

/-! # Taking descriptors

A descriptor that is taken is closed by the use that takes it, so what is open after any uses is
what was open before them, without the numbers that were taken (`Use.runAll_takes_once`). A number
is taken once at most, however many variables spell it and in whatever way. Everything that speaks
against a use is found out before its descriptor is taken, so a use that fails changes nothing. -/

namespace Valuer

/-! ## What stays open -/

namespace DescriptorTable

variable {table middle last : DescriptorTable} {numbers more : List Nat} {number : Nat}

/-- What is open in the second table is what is open in the first, unchanged, without these
numbers. -/
def Closes (table : DescriptorTable) (numbers : List Nat) (last : DescriptorTable) : Prop :=
  last.filter (·.isOpen) = (table.filter (·.isOpen)).filter (·.number ∉ numbers)

theorem Closes.refl (table : DescriptorTable) : table.Closes [] table := by
  have hall : ∀ d ∈ table.filter (·.isOpen), decide (d.number ∉ ([] : List Nat)) = true := by
    intro d _
    exact decide_eq_true List.not_mem_nil
  exact (List.filter_eq_self.2 hall).symm

theorem Closes.trans (h : table.Closes numbers middle) (hmore : middle.Closes more last) :
    table.Closes (numbers ++ more) last := by
  rw [Closes, hmore, h, List.filter_filter]
  refine List.filter_congr ?_
  intro d _
  simp [Bool.and_comm]

theorem Closes.mem_openNumbers_iff (h : table.Closes numbers last) :
    number ∈ last.openNumbers ↔ number ∈ table.openNumbers ∧ number ∉ numbers := by
  rw [openNumbers, h, openNumbers]
  constructor
  · intro hmem
    obtain ⟨d, hd, rfl⟩ := List.mem_map.1 hmem
    obtain ⟨hopen, hother⟩ := List.mem_filter.1 hd
    exact ⟨List.mem_map_of_mem hopen, of_decide_eq_true hother⟩
  · rintro ⟨hmem, hother⟩
    obtain ⟨d, hd, rfl⟩ := List.mem_map.1 hmem
    exact List.mem_map_of_mem (List.mem_filter.2 ⟨hd, decide_eq_true hother⟩)

/-- Whatever else was done to the descriptor that is closed, no other is touched. -/
theorem Closes.of_update {f : Descriptor → Descriptor}
    (h : (table.update number f).Closes [number] last) (hnumber : ∀ d, (f d).number = d.number) :
    table.Closes [number] last := by
  rw [Closes, h, List.filter_filter, List.filter_filter]
  clear h
  induction table with
  | nil => rfl
  | cons d rest ih =>
      have hcons : update (d :: rest) number f
          = (if d.number == number && d.isOpen then f d else d) :: update rest number f := rfl
      rw [hcons]
      by_cases hd : d.number = number
      · rw [List.filter_cons_of_neg (by split <;> simp [hnumber, hd]),
          List.filter_cons_of_neg (by simp [hd]), ih]
      · have hsame : (if d.number == number && d.isOpen then f d else d) = d :=
          if_neg (by simp [hd])
        rw [hsame, List.filter_cons, List.filter_cons, ih]

theorem closes_close (table : DescriptorTable) (number : Nat) :
    table.Closes [number] (table.close number) := by
  refine Closes.of_update (f := Descriptor.closed) ?_ fun _ => rfl
  rw [Closes, ← close, List.filter_filter]
  refine List.filter_congr ?_
  intro d hd
  obtain ⟨before, -, rfl⟩ := List.mem_map.1 hd
  split
  · exact (Bool.and_false _).symm
  · next hother =>
      -- what is still open has another number
      by_cases hopen : before.isOpen = true
      · have hne : before.number ≠ number := by
          intro heq
          exact hother (by simp [heq, hopen])
        simp [hne]
      · simp [hopen]

end DescriptorTable

/-! ## Which descriptors serve -/

/-- The mode that allows an access and no other. -/
def Access.only : Access → OpenMode
  | .read => .readOnly
  | .write => .writeOnly

theorem OpenMode.allows_iff {mode : OpenMode} {access : Access} :
    mode.allows access = true ↔ mode = .readWrite ∨ mode = access.only := by
  cases mode <;> cases access <;> decide

namespace Environment

variable {env : Environment} {table : DescriptorTable} {name : String} {access : Access} {n : Nat}

/-- The text of a variable is a decimal number, perhaps with a sign, leading zeros and white space
around it. -/
def Spells (env : Environment) (name : String) (n : Nat) : Prop :=
  ∃ value, env name = some value ∧ Text.IsInteger value n

theorem number?_eq_some_of_spells (h : env.Spells name n) (hbound : n ≤ 2147483647) :
    env.number? name = some (n : Int) := by
  obtain ⟨value, hvalue, hinteger⟩ := h
  refine (number?_eq_some_iff hvalue).2 ⟨hinteger, ?_⟩
  unfold Text.InWord
  omega

theorem spells_of_number? (h : env.number? name = some (n : Int)) : env.Spells name n := by
  obtain ⟨value, hvalue, -⟩ := Option.bind_eq_some_iff.1 h
  exact ⟨value, hvalue, ((number?_eq_some_iff hvalue).1 h).1⟩

/-- The descriptors that can be taken: of a number that fits, open, and opened for what is
wanted. -/
theorem descriptor_eq_ok_iff_spells :
    env.descriptor table name access = .ok n ↔
      env.Spells name n ∧ n ≤ 2147483647 ∧
        ∃ d, table.find? n = some d ∧ (d.mode = .readWrite ∨ d.mode = access.only) := by
  have hallows : table.allows n access = true ↔
      ∃ d, table.find? n = some d ∧ (d.mode = .readWrite ∨ d.mode = access.only) := by
    simp only [DescriptorTable.allows, Option.any_eq_true, OpenMode.allows_iff]
  rw [descriptor_eq_ok_iff, hallows]
  constructor
  · rintro ⟨hnumber, hbound, hfind⟩
    exact ⟨spells_of_number? hnumber, hbound, hfind⟩
  · rintro ⟨hspells, hbound, hfind⟩
    exact ⟨number?_eq_some_of_spells hspells hbound, hbound, hfind⟩

/-- A number that is not open cannot be taken, whatever spells it. -/
theorem descriptor_of_not_open (h : env.Spells name n) (hbound : n ≤ 2147483647)
    (hopen : n ∉ table.openNumbers) :
    env.descriptor table name access = .error (.badDescriptor name n access) := by
  have hnumber := number?_eq_some_of_spells h hbound
  refine eq_error_of_faultOf ?_
  rw [faultOf_descriptor hnumber, descriptorFault?, hnumber, Option.bind_some, if_neg]
  rintro ⟨-, -, hallows⟩
  exact hopen (DescriptorTable.mem_openNumbers_of_allows hallows)

end Environment

/-! ## One use -/

namespace Use

variable {env : Environment} {table : DescriptorTable} {use : Use} {name : String} {access : Access}

/-- The variable whose descriptor a use takes, and what it takes it for. -/
def wants? : Use → Option (String × Access)
  | text _ | int _ | payload _ => none
  | readAll name => some (name, .read)
  | write name _ => some (name, .write)

/-- A use that takes no descriptor leaves the table as it is. -/
theorem table_run_of_wants_none (h : use.wants? = none) : (use.run env table).table = table := by
  cases use with
  | text name | int name | payload name => rfl
  | readAll name | write name bytes => exact absurd h (by simp [wants?])

/-- A use that wants a descriptor fails before it takes it, or closes it in the end. -/
theorem run_of_wants (env : Environment) (table : DescriptorTable)
    (h : use.wants? = some (name, access)) :
    (∃ e, env.descriptor table name access = .error e ∧
        (use.run env table).finding = .error e ∧ (use.run env table).table = table) ∨
      ∃ n finding, env.descriptor table name access = .ok n ∧
        (use.run env table).finding = .ok finding ∧
        table.Closes [n] (use.run env table).table := by
  cases hdescriptor : env.descriptor table name access with
  | error e =>
      refine .inl ⟨e, rfl, ?_⟩
      cases use with
      | text _ | int _ | payload _ => exact absurd h (by simp [wants?])
      | readAll _ | write _ _ =>
          cases h
          simp [run, Environment.take, hdescriptor]
  | ok n =>
      refine .inr ⟨n, ?_⟩
      cases use with
      | text _ | int _ | payload _ => exact absurd h (by simp [wants?])
      | readAll _ =>
          cases h
          refine ⟨.content ((table.own n).content n), rfl, ?_, ?_⟩
          · simp only [run, Environment.take, hdescriptor]
          · simp only [run, Environment.take, hdescriptor]
            exact ((table.own n).closes_close n).of_update fun _ => rfl
      | write _ bytes =>
          cases h
          refine ⟨.written, rfl, ?_, ?_⟩
          · simp only [run, Environment.take, hdescriptor]
          · simp only [run, Environment.take, hdescriptor]
            have hclose := ((table.own n).write n bytes).closes_close n
            exact (hclose.of_update fun _ => rfl).of_update fun _ => rfl

/-- The number that a use has taken, by what it gave. -/
def taken? (env : Environment) (use : Use) (finding : Except Error Finding) : Option Nat :=
  match use.wants?, finding with
  | some (name, _), .ok _ => (env.number? name).map Int.toNat
  | _, _ => none

/-- A use closes what it takes, which is a number that is open. -/
theorem closes_run (env : Environment) (table : DescriptorTable) (use : Use) :
    table.Closes (use.taken? env (use.run env table).finding).toList (use.run env table).table ∧
      ∀ n, use.taken? env (use.run env table).finding = some n →
        n ≤ 2147483647 ∧ n ∈ table.openNumbers := by
  cases hwants : use.wants? with
  | none =>
      rw [table_run_of_wants_none hwants]
      simp only [taken?, hwants]
      exact ⟨.refl table, by simp⟩
  | some file =>
      obtain ⟨name, access⟩ := file
      rcases run_of_wants env table hwants with
        ⟨e, -, hfinding, htable⟩ | ⟨n, finding, hok, hfinding, hcloses⟩
      · simp only [taken?, hwants, hfinding, htable]
        exact ⟨.refl table, by simp⟩
      · obtain ⟨hnumber, hbound, hallows⟩ := Environment.descriptor_eq_ok_iff.1 hok
        simp only [taken?, hwants, hfinding, hnumber, Option.map_some, Int.toNat_natCast]
        refine ⟨hcloses, ?_⟩
        rintro _ ⟨⟩
        exact ⟨hbound, DescriptorTable.mem_openNumbers_of_allows hallows⟩

/-! ## Many uses -/

/-- The numbers that uses have taken, in order, by what they gave. -/
def taken (env : Environment) (uses : List Use) (findings : List (Except Error Finding)) :
    List Nat :=
  (List.zipWith (taken? env) uses findings).filterMap id

theorem taken_cons (env : Environment) (use : Use) (uses : List Use)
    (finding : Except Error Finding) (findings : List (Except Error Finding)) :
    taken env (use :: uses) (finding :: findings)
      = (use.taken? env finding).toList ++ taken env uses findings := by
  rw [taken, List.zipWith_cons_cons, List.filterMap_cons, taken]
  cases use.taken? env finding <;> rfl

/-- What later uses find, they find in the table that earlier ones left. -/
theorem findings_append (env : Environment) (table : DescriptorTable) (before after : List Use) :
    (runAll env table (before ++ after)).1
      = (runAll env table before).1 ++ (runAll env (runAll env table before).2.1 after).1 := by
  induction before generalizing table with
  | nil => rfl
  | cons use before ih => exact congrArg (_ :: ·) (ih _)

/-- Uses close what they take, and take nothing twice: what is taken is open before, and not
after. -/
theorem closes_runAll (env : Environment) (table : DescriptorTable) (uses : List Use) :
    table.Closes (taken env uses (runAll env table uses).1) (runAll env table uses).2.1 ∧
      (taken env uses (runAll env table uses).1).Nodup ∧
      ∀ n ∈ taken env uses (runAll env table uses).1, n ≤ 2147483647 ∧ n ∈ table.openNumbers := by
  induction uses generalizing table with
  | nil => exact ⟨.refl table, List.nodup_nil, List.forall_mem_nil _⟩
  | cons use uses ih =>
      obtain ⟨hfirst, htaken⟩ := use.closes_run env table
      obtain ⟨hcloses, hnodup, hlater⟩ := ih (use.run env table).table
      have hcons : taken env (use :: uses) (runAll env table (use :: uses)).1
          = (use.taken? env (use.run env table).finding).toList
            ++ taken env uses (runAll env (use.run env table).table uses).1 :=
        taken_cons env use uses _ _
      rw [hcons]
      refine ⟨hfirst.trans hcloses, List.nodup_append'.2 ⟨?_, hnodup, ?_⟩, ?_⟩
      · exact Option.toList_nodup _
      · -- a number that the first use has closed is not open for a later one
        intro n hn hagain
        exact (hfirst.mem_openNumbers_iff.1 (hlater n hagain).2).2 hn
      · intro n hn
        rcases List.mem_append.1 hn with hnow | hthen
        · exact htaken n (Option.mem_toList.1 hnow)
        · obtain ⟨hbound, hopen⟩ := hlater n hthen
          exact ⟨hbound, (hfirst.mem_openNumbers_iff.1 hopen).1⟩

/-- What a use does with a table of which some numbers were taken before. -/
structure TakesRightly (env : Environment) (table : DescriptorTable) (gone : List Nat)
    (use : Use) : Prop where
  /-- Texts, numbers and payloads are found without a descriptor. -/
  reads : use.wants? = none → (use.run env table).table = table
  fails : ∀ e, (use.run env table).finding = .error e → (use.run env table).table = table
  succeeds_iff : ∀ name access, use.wants? = some (name, access) →
    ((∃ finding, (use.run env table).finding = .ok finding) ↔
      ∃ n, env.Spells name n ∧ n ≤ 2147483647 ∧
        ∃ d, table.find? n = some d ∧ (d.mode = .readWrite ∨ d.mode = access.only))
  /-- No spelling of a number that was taken names a descriptor again. -/
  refuses : ∀ name access, use.wants? = some (name, access) → ∀ n ∈ gone, env.Spells name n →
    (use.run env table).finding = .error (.badDescriptor name n access)

theorem takesRightly {gone : List Nat}
    (h : ∀ n ∈ gone, n ≤ 2147483647 ∧ n ∉ table.openNumbers) :
    TakesRightly env table gone use where
  reads := table_run_of_wants_none
  fails := by
    intro e herror
    cases hwants : use.wants? with
    | none => exact table_run_of_wants_none hwants
    | some file =>
        rcases run_of_wants env table hwants with ⟨_, -, -, htable⟩ | ⟨_, _, -, hfinding, -⟩
        · exact htable
        · rw [hfinding] at herror
          exact absurd herror (by simp)
  succeeds_iff := by
    intro name access hwants
    refine Iff.trans ?_ (exists_congr fun n => Environment.descriptor_eq_ok_iff_spells)
    rcases run_of_wants env table hwants with
      ⟨e, hdescriptor, hfinding, -⟩ | ⟨n, _, hdescriptor, hfinding, -⟩
    · simp [hfinding, hdescriptor]
    · exact iff_of_true ⟨_, hfinding⟩ ⟨n, hdescriptor⟩
  refuses := by
    intro name access hwants n hn hspells
    obtain ⟨hbound, hclosed⟩ := h n hn
    have hbad : env.descriptor table name access = .error (.badDescriptor name n access) :=
      Environment.descriptor_of_not_open hspells hbound hclosed
    rcases run_of_wants env table hwants with
      ⟨e, hdescriptor, hfinding, -⟩ | ⟨_, _, hdescriptor, -, -⟩
    · rw [hbad, Except.error.injEq] at hdescriptor
      rw [hfinding, hdescriptor]
    · rw [hbad] at hdescriptor
      exact absurd hdescriptor (by simp)

/-- What is open after any uses is what was open before them, with the same content, without the
numbers that were taken, and none was taken twice. Each use on the way takes its descriptor exactly
if it may, and changes nothing otherwise. -/
theorem runAll_takes_once (env : Environment) (table : DescriptorTable) (uses : List Use) :
    (runAll env table uses).2.1.filter (·.isOpen)
        = (table.filter (·.isOpen)).filter
          (·.number ∉ taken env uses (runAll env table uses).1) ∧
      (taken env uses (runAll env table uses).1).Nodup ∧
      ∀ before use after, uses = before ++ use :: after →
        let earlier := (runAll env table before).1
        let now := (runAll env table before).2.1
        (∃ later, (runAll env table uses).1 = earlier ++ (use.run env now).finding :: later) ∧
          TakesRightly env now (taken env before earlier) use := by
  obtain ⟨hcloses, hnodup, -⟩ := closes_runAll env table uses
  refine ⟨hcloses, hnodup, ?_⟩
  rintro before use after rfl earlier now
  refine ⟨⟨_, findings_append env table before (use :: after)⟩, takesRightly ?_⟩
  intro n hn
  obtain ⟨hbefore, -, htaken⟩ := closes_runAll env table before
  exact ⟨(htaken n hn).1, fun hopen => (hbefore.mem_openNumbers_iff.1 hopen).2 hn⟩

/-- Where two variables spell one number, the second comes too late. -/
example :
    let env : Environment := fun name => if name = "first" then some "7" else some " +007"
    let findings := (runAll env [⟨7, .readWrite, [65], true, false⟩]
      [.write "first" [66, 66], .int "second", .readAll "second"]).1
    findings = [.ok .written, .ok (.int 7), .error (.badDescriptor "second" 7 .read)] := by
  rfl

end Use

end Valuer
