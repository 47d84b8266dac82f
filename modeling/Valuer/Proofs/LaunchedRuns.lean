import Valuer.Proofs.Launching
import Valuer.Proofs.Transcript

set_option autoImplicit false

/-! # Runs from the environment

A run from the environment is a run over what the input descriptor holds: the same hooks see the
same context and the run ends in the same way. Its outlet holds nothing back: whenever the run waits
for the judge, and when it ends, everything that was sent is in the output file, over the beginning
of what stood there. -/

namespace Valuer

/-! ## What an outlet holds -/

namespace Outlet

variable (o : Outlet) (bs cs : List UInt8)

@[simp] theorem commit_nil : o.commit [] = o := by
  simp [commit]

@[simp] theorem commit_commit : (o.commit bs).commit cs = o.commit (bs ++ cs) := by
  simp [commit, List.drop_drop]

@[simp] theorem waiting_flush : o.flush.waiting = [] := rfl

@[simp] theorem waiting_commit : (o.commit bs).waiting = o.waiting := rfl

variable {o} in
/-- There is nothing to flush in an outlet that holds nothing back. -/
theorem flush_of_settled (h : o.waiting = []) : o.flush = o := by
  rw [flush, h, commit_nil, ← h]

theorem flush_reserve (count : Nat) : (o.reserve count).flush = o.flush := by
  unfold reserve
  split
  · exact flush_of_settled o.waiting_flush
  · rfl

/-- What fills the buffer by itself finds it empty. -/
theorem waiting_reserve {count : Nat} (h : capacity ≤ count) : (o.reserve count).waiting = [] := by
  unfold reserve
  split
  · exact o.waiting_flush
  · next hroom =>
      have hlength : o.waiting.length = 0 := by omega
      exact List.eq_nil_of_length_eq_zero hlength

/-- Whichever way bytes take, once flushed they stand right behind what was written before. -/
theorem flush_write : (o.write bs).flush = o.flush.commit bs := by
  rw [← flush_reserve o bs.length]
  unfold write
  split
  · next hlong =>
      have hsettled := o.waiting_reserve hlong
      rw [flush_of_settled hsettled]
      exact flush_of_settled hsettled
  · simp [flush, commit, List.drop_drop]

/-- It does not matter in which pieces bytes are written. -/
theorem flush_foldl_write (pieces : List (List UInt8)) :
    (pieces.foldl write o).flush = o.flush.commit pieces.flatten := by
  induction pieces generalizing o with
  | nil => simp
  | cons bs pieces ih => rw [List.foldl_cons, ih, flush_write, commit_commit, List.flatten_cons]

theorem send_eq (m : Message) : o.send m = o.flush.commit m.encode := by
  have hlines : m.encode = ((m.texts.map Utf8.encode).map (· ++ [Text.lineFeed])).flatten :=
    List.flatMap_def
  rw [hlines, ← flush_foldl_write, send]
  simp only [List.foldl_map]

variable {o} in
/-- An outlet that holds nothing back puts a message into the file before anything else happens. -/
theorem follow_of_settled (h : o.waiting = []) (e : Event) :
    o.follow e = o.commit (e.delivered?.toList.flatMap Message.encode) := by
  unfold follow
  split
  · next m => rw [send_eq, flush_of_settled h]; simp [Event.delivered?]
  · next hquiet =>
      have hnone : e.delivered? = none := by
        cases hdelivered : e.delivered? with
        | none => rfl
        | some m => exact absurd (Event.eq_of_delivered? hdelivered) (hquiet m)
      simp [hnone]

variable {o} in
/-- At every moment of a run the file holds what was sent so far. -/
theorem foldl_follow (h : o.waiting = []) (js : Journal) :
    js.foldl follow o = o.commit (js.delivered.flatMap Message.encode) := by
  induction js generalizing o with
  | nil => exact o.commit_nil.symm
  | cons e js ih =>
      have hsettled : (o.follow e).waiting = [] := by rw [follow_of_settled h, waiting_commit, h]
      have hsent : Journal.delivered (e :: js) = e.delivered?.toList ++ Journal.delivered js := by
        rw [← List.singleton_append, Journal.delivered_append]
        exact congrArg (· ++ Journal.delivered js) (Journal.delivered_concat [] e)
      rw [List.foldl_cons, ih hsettled, follow_of_settled h, commit_commit, hsent,
        List.flatMap_append]

theorem fileAfter_eq (js : Journal) (file : List UInt8) :
    fileAfter js file = js.delivered.flatMap Message.encode
      ++ file.drop (js.delivered.flatMap Message.encode).length := by
  have hsettled : ({ ahead := file } : Outlet).waiting = [] := rfl
  rw [fileAfter, foldl_follow hsettled, flush_of_settled (waiting_commit ..)]
  rfl

end Outlet

/-! ## What a launch needs and leaves -/

namespace DescriptorTable

/-- What can be read does not depend on who has taken what. -/
theorem content_own (table : DescriptorTable) (owned number : Nat) :
    (table.own owned).content number = table.content number := by
  unfold content own
  rw [find?_update table Descriptor.taken (fun _ => rfl) (fun _ => rfl), Option.map_map]
  congr 2
  funext d
  show (if _ then d.taken else d).content = d.content
  split <;> rfl

theorem content_taken (table : DescriptorTable) (first second number : Nat) :
    (table.updateAll [first, second] Descriptor.taken).content number = table.content number := by
  have hboth := update_update table Descriptor.taken (fun _ => rfl) (fun _ _ => rfl) first second
  rw [← hboth]
  exact (content_own (table.own first) second number).trans (content_own table first number)

end DescriptorTable

namespace Launch

variable {env : Environment} {table : DescriptorTable} {l : Launch}

/-- What a run that has sent these bytes leaves of a descriptor: both of the launch are closed, with
the bytes over the beginning of the output file, and no other is touched. -/
def leaves (l : Launch) (sent : List UInt8) (d : Descriptor) : Descriptor :=
  if d.isOpen = false then d
  else if d.number = l.output then
    { d.closed with content := sent ++ d.content.drop sent.length }
  else if d.number = l.input then d.closed
  else d

/-- A launch that is made is one that nothing was wrong with. -/
theorem take_of_ofEnvironment (h : ofEnvironment env table = .ok l) :
    Names env l ∧ Possible env table ∧
      take env table = (.ok l, table.updateAll [l.input, l.output] Descriptor.taken) := by
  have hmade : (take env table).1 = .ok l := h
  cases hfault : firstFault? env table with
  | some e => exact absurd hmade (by simp [take_of_fault hfault])
  | none =>
      obtain ⟨l', hnames, htake⟩ := take_of_sound hfault
      obtain rfl : l' = l := by simpa [htake] using hmade
      exact ⟨hnames, firstFault?_eq_none_iff.1 hfault, htake⟩

theorem Names.different (hnames : Names env l) (hpossible : Possible env table) :
    l.input ≠ l.output := by
  intro hsame
  refine hpossible.different ?_
  rw [hnames.input, hnames.output, hsame]

theorem Names.mem_openNumbers (hnames : Names env l) (hpossible : Possible env table) :
    l.input ∈ table.openNumbers ∧ l.output ∈ table.openNumbers := by
  obtain ⟨input, hinput, -, -, hread⟩ := hpossible.input
  obtain ⟨output, houtput, -, -, hwrite⟩ := hpossible.output
  rw [hnames.input, Option.some.injEq] at hinput
  rw [hnames.output, Option.some.injEq] at houtput
  subst hinput houtput
  exact ⟨DescriptorTable.mem_openNumbers_of_allows hread,
    DescriptorTable.mem_openNumbers_of_allows hwrite⟩

/-- Closing a launch that was taken, once its run has written what it sent. -/
theorem release_writeAlong (hdifferent : l.input ≠ l.output) (js : Journal) :
    l.release ((table.updateAll [l.input, l.output] Descriptor.taken).writeAlong l.output js)
      = table.map (l.leaves (js.delivered.flatMap Message.encode)) := by
  simp only [release, DescriptorTable.writeAlong, DescriptorTable.updateAll,
    DescriptorTable.close, DescriptorTable.update, List.map_map]
  refine List.map_congr_left fun d _ => ?_
  simp only [Function.comp_apply, Bool.and_eq_true, beq_iff_eq, List.mem_cons, List.not_mem_nil,
    or_false, leaves, Outlet.fileAfter_eq]
  cases hopen : d.isOpen with
  | false => simp [hopen]
  | true =>
      by_cases houtput : d.number = l.output
      · have hother : ¬ l.output = l.input := fun h => hdifferent h.symm
        simp [houtput, hopen, hother, Descriptor.taken, Descriptor.closed]
      · by_cases hinput : d.number = l.input
        · simp [hinput, hopen, hdifferent, Descriptor.taken, Descriptor.closed]
        · simp [houtput, hinput, hopen]

@[simp] theorem number_leaves (sent : List UInt8) (d : Descriptor) :
    (l.leaves sent d).number = d.number := by
  unfold leaves
  split
  · rfl
  · split
    · rfl
    · split <;> rfl

theorem isOpen_leaves (sent : List UInt8) (d : Descriptor) :
    (l.leaves sent d).isOpen = (decide (d.number ∉ [l.input, l.output]) && d.isOpen) := by
  unfold leaves
  cases hopen : d.isOpen with
  | false => simp [hopen]
  | true =>
      rw [if_neg (by simp)]
      by_cases houtput : d.number = l.output
      · rw [if_pos houtput]
        simp [houtput, Descriptor.closed]
      · rw [if_neg houtput]
        by_cases hinput : d.number = l.input
        · rw [if_pos hinput]
          simp [hinput, Descriptor.closed]
        · rw [if_neg hinput]
          simp [houtput, hinput, hopen]

/-- Exactly the two descriptors of a launch are closed in the end. -/
theorem openNumbers_leaves (sent : List UInt8) :
    DescriptorTable.openNumbers (table.map (l.leaves sent))
      = table.openNumbers.filter (· ∉ [l.input, l.output]) := by
  have hkept : (fun d => (l.leaves sent d).isOpen)
      = fun d => decide (d.number ∉ [l.input, l.output]) && d.isOpen :=
    funext (isOpen_leaves sent)
  have hnumber : Descriptor.number ∘ l.leaves sent = Descriptor.number :=
    funext (number_leaves sent)
  simp only [DescriptorTable.openNumbers, List.filter_map, List.map_map, hnumber,
    List.filter_filter]
  exact congrArg (fun p => (table.filter p).map Descriptor.number) hkept

end Launch

/-! ## Whole runs -/

/-- A run from the environment refines a run over what the input descriptor holds, with the number
of tests and the payload that the variables spell: both call the same hooks, which see and send the
same, and end with the same result. Afterwards the output file begins with exactly the bytes that
the direct run sends and keeps what lay beyond them, the two descriptors of the launch, which were
open, are the ones that were closed, and no other file is changed. A run that fails leaves as much
as one that succeeds. -/
theorem Strategy.runFrom_refines_run {σ : Type} (S : Strategy σ) (s : σ) (env : Environment)
    (table : DescriptorTable) (l : Launch) (h : Launch.ofEnvironment env table = .ok l) :
    let direct := S.run { count := l.count, seed := l.seed } s (table.content l.input)
    let launched := S.runFrom s env table
    Launch.Names env l ∧
      launched.result = direct.result ∧
      launched.journal = direct.journal ∧
      launched.state = direct.state ∧
      launched.table = table.map (l.leaves direct.context.sink.bytes) ∧
      l.input ≠ l.output ∧ l.input ∈ table.openNumbers ∧ l.output ∈ table.openNumbers ∧
      launched.table.openNumbers = table.openNumbers.filter (· ∉ [l.input, l.output]) := by
  intro direct launched
  obtain ⟨hnames, hpossible, htake⟩ := Launch.take_of_ofEnvironment h
  have hdifferent := hnames.different hpossible
  obtain ⟨hinput, houtput⟩ := hnames.mem_openNumbers hpossible
  -- the launch takes descriptors, but the input is what it was
  have hcontent : (table.updateAll [l.input, l.output] Descriptor.taken).content l.input
      = table.content l.input := DescriptorTable.content_taken ..
  have hlaunched : launched =
      { result := direct.result
        state := direct.state
        table := l.release ((table.updateAll [l.input, l.output] Descriptor.taken).writeAlong
          l.output direct.journal)
        journal := direct.journal
        records := l.records ++ direct.journal.records } := by
    show S.runFrom s env table = _
    rw [Strategy.runFrom, htake]
    simp only [hcontent]
    rfl
  -- the direct run's sink holds what was sent, and so does the output file
  have hunlimited : ({} : Sink).Unlimited := ⟨rfl, rfl⟩
  obtain ⟨rest, hpath⟩ := S.run_path { count := l.count, seed := l.seed } s (table.content l.input)
  have hsent : direct.context.sink.bytes = direct.journal.delivered.flatMap Message.encode :=
    hpath.bytes_eq_of_unlimited hunlimited rfl
  have htable : launched.table = table.map (l.leaves direct.context.sink.bytes) := by
    rw [hlaunched, hsent]
    exact Launch.release_writeAlong hdifferent direct.journal
  refine ⟨hnames, ?_, ?_, ?_, htable, hdifferent, hinput, houtput, ?_⟩
  · rw [hlaunched]
  · rw [hlaunched]
  · rw [hlaunched]
  · rw [htable, Launch.openNumbers_leaves]

/-- A run that fails: its judge is gone before the result of the only test. The request stands over
the beginning of the output file, and the third file is not touched. -/
theorem Strategy.runFrom_refines_run_up_to_failure :
    let env : Environment := fun name =>
      [(inputVar, "100"), (outputVar, " 101"), (countVar, "3"), (seedVar, "00ff")].lookup name
    let table : DescriptorTable := [{ number := 100, mode := .readOnly, content := [10, 32, 10] },
      { number := 101, mode := .readWrite, content := [1, 2, 3, 4, 5, 6, 7, 8] },
      { number := 102, mode := .writeOnly, content := [9] }]
    let S : Strategy Unit := { begin := Act.send (.run 3) }
    let launched := S.runFrom () env table
    launched.result = .error (.unexpectedEnd (.result 3)) ∧
      launched.journal = (S.run { count := some 3, seed := some [0, 255] } () [10, 32, 10]).journal ∧
      launched.table.map (·.content) = [[10, 32, 10], [82, 85, 78, 32, 51, 10, 7, 8], [9]] ∧
      launched.table.openNumbers = [102] := by
  intro env table S launched
  let l : Launch := { input := 100, output := 101, count := some 3, seed := some [0, 255] }
  have hlaunch : Launch.ofEnvironment env table = .ok l := by rfl
  obtain ⟨-, hresult, hjournal, -, htable, -, -, -, hopen⟩ :=
    S.runFrom_refines_run () env table l hlaunch
  have hsent : (S.run { count := l.count, seed := l.seed } ()
      (table.content l.input)).context.sink.bytes = [82, 85, 78, 32, 51, 10] := by
    rfl
  refine ⟨hresult.trans ?_, hjournal, ?_, hopen.trans ?_⟩
  · rfl
  · rw [htable, hsent]
    rfl
  · rfl

end Valuer
