import Mathlib.Data.List.Nodup
import Valuer.Proofs.ByteClasses
import Valuer.Proofs.LogEntries

set_option autoImplicit false

/-! # What a log holds after any edits

A log is built by pushing entries and giving it names, in any order, and some of the pushes fail.
It holds the entries whose push went well, as they were pushed and in that order, and nothing else
of what was tried is left in it (`JudgeLog.editAll_keeps_account`). Which pushes go well can be told
from the list of edits alone: of the entries that can be logged, the first for each test. -/

namespace Valuer

/-! ## Codes that can be logged -/

/-- The ASCII white space among the bytes. -/
def isBlankByte (b : UInt8) : Bool :=
  b == 32 || b == 9 || b == 10 || b == 12 || b == 13

/-- The ASCII controls among the bytes. -/
def isControlByte (b : UInt8) : Bool :=
  b < 32 || b == 127

/-- A status code that can stand in a log: there is some, and none of its bytes is white space or a
control. -/
def Loggable (code : String) : Prop :=
  code ≠ "" ∧ ∀ b ∈ Utf8.encode code, isBlankByte b = false ∧ isControlByte b = false

instance (code : String) : Decidable (Loggable code) :=
  inferInstanceAs (Decidable (_ ∧ _))

theorem reflects_fit : Utf8.Reflects (fun b => !isBlankByte b && !isControlByte b)
    (fun c => !Text.isBlank c && !Text.isControl c) := by
  refine .of_ascii (by decide) true (fun b hb => ?_) fun c hc => ?_
  · simp only [isBlankByte, isControlByte, Bool.not_or, Bool.and_eq_true, Bool.not_eq_true',
      beq_eq_false_iff_ne, ne_eq, decide_eq_false_iff_not, Nat.not_lt, UInt8.lt_iff_toNat_lt,
      ← UInt8.toNat_inj, UInt8.reduceToNat]
    omega
  · simp only [Text.isBlank, Text.isControl, Bool.not_or, Bool.and_eq_true, Bool.not_eq_true',
      beq_eq_false_iff_ne, ne_eq, decide_eq_false_iff_not, Nat.not_lt, ← Char.toNat_inj,
      Char.reduceToNat]
    omega

theorem isToken_iff_loggable {code : String} : isToken code = true ↔ Loggable code := by
  have hall := reflects_fit.all_encode code
  rw [isToken, ← hall, Bool.and_eq_true, bne_iff_ne, List.all_eq_true, Loggable]
  simp only [Bool.and_eq_true, Bool.not_eq_true']

namespace JudgeLog

/-! ## Edits -/

/-- What can be done to a log. -/
inductive Edit where
  | push (e : LogEntry)
  | rename (name : String)

/-- The entry that an edit is to add. -/
def Edit.entry? : Edit → Option LogEntry
  | .push e => some e
  | .rename _ => none

/-- The name that an edit gives. -/
def Edit.name? : Edit → Option String
  | .push _ => none
  | .rename name => some name

/-- A log after an edit, and how the edit went. -/
def edit (log : JudgeLog) : Edit → JudgeLog × Except Error Unit
  | .push e =>
      match log.push e with
      | .ok next => (next, .ok ())
      | .error error => (log, .error error)
  | .rename name => (log.rename name, .ok ())

/-- A log after some edits, and each of them with how it went. -/
def editAll (log : JudgeLog) : List Edit → JudgeLog × List (Edit × Except Error Unit)
  | [] => (log, [])
  | x :: xs =>
      let (next, outcome) := log.edit x
      let (last, later) := next.editAll xs
      (last, (x, outcome) :: later)

/-- The entry of a push that went well. -/
def taken? : Edit × Except Error Unit → Option LogEntry
  | (.push e, .ok ()) => some e
  | _ => none

variable {log next : JudgeLog} {e : LogEntry} {test : UInt32}

/-! ## One edit -/

/-- What becomes of a push. A code that cannot be logged is told first, and a push that fails leaves
the log as it was. -/
structure PushesRightly (log : JudgeLog) (e : LogEntry) : Prop where
  unfit : ¬ Loggable e.code → log.edit (.push e) = (log, .error (.badStatusCode e.code))
  repeated : Loggable e.code → (∃ d ∈ log.entries, d.test = e.test) →
    log.edit (.push e) = (log, .error (.duplicateTest e.test))
  taken : Loggable e.code → (∀ d ∈ log.entries, d.test ≠ e.test) →
    ∃ next, log.edit (.push e) = (next, .ok ()) ∧ next.name = log.name ∧
      next.entries = log.entries ++ [e]

theorem pushesRightly (log : JudgeLog) (e : LogEntry) : PushesRightly log e where
  unfit h := by
    have hcode : ¬ isToken e.code = true := fun htoken => h (isToken_iff_loggable.1 htoken)
    rw [edit, push_of_unfit hcode]
  repeated h hthere := by
    obtain ⟨d, hd, hsame⟩ := hthere
    have hsome : log.get? e.test ≠ none := by
      rw [Ne, get?_eq_none_iff, not_not]
      exact hsame ▸ List.mem_map_of_mem hd
    rw [edit, push_of_repeated (isToken_iff_loggable.2 h) hsome]
  taken h hnew := by
    have hnone : log.get? e.test = none := by
      rw [get?_eq_none_iff, List.mem_map]
      rintro ⟨d, hd, hsame⟩
      exact hnew d hd hsame
    obtain ⟨next, hpush, hname, hentries⟩ := push_of_new (isToken_iff_loggable.2 h) hnone
    exact ⟨next, by rw [edit, hpush], hname, hentries⟩

/-- A log has one entry for a test at most, and finds it. -/
theorem get?_eq_some_iff : log.get? test = some e ↔ e ∈ log.entries ∧ e.test = test := by
  have hfound : ∀ {d : LogEntry} {t : UInt32}, log.get? t = some d →
      d ∈ log.entries ∧ d.test = t := by
    intro d t hd
    unfold get? at hd
    exact ⟨List.mem_of_find?_eq_some hd, by simpa using List.find?_some hd⟩
  refine ⟨hfound, ?_⟩
  rintro ⟨he, rfl⟩
  cases hfind : log.get? e.test with
  | none => exact absurd (List.mem_map_of_mem he) (get?_eq_none_iff.1 hfind)
  | some d =>
      obtain ⟨hd, hsame⟩ := hfound hfind
      rw [List.inj_on_of_nodup_map log.distinct hd he hsame]

theorem taken?_eq_some_iff {x : Edit × Except Error Unit} :
    taken? x = some e ↔ x = (.push e, .ok ()) := by
  unfold taken?
  split
  · simp [Prod.ext_iff]
  · next hother =>
      simp only [reduceCtorEq, false_iff]
      rintro rfl
      exact hother e rfl

/-- An edit adds the entry of a push that goes well, and no other. -/
theorem entries_edit (log : JudgeLog) (x : Edit) :
    (log.edit x).1.entries = log.entries ++ (taken? (x, (log.edit x).2)).toList := by
  cases x with
  | rename name => exact (List.append_nil _).symm
  | push e =>
      cases hpush : log.push e with
      | error error => simp [edit, hpush, taken?]
      | ok next => simp [edit, hpush, taken?, (push_eq_ok hpush).2.2]

theorem name_edit (log : JudgeLog) (x : Edit) :
    (log.edit x).1.name = x.name?.getD log.name := by
  cases x with
  | rename name => rfl
  | push e =>
      cases hpush : log.push e with
      | error error => simp [edit, hpush, Edit.name?]
      | ok next => simp [edit, hpush, Edit.name?, (push_eq_ok hpush).2.1]

/-- What is found of a test after a push: what was found before, or else the entry, if it can be
logged and is that of the test. -/
theorem get?_edit_push (log : JudgeLog) (e : LogEntry) (test : UInt32) :
    (log.edit (.push e)).1.get? test
      = (log.get? test).or (if Loggable e.code ∧ e.test = test then some e else none) := by
  have hpush := pushesRightly log e
  by_cases hcode : Loggable e.code
  · by_cases hthere : ∃ d ∈ log.entries, d.test = e.test
    · obtain ⟨d, hd, hsame⟩ := hthere
      rw [hpush.repeated hcode ⟨d, hd, hsame⟩]
      split
      · next htest =>
          -- what was pushed is for a test that has its entry already
          have hfound : log.get? test = some d := get?_eq_some_iff.2 ⟨hd, hsame.trans htest.2⟩
          rw [hfound, Option.some_or]
      · exact Option.or_none.symm
    · have hnew : ∀ d ∈ log.entries, d.test ≠ e.test := fun d hd hsame => hthere ⟨d, hd, hsame⟩
      obtain ⟨next, hedit, -, hentries⟩ := hpush.taken hcode hnew
      rw [hedit, get?, hentries, List.find?_append, List.find?_singleton, get?]
      simp only [hcode, true_and, beq_iff_eq]
  · rw [hpush.unfit hcode, if_neg fun h => hcode h.1, Option.or_none]

/-! ## Many edits -/

theorem entries_editAll (log : JudgeLog) (xs : List Edit) :
    (log.editAll xs).1.entries = log.entries ++ (log.editAll xs).2.filterMap taken? := by
  induction xs generalizing log with
  | nil => exact (List.append_nil _).symm
  | cons x xs ih =>
      simp only [editAll, ih, entries_edit, List.append_assoc, List.filterMap_cons]
      cases taken? (x, (log.edit x).2) <;> rfl

theorem name_editAll (log : JudgeLog) (xs : List Edit) :
    (log.editAll xs).1.name = (xs.filterMap Edit.name?).getLast?.getD log.name := by
  induction xs generalizing log with
  | nil => rfl
  | cons x xs ih =>
      simp only [editAll, ih, name_edit, List.filterMap_cons]
      cases x.name? with
      | none => rfl
      | some name => simp [List.getLast?_cons]

theorem editAll_append (log : JudgeLog) (xs ys : List Edit) :
    log.editAll (xs ++ ys) =
      let first := log.editAll xs
      let last := first.1.editAll ys
      (last.1, first.2 ++ last.2) := by
  induction xs generalizing log with
  | nil => rfl
  | cons x xs ih => simp only [List.cons_append, editAll, ih]

theorem get?_editAll (log : JudgeLog) (xs : List Edit) (test : UInt32) :
    (log.editAll xs).1.get? test = (log.get? test).or
      ((xs.filterMap Edit.entry?).find? fun e => decide (Loggable e.code ∧ e.test = test)) := by
  induction xs generalizing log with
  | nil => exact Option.or_none.symm
  | cons x xs ih =>
      cases x with
      | rename newName => exact ih (log.rename newName)
      | push e =>
          simp only [editAll, ih, get?_edit_push, List.filterMap_cons, Edit.entry?, List.find?_cons,
            Option.or_assoc]
          congr 1
          by_cases htest : Loggable e.code ∧ e.test = test <;> simp [htest]

/-- However a log is edited, one edit after the other, it holds the entries whose push went well,
unchanged, in that order and each for another test, under the last name that it was given. A push
goes well exactly if its code can be logged and no entry is there for its test; it fails for the
code first, and then nothing has changed. What is found of a test is the entry whose push went well,
which is the first one for that test that can be logged, and it stays there whatever is done
later. -/
theorem editAll_keeps_account (name : String) (edits : List Edit) :
    let log := ((empty name).editAll edits).1
    let history := ((empty name).editAll edits).2
    (∀ x, (empty name).editAll (edits ++ [x])
      = ((log.edit x).1, history ++ [(x, (log.edit x).2)])) ∧
    log.entries = history.filterMap taken? ∧ (log.entries.map (·.test)).Nodup ∧
    log.name = (edits.filterMap Edit.name?).getLast?.getD name ∧
    (∀ e, PushesRightly log e) ∧
    (∀ test e, log.get? test = some e ↔ (.push e, .ok ()) ∈ history ∧ e.test = test) ∧
    (∀ test, log.get? test
      = (edits.filterMap Edit.entry?).find? fun e => decide (Loggable e.code ∧ e.test = test)) ∧
    ∀ later test e, log.get? test = some e →
      ((empty name).editAll (edits ++ later)).1.get? test = some e := by
  intro log history
  have hentries : log.entries = history.filterMap taken? := entries_editAll (empty name) edits
  refine ⟨fun x => editAll_append (empty name) edits [x], hentries, log.distinct,
    name_editAll (empty name) edits, pushesRightly log, ?_,
    fun test => get?_editAll (empty name) edits test, ?_⟩
  · intro test e
    rw [get?_eq_some_iff, hentries, List.mem_filterMap]
    simp [taken?_eq_some_iff]
  · intro later test e h
    obtain ⟨he, htest⟩ := get?_eq_some_iff.1 h
    refine get?_eq_some_iff.2 ⟨?_, htest⟩
    rw [editAll_append]
    show e ∈ (log.editAll later).1.entries
    rw [entries_editAll]
    exact List.mem_append_left _ he

end JudgeLog

end Valuer
