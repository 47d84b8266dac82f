import Valuer.Journal

set_option autoImplicit false

/-! # What a journal tells

Readings of a journal: the messages that were sent with success, the tests that were asked for, the
hooks that were called and the results they were called with. Each reading goes through the events
one by one, so it is the same for a journal whatever was read before it. -/

namespace Valuer

/-- The test that a message asks for. -/
def Message.test? : Message → Option UInt32
  | .run test => some test
  | _ => none

/-- The report that a message sends. -/
def Message.report? : Message → Option Report
  | .finish report => some report
  | _ => none

def Message.isComment : Message → Bool
  | .comment _ _ => true
  | _ => false

/-- A reading that comments have no part in finds nothing in them. -/
theorem Message.filterMap_of_comments {α : Type} {f : Message → Option α}
    (hf : ∀ audience text, f (.comment audience text) = none) {ms : List Message}
    (h : ∀ m ∈ ms, m.isComment = true) : ms.filterMap f = [] := by
  rw [List.filterMap_eq_nil_iff]
  intro m hm
  have hcomment := h m hm
  cases m with
  | comment audience text => exact hf audience text
  | run test | finish report => exact absurd hcomment (by simp [isComment])

/-- The result that a hook is called with. -/
def Hook.report? : Hook → Option TestReport
  | .testEnd report => some report
  | _ => none

namespace Event

/-- The message that was sent with success. -/
def delivered? : Event → Option Message
  | .sent m (.ok ()) => some m
  | _ => none

/-- Why a message was refused, if one was. -/
def refused? : Event → Option Violation
  | .sent _ (.error (.protocol v)) => some v
  | _ => none

/-- Whether the event is a message that was allowed and that the sink did not take. -/
def isLost : Event → Bool
  | .sent _ (.error (.stream _)) => true
  | _ => false

/-- Whether the event is a fault that a run must not survive: a message that was refused, or a hook
that returned an error. -/
def isFault : Event → Bool
  | .sent _ (.error (.protocol _)) => true
  | .returned (.error _) => true
  | _ => false

/-- The hook that was called. -/
def called? : Event → Option Hook
  | .entered hook _ => some hook
  | _ => none

/-- Whether the event is something that a strategy does in a hook. -/
def isAct : Event → Bool
  | .looked _ => true
  | .sent _ _ => true
  | .noted _ => true
  | _ => false

theorem eq_of_delivered? {e : Event} {m : Message} (h : e.delivered? = some m) :
    e = .sent m (.ok ()) := by
  unfold delivered? at h
  split at h
  · cases h
    rfl
  · exact absurd h (by simp)

/-- What a strategy does in a hook is a fault exactly if it is a message that was refused. -/
theorem isFault_eq_false {e : Event} (hact : e.isAct = true) (hrefused : e.refused? = none) :
    e.isFault = false := by
  cases e with
  | sent m outcome =>
      cases outcome with
      | ok u => rfl
      | error err =>
          cases err with
          | protocol v => exact absurd hrefused (by simp [refused?])
          | _ => rfl
  | looked view | noted record => rfl
  | _ => exact absurd hact (by simp [isAct])

theorem refused?_eq_none {e : Event} (h : e.isFault = false) : e.refused? = none := by
  cases hrefused : e.refused? with
  | none => rfl
  | some v =>
      unfold refused? at hrefused
      split at hrefused
      · exact absurd h (by simp [isFault])
      · exact absurd hrefused (by simp)

end Event

namespace Journal

/-- The messages that were sent with success, in order. -/
def delivered (js : Journal) : List Message :=
  js.filterMap Event.delivered?

/-- The tests that were asked for with success, in order. -/
def requests (js : Journal) : List UInt32 :=
  js.delivered.filterMap Message.test?

/-- The hooks that were called, in order. -/
def calls (js : Journal) : List Hook :=
  js.filterMap Event.called?

/-- The results that the strategy was told, in order. -/
def reports (js : Journal) : List TestReport :=
  js.calls.filterMap Hook.report?

/-- Why the first message that was refused was refused. -/
def refusal? (js : Journal) : Option Violation :=
  js.findSome? Event.refused?

theorem filterMap_concat {α β : Type} (f : α → Option β) (l : List α) (a : α) :
    (l ++ [a]).filterMap f = l.filterMap f ++ (f a).toList := by
  rw [List.filterMap_append, List.filterMap_cons, List.filterMap_nil]
  cases f a <;> rfl

variable (js ks : Journal) (e : Event)

theorem delivered_append : delivered (js ++ ks) = delivered js ++ delivered ks :=
  List.filterMap_append

theorem delivered_concat : delivered (js ++ [e]) = delivered js ++ e.delivered?.toList :=
  filterMap_concat ..

theorem requests_append : requests (js ++ ks) = requests js ++ requests ks := by
  rw [requests, delivered_append, List.filterMap_append, requests, requests]

/-- Nothing is refused in two journals one after the other if nothing is refused in either. -/
theorem refusal?_append_eq_none {js ks : Journal} (hjs : refusal? js = none)
    (hks : refusal? ks = none) : refusal? (js ++ ks) = none := by
  rw [refusal?, List.findSome?_append, Option.or_eq_none_iff]
  exact ⟨hjs, hks⟩

variable {js} in
/-- A message that was sent with success was sent at some point of the journal. -/
theorem exists_of_delivered_eq {m : Message} {before after : List Message}
    (h : delivered js = before ++ m :: after) :
    ∃ pre post, js = pre ++ .sent m (.ok ()) :: post ∧ delivered pre = before ∧
      delivered post = after := by
  obtain ⟨left, right, rfl, hbefore, hright⟩ := List.filterMap_eq_append_iff.1 h
  obtain ⟨skipped, e, post, rfl, hskipped, he, hafter⟩ := List.filterMap_eq_cons_iff.1 hright
  obtain rfl := Event.eq_of_delivered? he
  refine ⟨left ++ skipped, post, (List.append_assoc ..).symm, ?_, hafter⟩
  rw [delivered_append, delivered, hbefore, delivered, List.filterMap_eq_nil_iff.2 hskipped,
    List.append_nil]

theorem requests_concat :
    requests (js ++ [e]) = requests js ++ (e.delivered?.bind Message.test?).toList := by
  rw [requests, delivered_concat, List.filterMap_append, requests]
  cases e.delivered? with
  | none => rfl
  | some m => exact congrArg _ (filterMap_concat Message.test? [] m)

theorem calls_concat : calls (js ++ [e]) = calls js ++ e.called?.toList :=
  filterMap_concat ..

@[simp] theorem reports_nil : reports [] = [] := rfl

theorem reports_append : reports (js ++ ks) = reports js ++ reports ks := by
  rw [reports, calls, List.filterMap_append, List.filterMap_append]
  rfl

variable {e} in
theorem calls_concat_of_none (h : e.called? = none) : calls (js ++ [e]) = calls js := by
  rw [calls_concat, h, Option.toList_none, List.append_nil]

theorem reports_concat :
    reports (js ++ [e]) = reports js ++ (e.called?.bind Hook.report?).toList := by
  rw [reports, calls_concat, List.filterMap_append, reports]
  cases e.called? with
  | none => rfl
  | some hook => exact congrArg _ (filterMap_concat Hook.report? [] hook)

variable {e} in
theorem reports_concat_of_none (h : e.called?.bind Hook.report? = none) :
    reports (js ++ [e]) = reports js := by
  rw [reports_concat, h, Option.toList_none, List.append_nil]

end Journal

end Valuer
