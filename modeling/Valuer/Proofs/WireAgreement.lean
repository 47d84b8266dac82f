import Valuer.Proofs.Bookkeeping
import Valuer.Proofs.Transcript

set_option autoImplicit false

/-! # What a run writes

The judge of a run whose sink never fails reads exactly the messages that the strategy sent with
success, and these keep to the protocol: tests that exist are asked for one at a time, and the
report is the last word but for comments. -/

namespace Valuer

/-! ## Readings that the wire does not change -/

theorem Message.filterMap_onWire {α : Type} {f : Message → Option α}
    (hf : ∀ m : Message, f m.onWire = f m) (ms : List Message) :
    (ms.map onWire).filterMap f = ms.filterMap f := by
  have hcomp : f ∘ onWire = f := funext hf
  rw [List.filterMap_map, hcomp]

theorem Message.test?_onWire (m : Message) : m.onWire.test? = m.test? := by
  cases m <;> rfl

theorem Message.report?_onWire (m : Message) : m.onWire.report? = m.report? := by
  cases m <;> rfl

/-- A message that asks for a test is on the wire exactly if the test was asked for. -/
theorem Message.mem_map_onWire_run {ms : List Message} {test : UInt32} :
    .run test ∈ ms.map onWire ↔ test ∈ ms.filterMap Message.test? := by
  rw [← filterMap_onWire test?_onWire, List.mem_filterMap]
  constructor
  · intro h
    exact ⟨_, h, rfl⟩
  · rintro ⟨m, hm, htest⟩
    cases m with
    | run t =>
        cases htest
        exact hm
    | comment audience text | finish report => exact absurd htest (by simp [test?])

theorem ClosedBy.onWire {report : Option Report} {ms : List Message} (h : ClosedBy report ms) :
    ClosedBy report (ms.map Message.onWire) := by
  cases report with
  | none =>
      rw [ClosedBy, Message.filterMap_onWire Message.report?_onWire]
      exact h
  | some report =>
      obtain ⟨before, after, rfl, hbefore, hafter⟩ := h
      refine ⟨before.map Message.onWire, after.map Message.onWire, ?_, ?_, ?_⟩
      · rw [List.map_append, List.map_cons]
        rfl
      · rw [Message.filterMap_onWire Message.report?_onWire]
        exact hbefore
      · intro m hm
        obtain ⟨c, hc, rfl⟩ := List.mem_map.1 hm
        have hcomment := hafter c hc
        cases c with
        | comment audience text => rfl
        | run test | finish r => exact absurd hcomment (by simp [Message.isComment])

/-! ## Whole runs -/

/-- Whatever a strategy does and whatever its judge says: if the sink never fails, reading what was
written to its end gives no error and exactly the messages that were sent with success, in order,
with spaces for the line breaks of comments. At most one of them is a report, and no test is asked
for after it; only tests that exist are asked for, one for each result that the strategy was told
and at most one more. A run that ends with a report has sent that report and no other. -/
theorem Strategy.readAll_run {σ : Type} (S : Strategy σ) (count : Option UInt32)
    (seed : Option (List UInt8)) (s : σ) (stream : List UInt8) :
    let run := S.run { count, seed } s stream
    let ms := run.journal.delivered.map Message.onWire
    Message.readAll (Text.lines run.context.sink.bytes) = ms.map .ok ∧
      (ms.filterMap Message.report?).length ≤ 1 ∧
      (∀ before report after, ms = before ++ .finish report :: after → ∀ test, .run test ∉ after) ∧
      (∀ test, .run test ∈ ms → 1 ≤ test ∧ ∀ c, count = some c → test ≤ c) ∧
      ((ms.filterMap Message.test?).length = run.journal.reports.length ∨
        (ms.filterMap Message.test?).length = run.journal.reports.length + 1) ∧
      ∀ report, run.result = .ok report → ms.filterMap Message.report? = [report] := by
  intro run ms
  have hfresh := Point.fits_fresh count seed {}
  have hunlimited : ({ count, seed } : Context).sink.Unlimited := ⟨rfl, rfl⟩
  obtain ⟨rest, hpath⟩ := S.run_path { count, seed } s stream
  obtain ⟨hfits, hbooks⟩ := hpath.books hfresh
  have hclosed : ClosedBy run.context.report ms := hbooks.closed.onWire
  have hreports := hclosed.reports_eq
  have htests : ms.filterMap Message.test? = run.journal.requests :=
    Message.filterMap_onWire Message.test?_onWire _
  refine ⟨?_, ?_, ?_, ?_, ?_, ?_⟩
  · have hbytes : run.context.sink.bytes = run.journal.delivered.flatMap Message.encode :=
      hpath.bytes_eq_of_unlimited hunlimited rfl
    have hread := Message.readAll_encode run.journal.delivered []
    rw [List.append_nil, Text.lines_nil, Message.readAll_nil, List.append_nil] at hread
    rw [hbytes, hread, List.map_map]
    rfl
  · rw [hreports]
    cases run.context.report <;> simp
  · intro before report after hms test hmem
    cases hreport : run.context.report with
    | none =>
        rw [hreport, hms, List.filterMap_append, List.filterMap_cons] at hreports
        exact absurd hreports (by simp [Message.report?])
    | some last =>
        have hcomment := (hreport ▸ hclosed).comments_after hms _ hmem
        exact absurd hcomment (by simp [Message.isComment])
  · intro test hmem
    obtain ⟨hzero, hbound⟩ := hbooks.in_range test (Message.mem_map_onWire_run.1 hmem)
    refine ⟨?_, hbound⟩
    rw [UInt32.le_iff_toNat_le]
    have hpos : test.toNat ≠ 0 := fun h => hzero (UInt32.toNat_inj.1 h)
    exact Nat.one_le_iff_ne_zero.2 hpos
  · have howed : (ms.filterMap Message.test?).length
        = run.journal.reports.length + run.context.pending.toList.length := by
      have hbalance : run.journal.requests
          = run.journal.reports.map (·.test) ++ run.context.pending.toList := hbooks.balance
      rw [htests, hbalance, List.length_append, List.length_map]
    rw [howed]
    cases run.context.pending with
    | none => exact .inl rfl
    | some test => exact .inr rfl
  · intro report hresult
    have hover : (Point.over run.result).Fits run.context := hfits
    rw [hresult] at hover
    rw [hreports, hover.2.1]
    rfl

end Valuer
