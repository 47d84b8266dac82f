import Valuer.Proofs.Sequential.Report

set_option autoImplicit false

/-! # Stopping early

A run that the first failed test ends is the beginning of the run that goes through all tests
(`strategy_stops_early`). The two need not be followed side by side. The results that the full run
reports on cover its whole plan, and up to the first failure they cover the plan of the run that
stops; and a judge that sends what covers a plan gets its report (`run_of_read`). -/

namespace Valuer

/-! ## Lists up to an element -/

section UpToFirst

variable {α β : Type} (p : α → Prop) [DecidablePred p]

/-- A list up to the first element with the property, which is kept. -/
def upToFirst : List α → List α
  | [] => []
  | a :: as => if p a then [a] else a :: upToFirst as

theorem upToFirst_prefix_self (l : List α) : upToFirst p l <+: l := by
  induction l with
  | nil => exact List.prefix_rfl
  | cons a as ih =>
      unfold upToFirst
      split
      · exact ⟨as, rfl⟩
      · exact (List.prefix_cons_inj a).2 ih

theorem map_upToFirst (f : β → α) (l : List β) :
    (upToFirst (fun b => p (f b)) l).map f = upToFirst p (l.map f) := by
  induction l with
  | nil => rfl
  | cons b bs ih =>
      simp only [upToFirst, List.map_cons]
      split
      · rfl
      · rw [List.map_cons, ih]

variable {p} {l : List α}

/-- No element but the last one has the property. -/
theorem not_of_mem_dropLast_upToFirst : ∀ a ∈ (upToFirst p l).dropLast, ¬ p a := by
  induction l with
  | nil => simp [upToFirst]
  | cons a as ih =>
      unfold upToFirst
      split
      · simp
      · next ha =>
          intro b hb
          cases hrest : upToFirst p as with
          | nil => simp [hrest] at hb
          | cons c cs =>
              rw [hrest, List.dropLast_cons_cons, ← hrest] at hb
              rcases List.mem_cons.1 hb with rfl | hb
              · exact ha
              · exact ih b hb

variable (p l) in
/-- Something is cut off only behind an element with the property. -/
theorem upToFirst_eq_or_getLast? :
    upToFirst p l = l ∨ ∃ a, (upToFirst p l).getLast? = some a ∧ p a := by
  induction l with
  | nil => exact .inl rfl
  | cons a as ih =>
      unfold upToFirst
      split
      · next ha => exact .inr ⟨a, rfl, ha⟩
      · rcases ih with hall | ⟨b, hlast, hb⟩
        · exact .inl (congrArg _ hall)
        · exact .inr ⟨b, by simp [List.getLast?_cons, hlast], hb⟩

/-- An element with the property is not lost unless there is another. -/
theorem forall_mem_upToFirst_iff : (∀ a ∈ upToFirst p l, ¬ p a) ↔ ∀ a ∈ l, ¬ p a := by
  constructor
  · intro hnone
    rcases upToFirst_eq_or_getLast? p l with hall | ⟨a, hlast, ha⟩
    · rw [← hall]
      exact hnone
    · exact absurd ha (hnone a (List.mem_of_getLast? hlast))
  · exact fun hnone a ha => hnone a ((upToFirst_prefix_self p l).subset ha)

end UpToFirst

/-- The same configuration, with the plan ended by the first failure or not. -/
def Config.stopping (config : Config) (stopOnFailure : Bool) : Config :=
  { config with stopOnFailure }

/-- A report that says of the tests up to the first failure what another says of all tests. -/
structure Report.Truncates (a b : Report) : Prop where
  name_eq : a.log.name = b.log.name
  entries_eq : a.log.entries = upToFirst (fun e => e.verdict ≠ .accepted) b.log.entries
  score_le : a.score ≤ b.score
  full_eq : a.full = b.full

namespace Sequential

variable {config : Config} {count : Option UInt32} {tests : List UInt32} {es : List LogEntry}
  {results : List TestResult} {report : Report} {seed : Option (List UInt8)}
  {stream : List UInt8}

/-! ## The results of the run that stops -/

/-- Entries of all tests cover, up to the first failure, the plan that the failure ends. -/
theorem covers_upToFirst (hstop : config.stopOnFailure = true)
    (htests : es.map (·.test) = tests) :
    Covers config tests (upToFirst (fun e => e.verdict ≠ .accepted) es) where
  leading := htests ▸ (upToFirst_prefix_self _ es).map _
  passed _ e he := not_not.1 (not_of_mem_dropLast_upToFirst e he)
  ended := by
    rcases upToFirst_eq_or_getLast? (fun e => e.verdict ≠ .accepted) es with hall | hlast
    · rw [hall]
      exact .inl htests
    · exact .inr ⟨hstop, hlast⟩

/-- The results up to the first of a test that was not passed. -/
def upToFailure (results : List TestResult) : List TestResult :=
  upToFirst (fun r => countedAs r.code ≠ .accepted) results

theorem map_entry_upToFailure (config : Config) (results : List TestResult) :
    (upToFailure results).map (entry config)
      = upToFirst (fun e => e.verdict ≠ .accepted) (results.map (entry config)) :=
  map_upToFirst (fun e : LogEntry => e.verdict ≠ .accepted) (entry config) results

/-! ## Two reports -/

/-- A report is full exactly if nothing that covers the plan has failed. -/
theorem ReportsOn.full_iff_passed (h : ReportsOn config tests results report)
    (hcovers : Covers config tests (results.map (entry config))) :
    report.full = true ↔ ∀ e ∈ report.log.entries, ¬ e.verdict ≠ .accepted := by
  rw [h.full_iff, h.entries_eq, ← hcovers.full_iff]
  exact forall₂_congr fun _ _ => not_not.symm

theorem ReportsOn.truncates {report' : Report}
    (h' : ReportsOn (config.stopping true) tests (upToFailure results) report')
    (hcovers' : Covers (config.stopping true) tests
      ((upToFailure results).map (entry (config.stopping true))))
    (h : ReportsOn (config.stopping false) tests results report)
    (hcovers : Covers (config.stopping false) tests
      (results.map (entry (config.stopping false)))) : report'.Truncates report := by
  have hentries : report'.log.entries
      = upToFirst (fun e => e.verdict ≠ .accepted) report.log.entries := by
    rw [h'.entries_eq, map_entry_upToFailure, h.entries_eq]
    rfl
  refine ⟨h'.name_eq.trans h.name_eq.symm, hentries, ?_, ?_⟩
  · rw [UInt32.le_iff_toNat_le, h'.score_eq, h.score_eq, hentries]
    exact JudgeLog.scoreSum_le_of_prefix (upToFirst_prefix_self _ _)
  · rw [Bool.eq_iff_iff, h'.full_iff_passed hcovers', h.full_iff_passed hcovers, hentries]
    exact forall_mem_upToFirst_iff

/-! ## Two runs -/

/-- The tests that a run has reported on can be run: it has asked for each of them. -/
theorem runnable_of_delivered
    (h : (strategy.run { count, seed } (initial config) stream).journal.delivered
      = account results ++ [.finish report]) (hdistinct : (results.map (·.test)).Nodup) :
    Runnable (results.map (·.test)) := by
  obtain ⟨left, hpath⟩ := strategy.run_path { count, seed } (initial config) stream
  obtain ⟨-, hbooks⟩ := hpath.books (Point.fits_fresh count seed {})
  have hrequests : (strategy.run { count, seed } (initial config) stream).journal.requests
      = results.map (·.test) := by
    rw [Journal.requests, h, List.filterMap_append, filterMap_test?_account]
    exact List.append_nil _
  exact ⟨fun hzero => (hbooks.in_range 0 (hrequests ▸ hzero)).1 rfl, hdistinct⟩

/-- If a run through all tests ends with a report, then so does the run that the first failure ends:
its log is the other one up to the first entry that is not accepted, its score is not larger, it is
full if the other is, and what it has written before the report is where the other has begun. -/
theorem strategy_stops_early
    (h : (strategy.run { count, seed } (initial (config.stopping false)) stream).result
      = .ok report) :
    let run := strategy.run { count, seed } (initial (config.stopping false)) stream
    let stopped := strategy.run { count, seed } (initial (config.stopping true)) stream
    ∃ report', stopped.result = .ok report' ∧ report'.Truncates report ∧
      ∃ before before', Wrote run before report ∧ Wrote stopped before' report' ∧
        before' <+: before := by
  intro run stopped
  obtain ⟨tests, results, s, hplan, rfl, hread, hcovers, htallied, hdelivered⟩ :=
    exists_covering_of_reported h
  have hreports := htallied.reportsOn hcovers
  have hall := hcovers.tests_eq rfl
  have hrunnable : Runnable tests := by
    rw [← hall, map_test_entry]
    exact runnable_of_delivered hdelivered hreports.nodup
  -- the results of the run that stops, of which the judge has sent all and more
  have hfirst : upToFailure results <+: results := upToFirst_prefix_self _ results
  have hplan' : plan (config.stopping true) count = .ok tests := hplan
  have hcovers' : Covers (config.stopping true) tests
      ((upToFailure results).map (entry (config.stopping true))) := by
    rw [map_entry_upToFailure]
    exact covers_upToFirst rfl hall
  have hcodes : ∀ r ∈ upToFailure results, isToken r.code = true :=
    fun r hr => hreports.isToken_of_mem (hfirst.subset hr)
  have hfits : JudgeLog.scoreSum ((upToFailure results).map (entry (config.stopping true)))
      < UInt32.size :=
    Nat.lt_of_le_of_lt (JudgeLog.scoreSum_le_of_prefix (hfirst.map _)) hreports.scoreSum_lt
  obtain ⟨report', hresult, hreports', hwrote⟩ :=
    (run_of_read hplan' hrunnable ((hfirst.map _).trans hread) hcovers' hcodes seed).1 hfits
  exact ⟨report', hresult, hreports'.truncates hcovers' hreports hcovers, account results,
    account (upToFailure results), wrote_of_delivered hdelivered, hwrote, account_mono hfirst⟩

/-- The second of three tests fails: the run that stops has not asked for the third, and its score
lacks the points of that. -/
theorem strategy_stops_early_at_second_test :
    let config : Config := { tests := some [1, 2, 3] }
    let stream := ([⟨1, "OK", 40⟩, ⟨2, "WA", 9⟩, ⟨3, "OK", 30⟩] : List TestResult).flatMap
      TestResult.encode
    let report : Report :=
      { score := 70
        full := false
        log :=
          { name := "main"
            entries := [⟨1, "OK", .accepted, 40⟩, ⟨2, "WA", .rejected, 0⟩, ⟨3, "OK", .accepted, 30⟩]
            distinct := by decide
            tokens := by decide } }
    let run := strategy.run {} (initial (config.stopping false)) stream
    let stopped := strategy.run {} (initial (config.stopping true)) stream
    run.result = .ok report ∧ stopped.result.toOption.map (·.score) = some 40 ∧
      ∃ report', stopped.result = .ok report' ∧ report'.Truncates report ∧
        ∃ before before', Wrote run before report ∧ Wrote stopped before' report' ∧
          before' <+: before := by
  intro config stream report run stopped
  have hresult : run.result = .ok report := by decide +kernel
  exact ⟨hresult, by decide +kernel, strategy_stops_early hresult⟩

end Sequential

end Valuer
