import Valuer.Proofs.ResultLines
import Valuer.Proofs.Sequential.Course

set_option autoImplicit false

/-! # Status codes that are read but not logged

The reader of results and the log do not mean the same by a status code. A field of a result line
has no blank, and the code of a log entry no control either: of the controls only four are blanks. A
code with another one is read, is told to the jury as unknown, and then costs the run its report
(`strategy_refuses_only_controls`). -/

namespace Valuer

/-- A code that holds a control character. -/
def Controlled (code : String) : Prop :=
  ∃ c ∈ code.toList, Text.isControl c = true

/-- A field can be logged unless it holds a control. -/
theorem isToken_eq_false_iff {code : String} (h : Text.Field code) :
    isToken code = false ↔ Controlled code := by
  have hblanks : ∀ c ∈ code.toList, (!Text.isBlank c && !Text.isControl c) = !Text.isControl c := by
    intro c hc
    rw [h.2 c hc, Bool.not_false, Bool.true_and]
  rw [isToken, bne_iff_ne.2 h.1, Bool.true_and, List.all_eq_false]
  constructor
  · rintro ⟨c, hc, hfit⟩
    rw [hblanks c hc] at hfit
    exact ⟨c, hc, by simpa using hfit⟩
  · rintro ⟨c, hc, hcontrol⟩
    refine ⟨c, hc, ?_⟩
    rw [hblanks c hc, hcontrol]
    decide

theorem not_controlled_of_isToken {code : String} (h : isToken code = true) :
    ¬ Controlled code := by
  intro hcontrolled
  rw [(isToken_eq_false_iff (Text.field_of_isToken h)).2 hcontrolled] at h
  exact absurd h (by decide)

namespace JudgeLog

variable {log : JudgeLog} {e : LogEntry}

/-- An entry with the code of a field, of a test that is not logged yet, is taken in unless its code
holds a control. -/
theorem push_of_field (hcode : Text.Field e.code) (hnew : log.get? e.test = none) :
    (Controlled e.code → log.push e = .error (.badStatusCode e.code)) ∧
      (¬ Controlled e.code → ∃ next, log.push e = .ok next ∧
        next.entries = log.entries ++ [e]) := by
  constructor
  · intro hcontrolled
    have htoken : ¬ isToken e.code = true := by
      rw [(isToken_eq_false_iff hcode).2 hcontrolled]
      decide
    exact push_of_unfit htoken
  · intro hplain
    have htoken : isToken e.code = true := by
      rw [← isToken_eq_false_iff hcode, Bool.not_eq_false] at hplain
      exact hplain
    obtain ⟨next, hpush, -, hentries⟩ := push_of_new htoken hnew
    exact ⟨next, hpush, hentries⟩

end JudgeLog

namespace Sequential

variable {config : Config} {tests : List UInt32} {inbound : List (Except Error TestResult)}
  {js : Journal} {result : Except Error Report}

/-- A code that belongs to no verdict counts as an internal error and is worth nothing. -/
theorem entry_of_unknown {r : TestResult} {unknown : UnknownStatus}
    (h : Verdict.ofCode r.code = .error unknown) :
    entry config r = ⟨r.test, r.code, .internalError, 0⟩ := by
  simp [entry, countedAs, h]

/-- A run that ends for the sake of a code was just given the result that has it. -/
theorem Ending.unfit_of_badStatusCode {code : String}
    (hreadable : ∀ e, .error e ∈ inbound → (∃ text, e = .malformed text) ∨ e = .stream .notUtf8)
    (h : Ending config tests inbound js (.error (.badStatusCode code))) :
    ∃ (results : List TestResult) (r : TestResult), (results ++ [r]).map .ok <+: inbound ∧
      js.requests = (results ++ [r]).map (·.test) ∧ r.code = code ∧ isToken code = false := by
  cases h with
  | @failed results test ahead e hread hplan hasked hcause hunfinished hsound =>
      generalize hnext : inbound[results.length]? = next at hcause
      cases hcause with
      | unreadable =>
          have hmem := List.mem_of_getElem? hnext
          rcases hreadable _ hmem with ⟨text, heq⟩ | heq <;> cases heq
      | @unfit r htest hcode =>
          have hrequests : js.requests = (results ++ [r]).map (·.test) := by
            rw [hasked, List.map_append, ← htest]
            rfl
          exact ⟨results, r, prefix_of_next hread hnext, hrequests, rfl, hcode⟩

/-- A result that the reader lets through can be logged, for a test that is not logged yet, unless
its code holds a control. So a sequential run ends for the sake of a code only if the judge has sent,
for the test that was asked for last, a code that holds a control. A run that ends with its report
was sent no such code, and has logged each unknown code as an internal error that is worth
nothing. -/
theorem strategy_refuses_only_controls (config : Config) (count : Option UInt32)
    (seed : Option (List UInt8)) (sink : Sink) (stream : List UInt8) :
    let run := strategy.run { count, seed, sink } (initial config) stream
    let inbound := TestResult.readAll (Text.lines stream)
    (∀ (text : String) (r : TestResult) (log : JudgeLog) (verdict : Verdict) (score : UInt32),
      TestResult.ofText text = .ok r → log.get? r.test = none →
      let e : LogEntry := ⟨r.test, r.code, verdict, score⟩
      (Controlled r.code → log.push e = .error (.badStatusCode r.code)) ∧
        (¬ Controlled r.code → ∃ next, log.push e = .ok next ∧
          next.entries = log.entries ++ [e])) ∧
    (∀ code, run.result = .error (.badStatusCode code) →
      Controlled code ∧ ∃ (results : List TestResult) (r : TestResult),
        (results ++ [r]).map .ok <+: inbound ∧
          run.journal.requests = (results ++ [r]).map (·.test) ∧ r.code = code) ∧
    ∀ report, run.result = .ok report →
      ∃ results : List TestResult, results.map .ok <+: inbound ∧
        report.log.entries = results.map (entry config) ∧
        ∀ r ∈ results, ¬ Controlled r.code ∧
          ∀ unknown, Verdict.ofCode r.code = .error unknown →
            entry config r = ⟨r.test, r.code, .internalError, 0⟩ := by
  intro run inbound
  have hended : (∃ cause, run.result = .error (.complaint cause)) ∨
      ∃ tests, Ending config tests inbound run.journal run.result := by
    cases hplan : plan config count with
    | error e =>
        obtain ⟨cause, rfl⟩ := complaint_of_plan_eq_error hplan
        exact .inl ⟨cause, (strategy_unplanned hplan seed sink stream).1⟩
    | ok tests => exact .inr ⟨tests, strategy_ending hplan seed sink stream⟩
  refine ⟨?_, ?_, ?_⟩
  · intro text r log verdict score hread hnew e
    have hcode : Text.Field e.code := TestResult.field_of_ofText hread
    exact JudgeLog.push_of_field hcode hnew
  · intro code hresult
    rw [hresult] at hended
    rcases hended with ⟨cause, hcause⟩ | ⟨tests, hending⟩
    · exact absurd hcause (by simp)
    · obtain ⟨results, r, hread, hrequests, rfl, hunfit⟩ :=
        hending.unfit_of_badStatusCode fun e => TestResult.error_of_mem_readAll
      have hmem : .ok r ∈ inbound := hread.subset (by simp)
      have hcode : Text.Field r.code := TestResult.field_of_mem_readAll hmem
      exact ⟨(isToken_eq_false_iff hcode).1 hunfit, results, r, hread, hrequests, rfl⟩
  · intro report hresult
    rw [hresult] at hended
    rcases hended with ⟨cause, hcause⟩ | ⟨tests, hending⟩
    · exact absurd hcause (by simp)
    · cases hending with
      | @reported results s hread hcovers htallied hdelivered hsound =>
          have hentries : (reportOf s).log.entries = results.map (entry config) :=
            htallied.entries_eq
          refine ⟨results, hread, hentries, fun r hr => ⟨?_, fun unknown => entry_of_unknown⟩⟩
          -- the entries of a log are fit to be logged
          have hmem : entry config r ∈ (reportOf s).log.entries :=
            hentries ▸ List.mem_map_of_mem hr
          exact not_controlled_of_isToken ((reportOf s).log.tokens _ hmem)

/-- A run that a control character has cost its report: the reader takes the code, the jury is told
that it is unknown, and the log refuses it. -/
theorem strategy_refuses_a_control :
    let stream := Utf8.encode "1 W\x01 5\n"
    let run := strategy.run { count := some 1 } (initial {}) stream
    TestResult.ofText "1 W\x01 5" = .ok ⟨1, "W\x01", 5⟩ ∧
      (JudgeLog.empty "main").push ⟨1, "W\x01", .internalError, 0⟩
        = .error (.badStatusCode "W\x01") ∧
      run.result = .error (.badStatusCode "W\x01") ∧
      run.context.sink.bytes
        = Utf8.encode "RUN 1\nCOMMENT PRIVATE test 1: unknown status code \x60W\x01\x60\n" := by
  intro stream run
  refine ⟨by decide, by decide, ?_, ?_⟩
  · rfl
  · rfl

end Sequential

end Valuer
