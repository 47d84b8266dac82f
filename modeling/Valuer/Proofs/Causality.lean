import Valuer.Proofs.Delivery
import Valuer.Proofs.ResultLines

set_option autoImplicit false

/-! # Runs do not look ahead

What a run does before a read depends on what it has read and on nothing that comes later in the
judge's stream. Two runs whose streams begin with the same lines do the same until both have read
all of these lines, and one that ends before it reads on does not tell them apart
(`Strategy.run_is_causal`). So a judge may wait for the next request or the report before it says
more: either comes without it. -/

namespace Valuer

/-! ## Sessions that have heard a part -/

namespace Session

variable {σ : Type}

/-- Carries a session on over a part of what its judge says, which may say more. -/
def heed (S : Strategy σ) (session : Session σ) :
    List (Except Error TestResult) → Journal × Session σ
  | [] => ([], session)
  | r :: rest =>
      match session.status with
      | .ended _ => ([], session)
      | .awaiting test =>
          let (events, next) := hear S session test (some r)
          let (later, last) := heed S next rest
          (events ++ later, last)

theorem heed_of_ended {S : Strategy σ} {session : Session σ} {result : Except Error Report}
    (h : session.status = .ended result) (part : List (Except Error TestResult)) :
    heed S session part = ([], session) := by
  cases part <;> simp only [heed, h]

/-- What a session does with a part of what it hears does not depend on the rest. -/
theorem follow_append (S : Strategy σ) (session : Session σ)
    (part rest : List (Except Error TestResult)) :
    follow S session (part ++ rest) =
      let first := heed S session part
      let last := follow S first.2 rest
      (first.1 ++ last.1, last.2) := by
  induction part generalizing session with
  | nil => rfl
  | cons r part ih =>
      cases hstatus : session.status with
      | ended result => simp only [List.cons_append, follow_of_ended hstatus, heed_of_ended hstatus,
          List.append_nil]
      | awaiting test => simp only [List.cons_append, follow, heed, hstatus, ih, List.append_assoc]

/-- A session that still awaits a test reads on. -/
theorem follow_of_awaiting (S : Strategy σ) {session : Session σ} {test : UInt32}
    (h : session.status = .awaiting test) (rest : List (Except Error TestResult)) :
    ∃ heard later, (follow S session rest).1 = .heard heard :: later := by
  have hhear : ∀ heard, ∃ later, (hear S session test heard).1 = .heard heard :: later := by
    intro heard
    unfold hear
    split
    · exact ⟨_, rfl⟩
    · exact ⟨_, rfl⟩
    · split <;> exact ⟨_, rfl⟩
  cases rest with
  | nil =>
      obtain ⟨later, hlater⟩ := hhear none
      simp only [follow, h, hlater]
      exact ⟨_, _, rfl⟩
  | cons r rest =>
      obtain ⟨later, hlater⟩ := hhear (some r)
      simp only [follow, h, hlater]
      exact ⟨_, _, rfl⟩

/-- A session that still awaits a test has heard the whole part. -/
theorem heed_path (S : Strategy σ) (session : Session σ) (part : List (Except Error TestResult)) :
    ∃ left, Path (session.moment part) (heed S session part).1
        ((heed S session part).2.moment left) ∧
      ∀ test, (heed S session part).2.status = .awaiting test → left = [] := by
  induction part generalizing session with
  | nil => exact ⟨[], .nil _, fun _ _ => rfl⟩
  | cons r part ih =>
      simp only [heed]
      split
      · next result hstatus =>
          refine ⟨r :: part, .nil _, fun test htest => ?_⟩
          rw [hstatus] at htest
          exact absurd htest (by simp)
      · next test hstatus =>
          obtain ⟨left, hpath, hleft⟩ := ih (hear S session test (some r)).2
          exact ⟨left, (hear_path S hstatus (r :: part)).trans hpath, hleft⟩

end Session

/-! ## Reads and calls -/

/-- Whether the event is a read of the judge's stream. -/
def Event.isRead : Event → Bool
  | .heard _ => true
  | _ => false

/-- How often the judge's stream was read. -/
def Journal.reads (js : Journal) : Nat :=
  js.countP Event.isRead

/-- As long as a run goes on, everything that was read was told, or is about to be. -/
def Moment.ReadsTold (js : Journal) (m : Moment) : Prop :=
  match m.point with
  | .over _ => True
  | _ => js.reads = (js.reports ++ m.announced).length

variable {js : Journal} {a b : Moment} {e : Event}

theorem Journal.reads_concat_of_other (js : Journal) (h : e.isRead = false) :
    reads (js ++ [e]) = reads js := by
  rw [reads, List.countP_append, List.countP_singleton, h]
  rfl

theorem Journal.reads_concat_of_read (js : Journal) (h : e.isRead = true) :
    reads (js ++ [e]) = reads js + 1 := by
  rw [reads, List.countP_append, List.countP_singleton, h]
  rfl

theorem Step.readsTold (h : Step a e b) (ha : a.ReadsTold js) : b.ReadsTold (js ++ [e]) := by
  cases h with
  | @call hook ctx left =>
      have hread : js.reads = (js.reports ++ Moment.announced ⟨.calling hook, ctx, left⟩).length :=
        ha
      unfold Moment.ReadsTold
      rw [Journal.reads_concat_of_other js rfl, hread, Journal.reports_concat]
      cases hook with
      | init | begin | testEnd report => simp [Moment.announced, Event.called?, Hook.report?]
  | @receive test ctx r rest htest =>
      have hread : js.reads = (js.reports ++ []).length := ha
      unfold Moment.ReadsTold
      rw [Journal.reads_concat_of_read js rfl, hread, Journal.reports_concat_of_none js rfl]
      simp [Moment.announced]
  | abort | stop _ | stall _ _ _ _ | conclude | exhaust | misread | mismatch _ => trivial
  | _ =>
      unfold Moment.ReadsTold
      rw [Journal.reads_concat_of_other js rfl, Journal.reports_concat_of_none js rfl]
      exact ha

theorem Path.readsTold {ctx : Context} {inbound : List (Except Error TestResult)}
    (h : Path ⟨.fresh, ctx, inbound⟩ js b) : b.ReadsTold js := by
  refine h.induct (motive := fun js m => m.ReadsTold js) ?_ ?_
  · rfl
  · intro js b e c _ hb hstep
    exact hstep.readsTold hb

/-! ## What was written so far -/

/-- The sink after an event: a message that was allowed goes to it, whatever comes of that. -/
def Sink.follow (s : Sink) : Event → Sink
  | .sent _ (.error (.protocol _)) => s
  | .sent m _ => (s.write m.encode).1
  | _ => s

/-- The bytes that a sink holds after the events of a journal. -/
def Journal.written (js : Journal) (sink : Sink) : List UInt8 :=
  (js.foldl Sink.follow sink).bytes

theorem Sink.prefix_bytes_follow (s : Sink) (e : Event) : s.bytes <+: (s.follow e).bytes := by
  unfold Sink.follow
  split
  · exact List.prefix_rfl
  · exact Sink.prefix_bytes_write s _
  · exact List.prefix_rfl

/-- What was written after the first events of a journal is still there after all. -/
theorem Journal.prefix_written (js ks : Journal) (sink : Sink) :
    js.written sink <+: (js ++ ks).written sink := by
  rw [written, written, List.foldl_append]
  generalize js.foldl Sink.follow sink = s
  induction ks generalizing s with
  | nil => exact List.prefix_rfl
  | cons e ks ih => exact (s.prefix_bytes_follow e).trans (ih (s.follow e))

theorem Step.sink_eq (h : Step a e b) : b.context.sink = a.context.sink.follow e := by
  cases h with
  | deliver hobjection hwrite | lose hobjection hwrite =>
      simp only [Context.sink_accept, Sink.follow, hwrite]
  | _ => rfl

theorem Path.sink_eq (h : Path a js b) : b.context.sink = js.foldl Sink.follow a.context.sink := by
  induction h with
  | nil => rfl
  | cons step rest ih => rw [ih, step.sink_eq, List.foldl_cons]

/-! ## Whole runs -/

/-- Where a run stands when it has heard a part of what its judge says: it is over, or it awaits a
test and has told its strategy the whole part. -/
theorem Session.heed_told {σ : Type} (S : Strategy σ) (ctx : Context) (s : σ)
    (part : List (Except Error TestResult)) :
    let start := Session.start S ctx s
    let middle := Session.heed S start.2 part
    let common := start.1 ++ middle.1
    common.reports.length ≤ part.length ∧
      (∀ test, middle.2.status = .awaiting test →
        common.reports.length = part.length ∧ common.reads = part.length) := by
  intro start middle common
  obtain ⟨left, hheed, hleft⟩ := heed_path S start.2 part
  have hpath : Path ⟨.fresh, ctx, part⟩ common (middle.2.moment left) :=
    (start_path S ctx s part).trans hheed
  obtain ⟨-, results, hreports, hinbound⟩ := hpath.told
  have hread := hpath.readsTold
  simp only [moment] at hreports hinbound hread
  refine ⟨?_, ?_⟩
  · have hcount : common.reports.length ≤ results.length := by
      have hlength := congrArg List.length hreports
      rw [List.length_append, List.length_map] at hlength
      omega
    refine hcount.trans ?_
    cases hstatus : middle.2.status with
    | ended result =>
        rw [hstatus] at hinbound
        have hshort := List.IsPrefix.length_le hinbound
        rwa [List.length_map] at hshort
    | awaiting test =>
        rw [hstatus] at hinbound
        have hlength := congrArg List.length hinbound
        rw [List.length_append, List.length_map] at hlength
        omega
  · intro test hstatus
    rw [hstatus] at hreports hinbound hread
    have hall : results.map .ok ++ left = part := hinbound
    have htold : common.reports = results.map .ofResult := (List.append_nil _).symm.trans hreports
    have hcount : common.reports.length = part.length := by
      rw [htold, ← hall, hleft test hstatus, List.append_nil, List.length_map, List.length_map]
    refine ⟨hcount, ?_⟩
    have hreads : common.reads = (common.reports ++ []).length := hread
    rw [hreads, List.append_nil, hcount]

/-- What a run has done when it has heard what the first lines of its stream say is fixed by these
lines: its journal goes on from there, and only by a read. -/
theorem Strategy.run_unlines_append {σ : Type} (S : Strategy σ) (ctx : Context) (s : σ)
    {p : List Text.Line} (hp : ∀ line ∈ p, Text.lineFeed ∉ line) (z : List UInt8) :
    let start := Session.start S ctx s
    let middle := Session.heed S start.2 (TestResult.readAll p)
    let last := Session.follow S middle.2 (TestResult.readAll (Text.lines z))
    S.run ctx s (Text.unlines p ++ z) = { journal := start.1 ++ middle.1 ++ last.1
                                          context := last.2.context
                                          state := last.2.state
                                          result := last.2.result } := by
  simp only [run, play, TestResult.readAll_lines_append hp, Session.follow_append,
    List.append_assoc]

/-- Two runs of a strategy whose streams begin with the same lines, of which `k` are not blank, do
the same until they have read `k` times and read again: the same hooks are called with the same
arguments, see the same and send the same, and the same bytes have been written. What is common to
both holds the first `k` calls for a result, and either run goes on from there only by a read. If
one of them never reads more than `k` times, both are the same to the end. -/
theorem Strategy.run_is_causal {σ : Type} (S : Strategy σ) (count : Option UInt32)
    (seed : Option (List UInt8)) (sink : Sink) (s : σ) {p : List Text.Line}
    (hp : ∀ line ∈ p, Text.lineFeed ∉ line) (x y : List UInt8) :
    let k := p.countP fun line => !Text.isBlankLine line
    let first := S.run { count, seed, sink } s (Text.unlines p ++ x)
    let second := S.run { count, seed, sink } s (Text.unlines p ++ y)
    (∃ common : Journal, ∀ run ∈ [first, second], ∃ later : Journal,
      run.journal = common ++ later ∧
        (later = [] ∨ common.reads = k ∧ ∃ heard rest, later = .heard heard :: rest) ∧
        common.reports = run.journal.reports.take k ∧
        common.written sink <+: run.context.sink.bytes ∧
        run.journal.written sink = run.context.sink.bytes) ∧
    (first.journal.reads ≤ k → second = first) := by
  intro k first second
  let start := Session.start S { count, seed, sink } s
  let middle := Session.heed S start.2 (TestResult.readAll p)
  let common := start.1 ++ middle.1
  have hlength : (TestResult.readAll p).length = k := TestResult.length_readAll p
  obtain ⟨hshort, hawaits⟩ : common.reports.length ≤ k ∧ ∀ test,
      middle.2.status = .awaiting test → common.reports.length = k ∧ common.reads = k :=
    hlength ▸ Session.heed_told S { count, seed, sink } s (TestResult.readAll p)
  have hwritten : ∀ z, let run := S.run { count, seed, sink } s (Text.unlines p ++ z)
      run.journal.written sink = run.context.sink.bytes := by
    intro z run
    obtain ⟨rest, hpath⟩ := S.run_path { count, seed, sink } s (Text.unlines p ++ z)
    rw [Journal.written, hpath.sink_eq]
  have hrun := S.run_unlines_append { count, seed, sink } s hp
  refine ⟨⟨common, fun run hmem => ?_⟩, fun hreads => ?_⟩
  · obtain ⟨z, rfl⟩ : ∃ z, S.run { count, seed, sink } s (Text.unlines p ++ z) = run := by
      simp only [List.mem_cons, List.not_mem_nil, or_false] at hmem
      rcases hmem with rfl | rfl
      · exact ⟨x, rfl⟩
      · exact ⟨y, rfl⟩
    have hjournal : (S.run { count, seed, sink } s (Text.unlines p ++ z)).journal = common ++
        (Session.follow S middle.2 (TestResult.readAll (Text.lines z))).1 := by rw [hrun]
    refine ⟨_, hjournal, ?_, ?_, ?_, hwritten z⟩
    · cases hstatus : middle.2.status with
      | ended result => exact .inl (by rw [Session.follow_of_ended hstatus])
      | awaiting test =>
          exact .inr ⟨(hawaits test hstatus).2, Session.follow_of_awaiting S hstatus _⟩
    · rw [hjournal, Journal.reports_append common]
      cases hstatus : middle.2.status with
      | ended result =>
          rw [Session.follow_of_ended hstatus, Journal.reports_nil, List.append_nil,
            List.take_of_length_le hshort]
      | awaiting test => exact (List.take_left' (hawaits test hstatus).1).symm
    · rw [← hwritten z, hjournal]
      exact Journal.prefix_written ..
  · cases hstatus : middle.2.status with
    | ended result =>
        show S.run _ s _ = S.run _ s _
        rw [hrun, hrun, Session.follow_of_ended hstatus, Session.follow_of_ended hstatus]
    | awaiting test =>
        -- the run reads once more, which makes too many
        exfalso
        obtain ⟨heard, later, hlater⟩ :=
          Session.follow_of_awaiting S hstatus (TestResult.readAll (Text.lines x))
        have hjournal : first.journal = common ++ .heard heard :: later := by
          rw [← hlater]
          exact congrArg Run.journal (hrun x)
        have hmore : first.journal.reads = common.reads + (Journal.reads later + 1) := by
          rw [hjournal, Journal.reads, List.countP_append, List.countP_cons_of_pos rfl]
          rfl
        have hall := (hawaits test hstatus).2
        omega

/-- After a blank line and one result two judges go on differently: one of them sends the result
that is awaited, the other is cut off in it. The runs end differently, and are the same before. -/
theorem Strategy.run_is_causal_of_two_judges :
    let S : Strategy Unit :=
      { begin := Act.send (.run 1)
        onTestEnd := fun report =>
          if report.test = 1 then Act.send (.run 2)
          else Act.send (.finish ⟨report.score, false, .empty "main"⟩) }
    let p : List Text.Line := [Utf8.encode " ", Utf8.encode "1 OK 5\r"]
    let first := S.run {} () (Text.unlines p ++ Utf8.encode "2 OK 7\n")
    let second := S.run {} () (Text.unlines p ++ Utf8.encode "2 O")
    (∀ line ∈ p, Text.lineFeed ∉ line) ∧ (p.countP fun line => !Text.isBlankLine line) = 1 ∧
      (∃ common : Journal, ∀ run ∈ [first, second], ∃ later : Journal,
        run.journal = common ++ later ∧
          (later = [] ∨ common.reads = 1 ∧ ∃ heard rest, later = .heard heard :: rest) ∧
          common.reports = run.journal.reports.take 1 ∧
          common.written {} <+: run.context.sink.bytes ∧
          run.journal.written {} = run.context.sink.bytes) ∧
      first.result.toOption.map (·.score) = some 7 ∧ second.result = .error (.malformed "2 O") := by
  intro S p first second
  have hp : ∀ line ∈ p, Text.lineFeed ∉ line := by decide +kernel
  have hk : (p.countP fun line => !Text.isBlankLine line) = 1 := by decide +kernel
  obtain ⟨hcommon, -⟩ :=
    S.run_is_causal none none {} () hp (Utf8.encode "2 OK 7\n") (Utf8.encode "2 O")
  rw [hk] at hcommon
  exact ⟨hp, hk, hcommon, by decide +kernel, by rfl⟩

end Valuer
