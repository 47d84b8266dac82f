import Valuer.Proofs.Causality

set_option autoImplicit false

/-! # The calls of a run

A journal tells what a run has done and nothing of the state that its strategy kept meanwhile. A
`Call` is a place in what the judge says at which a result is told to the strategy; it knows what
happened before it and the context and state that the hook is called with. These are all the calls
that a journal shows (`Call.exists_of_entered`), and the run goes on from what each of them leaves
(`Call.play_eq`). -/

namespace Valuer

/-! ## Where a journal shows a call -/

theorem Journal.mem_reports_of_entered {js : Journal} {report : TestReport} {view : View}
    (h : .entered (.testEnd report) view ∈ js) : report ∈ js.reports :=
  List.mem_filterMap.2 ⟨_, List.mem_filterMap.2 ⟨_, h, rfl⟩, rfl⟩

/-- Where only the first event can be a call, a call is the first event. -/
theorem Journal.eq_nil_of_entered {first : Event} {more before after : Journal} {hook : Hook}
    {view : View} (hmore : ∀ e ∈ more, e.called? = none)
    (h : first :: more = before ++ .entered hook view :: after) :
    before = [] ∧ first = .entered hook view := by
  cases before with
  | nil => exact ⟨rfl, (List.cons.inj h).1⟩
  | cons b before =>
      obtain ⟨-, rfl⟩ := List.cons.inj h
      have hnone := hmore _ (List.mem_append_right before List.mem_cons_self)
      exact absurd hnone (by simp [Event.called?])

/-- An event of two journals in a row is in the first of them or in the second. -/
theorem Journal.append_eq_append_cons {js ks before after : Journal} {e : Event}
    (h : js ++ ks = before ++ e :: after) :
    (∃ more, js = before ++ e :: more) ∨
      ∃ later, before = js ++ later ∧ ks = later ++ e :: after := by
  rcases List.append_eq_append_iff.1 h with hlater | ⟨now, hjs, hafter⟩
  · exact .inr hlater
  · cases now with
    | nil => exact .inr ⟨[], by simpa using hjs.symm, hafter.symm⟩
    | cons d now =>
        obtain ⟨rfl, -⟩ := List.cons.inj hafter
        exact .inl ⟨now, hjs⟩

/-- A strategy calls no hook in a hook. -/
theorem Dialogue.called?_eq_none_of_mem {α : Type} (d : Dialogue α) (ctx : Context) :
    ∀ e ∈ (d.conduct ctx).events, e.called? = none := by
  induction d generalizing ctx with
  | done a => exact fun e he => absurd he List.not_mem_nil
  | look next ih => exact List.forall_mem_cons.2 ⟨rfl, ih ctx.view ctx⟩
  | send m next ih => exact List.forall_mem_cons.2 ⟨rfl, ih (ctx.send m).2 (ctx.send m).1⟩
  | note record next ih => exact List.forall_mem_cons.2 ⟨rfl, ih ctx⟩

namespace Session

variable {σ : Type} {S : Strategy σ} {report : TestReport} {view : View}

/-- What happens when a hook is called begins with its call and holds no other. -/
theorem settle_visit_called (S : Strategy σ) (hook : Hook) (ctx : Context) (s : σ) :
    ∃ more : Journal, (settle (visit S hook ctx s)).1 = .entered hook ctx.view :: more ∧
      ∀ e ∈ more, e.called? = none := by
  let o := ((S.respond hook).start s).conduct ctx
  have hacts : ∀ e ∈ o.events ++ [.returned o.value.1], e.called? = none :=
    List.forall_mem_append.2
      ⟨Dialogue.called?_eq_none_of_mem _ ctx, List.forall_mem_singleton.2 rfl⟩
  unfold settle
  split
  · exact ⟨_, rfl, hacts⟩
  · split
    · exact ⟨_, rfl, List.forall_mem_append.2 ⟨hacts, List.forall_mem_singleton.2 rfl⟩⟩
    · exact ⟨_, rfl, hacts⟩

theorem prefix_settle (v : Visit σ) : v.events <+: (settle v).1 := by
  unfold settle
  split
  · exact List.prefix_rfl
  · split
    · exact List.prefix_append ..
    · exact List.prefix_rfl

/-- No result is told before the judge has said anything. -/
theorem not_mem_start (S : Strategy σ) (ctx : Context) (s : σ) :
    .entered (.testEnd report) view ∉ (start S ctx s).1 := by
  intro hmem
  obtain ⟨-, results, hreports, hinbound⟩ := (start_path S ctx s []).told
  have hnone : results = [] := by
    split at hinbound
    · exact List.map_eq_nil_iff.1 (List.prefix_nil.1 hinbound)
    · exact List.map_eq_nil_iff.1 (List.append_eq_nil_iff.1 hinbound).1
  rw [hnone, List.map_nil, List.append_eq_nil_iff] at hreports
  have hreport := Journal.mem_reports_of_entered hmem
  rw [hreports.1] at hreport
  exact List.not_mem_nil hreport

/-- A result is told only if it was just heard and its test was awaited. -/
theorem hear_called {session : Session σ} {test : UInt32}
    {heard : Option (Except Error TestResult)} {before after : Journal}
    (h : (hear S session test heard).1 = before ++ .entered (.testEnd report) view :: after) :
    ∃ r, heard = some (.ok r) ∧ r.test = test ∧ before = [.heard heard] ∧ report = .ofResult r ∧
      view = Context.view { session.context with pending := none } := by
  -- where no hook is called there is only the read
  have hread : ([.heard heard] : Journal) ≠ before ++ .entered (.testEnd report) view :: after :=
    fun heq => by cases before <;> simp at heq
  unfold hear at h
  split at h
  · exact absurd h hread
  · exact absurd h hread
  · split at h
    · next r htest =>
        obtain ⟨more, hmore, hnone⟩ := settle_visit_called S (.testEnd (.ofResult r))
          { session.context with pending := none } session.state
        simp only [hmore] at h
        cases before with
        | nil => exact absurd (List.cons.inj h).1 (by simp)
        | cons read before =>
            obtain ⟨rfl, hcalled⟩ := List.cons.inj h
            obtain ⟨rfl, heq⟩ := Journal.eq_nil_of_entered hnone hcalled
            injection heq with hhook hview
            injection hhook with hreport
            exact ⟨r, rfl, htest, rfl, hreport.symm, hview.symm⟩
    · exact absurd h hread

/-- Wherever a result is told, a part of what the judge says was heard before, and the result that
is awaited then comes next. -/
theorem follow_called {session : Session σ} {inbound : List (Except Error TestResult)}
    {before after : Journal}
    (h : (follow S session inbound).1 = before ++ .entered (.testEnd report) view :: after) :
    ∃ part r rest, part ++ .ok r :: rest = inbound ∧
      (heed S session part).2.status = .awaiting r.test ∧
      before = (heed S session part).1 ++ [.heard (some (.ok r))] ∧ report = .ofResult r ∧
      view = Context.view { (heed S session part).2.context with pending := none } := by
  induction inbound generalizing session before with
  | nil =>
      simp only [follow] at h
      split at h
      · exact absurd h (by simp)
      · obtain ⟨r, hheard, -⟩ := hear_called h
        exact absurd hheard (by simp)
  | cons said inbound ih =>
      simp only [follow] at h
      split at h
      · exact absurd h (by simp)
      · next test hstatus =>
          rcases Journal.append_eq_append_cons h with ⟨more, hhear⟩ | ⟨later, rfl, hlater⟩
          · obtain ⟨r, hsaid, htest, rfl, hreport, hview⟩ := hear_called hhear
            cases hsaid
            exact ⟨[], r, inbound, rfl, htest ▸ hstatus, rfl, hreport, hview⟩
          · obtain ⟨part, r, rest, rfl, hawaited, rfl, hreport, hview⟩ := ih hlater
            have hheed : heed S session (said :: part) =
                ((hear S session test (some said)).1 ++
                  (heed S (hear S session test (some said)).2 part).1,
                  (heed S (hear S session test (some said)).2 part).2) := by
              simp only [heed, hstatus]
            refine ⟨said :: part, r, rest, rfl, ?_, ?_, hreport, ?_⟩
            · rw [hheed]
              exact hawaited
            · rw [hheed, List.append_assoc]
            · rw [hheed]
              exact hview

end Session

/-! ## Calls -/

/-- A place in what a judge says at which a run tells its strategy a result: what comes next is the
result of the test that the run awaits. -/
structure Strategy.Call {σ : Type} (S : Strategy σ) (ctx : Context) (s : σ)
    (inbound : List (Except Error TestResult)) where
  /-- What was heard before. -/
  part : List (Except Error TestResult)
  result : TestResult
  rest : List (Except Error TestResult)
  inbound_eq : part ++ .ok result :: rest = inbound
  awaited : (Session.heed S (Session.start S ctx s).2 part).2.status = .awaiting result.test

namespace Strategy.Call

variable {σ : Type} {S : Strategy σ} {ctx : Context} {s : σ}
  {inbound : List (Except Error TestResult)}

/-- The session that awaits the result. -/
def session (c : S.Call ctx s inbound) : Session σ :=
  (Session.heed S (Session.start S ctx s).2 c.part).2

/-- Everything that happens before the hook is called. -/
def before (c : S.Call ctx s inbound) : Journal :=
  (Session.start S ctx s).1 ++ (Session.heed S (Session.start S ctx s).2 c.part).1 ++
    [.heard (some (.ok c.result))]

/-- The context that the hook is called in. -/
def context (c : S.Call ctx s inbound) : Context :=
  { c.session.context with pending := none }

/-- The state that the strategy has then. -/
def state (c : S.Call ctx s inbound) : σ :=
  c.session.state

/-- What the hook does. -/
def visit (c : S.Call ctx s inbound) : Session.Visit σ :=
  Session.visit S (.testEnd (.ofResult c.result)) c.context c.state

/-- A run goes on from what a call leaves. -/
theorem play_eq (c : S.Call ctx s inbound) :
    let went := Session.settle c.visit
    let last := Session.follow S went.2 c.rest
    S.play ctx s inbound = { journal := c.before ++ went.1 ++ last.1
                             context := last.2.context
                             state := last.2.state
                             result := last.2.result } := by
  obtain ⟨part, r, rest, rfl, hawaited⟩ := c
  simp only [play, Session.follow_append, Session.follow, hawaited, Session.hear, if_true, visit,
    before, context, state, session, List.append_assoc, List.cons_append, List.nil_append]

/-- A call that fails ends the run. -/
theorem play_eq_of_error (c : S.Call ctx s inbound) {e : Error} (h : c.visit.outcome = .error e) :
    S.play ctx s inbound = { journal := c.before ++ c.visit.events
                             context := c.visit.context
                             state := c.visit.state
                             result := .error e } := by
  rw [c.play_eq, Session.settle_of_error h, Session.follow_of_ended rfl]
  simp only [List.append_nil, Session.result]

/-- Every call that a journal shows is one, and what the hook does comes right after it. -/
theorem exists_of_entered {before after : Journal} {report : TestReport} {view : View}
    (h : (S.play ctx s inbound).journal = before ++ .entered (.testEnd report) view :: after) :
    ∃ c : S.Call ctx s inbound, c.before = before ∧ report = .ofResult c.result ∧
      view = c.context.view ∧ c.visit.events <+: .entered (.testEnd report) view :: after := by
  have hjournal : (Session.start S ctx s).1 ++
      (Session.follow S (Session.start S ctx s).2 inbound).1 =
        before ++ .entered (.testEnd report) view :: after := h
  rcases Journal.append_eq_append_cons hjournal with ⟨more, hstart⟩ | ⟨later, hbefore, hlater⟩
  · have hmem : .entered (.testEnd report) view ∈ (Session.start S ctx s).1 := by
      rw [hstart]
      exact List.mem_append_right _ List.mem_cons_self
    exact absurd hmem (Session.not_mem_start S ctx s)
  · obtain ⟨part, r, rest, hinbound, hawaited, hpart, hreport, hview⟩ :=
      Session.follow_called hlater
    let c : S.Call ctx s inbound := ⟨part, r, rest, hinbound, hawaited⟩
    have hcall : c.before = before := by
      rw [hbefore, hpart]
      exact List.append_assoc ..
    refine ⟨c, hcall, hreport, hview, ?_⟩
    rw [c.play_eq, List.append_assoc, hcall] at h
    rw [← List.append_cancel_left h]
    exact (Session.prefix_settle c.visit).trans (List.prefix_append ..)

end Strategy.Call

end Valuer
