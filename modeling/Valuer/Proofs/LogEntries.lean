import Valuer.JudgeLog

set_option autoImplicit false

/-! # What a log takes in and what it adds up to

`push` keeps the entries that are there and their order, and says why it refuses one. The total of a
log is the exact sum of its scores or nothing: it never wraps around. -/

namespace Valuer.JudgeLog

variable {log next : JudgeLog} {e : LogEntry} {error : Error}

/-! ## Pushing -/

theorem push_eq_ok (h : log.push e = .ok next) :
    isToken e.code = true ∧ next.name = log.name ∧ next.entries = log.entries ++ [e] := by
  unfold push at h
  split at h
  · next hcode =>
      split at h
      · cases h
        exact ⟨hcode, rfl, rfl⟩
      · exact absurd h (by simp)
  · exact absurd h (by simp)

theorem push_eq_error (h : log.push e = .error error) :
    (isToken e.code = false ∧ error = .badStatusCode e.code) ∨
      (e.test ∈ log.entries.map (·.test) ∧ error = .duplicateTest e.test) := by
  unfold push at h
  split at h
  · split at h
    · exact absurd h (by simp)
    · next hthere =>
        cases h
        have hmem : e.test ∈ log.entries.map (·.test) :=
          Decidable.not_not.1 fun hnew => hthere (get?_eq_none_iff.2 hnew)
        exact .inr ⟨hmem, rfl⟩
  · next hcode =>
      cases h
      exact .inl ⟨Bool.eq_false_iff.2 hcode, rfl⟩

theorem push_of_unfit (hcode : ¬ isToken e.code = true) :
    log.push e = .error (.badStatusCode e.code) := by
  rw [push, dif_neg hcode]

theorem push_of_repeated (hcode : isToken e.code = true) (hthere : log.get? e.test ≠ none) :
    log.push e = .error (.duplicateTest e.test) := by
  rw [push, dif_pos hcode, dif_neg hthere]

theorem push_of_new (hcode : isToken e.code = true) (hnew : log.get? e.test = none) :
    ∃ next, log.push e = .ok next ∧ next.name = log.name ∧ next.entries = log.entries ++ [e] := by
  rw [push, dif_pos hcode, dif_pos hnew]
  exact ⟨_, rfl, rfl, rfl⟩

/-! ## Totals -/

/-- The exact sum of the scores of entries. -/
def scoreSum : List LogEntry → Nat
  | [] => 0
  | e :: es => e.score.toNat + scoreSum es

theorem scoreSum_append (es fs : List LogEntry) :
    scoreSum (es ++ fs) = scoreSum es + scoreSum fs := by
  induction es with
  | nil => exact (Nat.zero_add _).symm
  | cons e es ih => rw [List.cons_append, scoreSum, scoreSum, ih, Nat.add_assoc]

/-- The first of some entries are worth no more than all of them. -/
theorem scoreSum_le_of_prefix {first es : List LogEntry} (h : first <+: es) :
    scoreSum first ≤ scoreSum es := by
  obtain ⟨later, rfl⟩ := h
  rw [scoreSum_append]
  exact Nat.le_add_right ..

/-- The order of the entries does not matter to their sum. -/
theorem scoreSum_perm {es fs : List LogEntry} (h : es.Perm fs) : scoreSum es = scoreSum fs := by
  induction h with
  | nil => rfl
  | cons e _ ih => rw [scoreSum, scoreSum, ih]
  | swap e f es =>
      simp only [scoreSum]
      omega
  | trans _ _ ih ih' => exact ih.trans ih'

theorem addScores_eq_some_iff {a b c : UInt32} :
    addScores a b = some c ↔ c.toNat = a.toNat + b.toNat := by
  unfold addScores
  split
  · next hfits =>
      have hsum : (a + b).toNat = a.toNat + b.toNat := by
        rw [UInt32.toNat_add]
        exact Nat.mod_eq_of_lt hfits
      rw [Option.some.injEq, ← UInt32.toNat_inj, hsum]
      exact eq_comm
  · next hover =>
      have hc : c.toNat < UInt32.size := c.toNat_lt_size
      simp only [reduceCtorEq, false_iff]
      omega

theorem addScores_eq_none_iff {a b : UInt32} :
    addScores a b = none ↔ UInt32.size ≤ a.toNat + b.toNat := by
  unfold addScores
  split <;> simp <;> omega

/-- Adding the scores of entries one after another fails only if their sum is too large. -/
theorem foldlM_addScores_eq_some_iff {entries : List LogEntry} {start total : UInt32} :
    entries.foldlM (fun total e => addScores total e.score) start = some total
      ↔ total.toNat = start.toNat + scoreSum entries := by
  induction entries generalizing start with
  | nil =>
      rw [List.foldlM_nil]
      show some start = some total ↔ total.toNat = start.toNat + 0
      rw [Option.some.injEq, ← UInt32.toNat_inj, Nat.add_zero]
      exact eq_comm
  | cons e es ih =>
      rw [List.foldlM_cons, scoreSum, ← Nat.add_assoc]
      show (addScores start e.score).bind _ = _ ↔ _
      cases hadd : addScores start e.score with
      | none =>
          -- what is too large already only grows
          have hover := addScores_eq_none_iff.1 hadd
          have htotal : total.toNat < UInt32.size := total.toNat_lt_size
          simp only [Option.bind_none, reduceCtorEq, false_iff]
          omega
      | some next =>
          rw [Option.bind_some, ih, addScores_eq_some_iff.1 hadd]

/-- The total of a log is the exact sum of its scores. -/
theorem totalScore_eq_ok_iff {total : UInt32} :
    log.totalScore = .ok total ↔ total.toNat = scoreSum log.entries := by
  have hfold : log.entries.foldlM (fun total e => addScores total e.score) 0 = some total
      ↔ total.toNat = (0 : UInt32).toNat + scoreSum log.entries := foldlM_addScores_eq_some_iff
  rw [UInt32.toNat_zero, Nat.zero_add] at hfold
  rw [← hfold, totalScore]
  split <;> simp [*]

/-- The total is there exactly if the sum has the width of a score; if it has not, the error names
the log. -/
theorem totalScore_eq (log : JudgeLog) :
    log.totalScore =
      if scoreSum log.entries < UInt32.size then .ok (.ofNat (scoreSum log.entries))
      else .error (.complaint (.totalOverflows log.name)) := by
  split
  · next hfits => exact totalScore_eq_ok_iff.2 (UInt32.toNat_ofNat_of_lt' hfits)
  · next hover =>
      cases htotal : log.totalScore with
      | ok total =>
          rw [← totalScore_eq_ok_iff.1 htotal] at hover
          exact absurd total.toNat_lt_size hover
      | error e =>
          unfold totalScore at htotal
          split at htotal
          · exact absurd htotal (by simp)
          · exact htotal.symm

/-- The order of the entries does not matter to the total. -/
theorem totalScore_perm {log log' : JudgeLog} (hname : log.name = log'.name)
    (h : log.entries.Perm log'.entries) : log.totalScore = log'.totalScore := by
  rw [totalScore_eq, totalScore_eq, hname, scoreSum_perm h]

end Valuer.JudgeLog
