import Valuer.Sink

set_option autoImplicit false

/-! # What a write leaves

A write either takes all of its bytes or fails as a stream does, leaving some leading bytes. A sink
without breakdowns is one that takes a fixed number of bytes and then no more: once a write to it
has failed it is full, and nothing but an empty write succeeds any more. -/

namespace Valuer.Sink

variable {s t : Sink} {bs : List UInt8} {e : Error}

/-! ## Any sink -/

/-- A write that succeeds has taken all of its bytes. -/
theorem bytes_of_write_ok (h : s.write bs = (t, .ok ())) : t.bytes = s.bytes ++ bs := by
  have hbytes := bytes_write s bs
  rw [h] at hbytes
  have hout : (s.write bs).2 = .ok () := by rw [h]
  simp only [write] at hout
  split at hout
  · next hfits =>
      split at hout
      · next hsound =>
          have htaken : s.sound bs = bs := by rw [sound, hsound]
          rw [htaken] at hbytes hfits
          have hall : s.fitting bs = bs := by
            unfold fitting
            split
            · rfl
            · next room hroom =>
                rw [fits, hroom, Option.all_some, decide_eq_true_eq] at hfits
                exact List.take_of_length_le hfits
          rw [hall] at hbytes
          exact hbytes
      · exact absurd hout (by simp)
  · exact absurd hout (by simp)

/-- A write that fails has a fault of the stream to tell. -/
theorem stream_of_write_error (h : s.write bs = (t, .error e)) : ∃ fault, e = .stream fault := by
  have hout : (s.write bs).2 = .error e := by rw [h]
  simp only [write] at hout
  split at hout
  · split at hout
    · exact absurd hout (by simp)
    · exact ⟨_, (Except.error.inj hout).symm⟩
  · exact ⟨_, (Except.error.inj hout).symm⟩

/-- Whatever a write does, the bytes that were there stay in front. -/
theorem prefix_bytes_write (s : Sink) (bs : List UInt8) : s.bytes <+: (s.write bs).1.bytes := by
  rw [bytes_write]
  exact List.prefix_append ..

/-- However a write ends, what it has taken are leading bytes. -/
theorem exists_written (s : Sink) (bs : List UInt8) :
    ∃ written, (s.write bs).1.bytes = s.bytes ++ written ∧ written <+: bs := by
  refine ⟨s.fitting (s.sound bs), bytes_write s bs, ?_⟩
  have hsound : s.sound bs <+: bs := by
    unfold sound
    split
    · exact List.prefix_rfl
    · exact List.take_prefix ..
  have hfitting : s.fitting (s.sound bs) <+: s.sound bs := by
    unfold fitting
    split
    · exact List.prefix_rfl
    · exact List.take_prefix ..
  exact hfitting.trans hsound

/-! ## Sinks without breakdowns -/

/-- A sink that fails only for want of room. -/
def Steady (s : Sink) : Prop :=
  s.breakdowns = []

/-- A sink that never fails. -/
def Unlimited (s : Sink) : Prop :=
  s.room = none ∧ s.Steady

theorem Steady.write (h : s.Steady) (bs : List UInt8) : (s.write bs).1.Steady := by
  rw [Steady, breakdowns_write, h]
  rfl

theorem Steady.sound_eq (h : s.Steady) (bs : List UInt8) : s.sound bs = bs := by
  rw [sound, breakdown?, h]
  rfl

/-- A steady sink takes a write exactly if there is room for it. -/
theorem Steady.outcome_write (h : s.Steady) (bs : List UInt8) :
    (s.write bs).2 = if s.fits bs.length then .ok () else .error (.stream .sinkFull) := by
  have hnone : s.breakdown? = none := by rw [breakdown?, h]; rfl
  simp only [Sink.write, h.sound_eq, hnone]

/-- A write to a steady sink that fails leaves it full. -/
theorem Steady.room_of_write_error (hs : s.Steady) (h : s.write bs = (t, .error e)) :
    t.room = some 0 := by
  have hout : (s.write bs).2 = .error e := by rw [h]
  have hroom := room_write s bs
  rw [h, hs.sound_eq] at hroom
  rw [hs.outcome_write] at hout
  split at hout
  · exact absurd hout (by simp)
  · next hfits =>
      rw [fits] at hfits
      cases hs' : s.room with
      | none => simp [hs'] at hfits
      | some room =>
          simp only [hs', Option.all_some, decide_eq_true_eq] at hfits
          rw [hroom, hs', Option.map_some]
          exact congrArg some (by omega)

/-- A full sink takes nothing but an empty write. -/
theorem Steady.eq_nil_of_write_ok (hs : s.Steady) (hfull : s.room = some 0)
    (h : s.write bs = (t, .ok ())) : bs = [] := by
  have hout : (s.write bs).2 = .ok () := by rw [h]
  rw [hs.outcome_write] at hout
  split at hout
  · next hfits =>
      simp only [fits, hfull, Option.all_some, decide_eq_true_eq] at hfits
      exact List.eq_nil_of_length_eq_zero (Nat.le_zero.1 hfits)
  · exact absurd hout (by simp)

/-- A sink that is full stays full. -/
theorem room_write_of_full (hfull : s.room = some 0) (bs : List UInt8) :
    (s.write bs).1.room = some 0 := by
  rw [room_write, hfull, Option.map_some, Nat.zero_sub]

theorem Unlimited.write (h : s.Unlimited) (bs : List UInt8) : (s.write bs).1.Unlimited := by
  refine ⟨?_, h.2.write bs⟩
  rw [room_write, h.1]
  rfl

/-- A sink that never fails takes every write. -/
theorem Unlimited.outcome_write (h : s.Unlimited) (bs : List UInt8) : (s.write bs).2 = .ok () := by
  have hfits : s.fits bs.length = true := by rw [fits, h.1]; rfl
  rw [h.2.outcome_write, if_pos hfits]

theorem Unlimited.bytes_write (h : s.Unlimited) (bs : List UInt8) :
    (s.write bs).1.bytes = s.bytes ++ bs := by
  have hfull : s.write bs = ((s.write bs).1, .ok ()) := by rw [← h.outcome_write bs]
  exact bytes_of_write_ok hfull

end Valuer.Sink
