import Valuer.Error

set_option autoImplicit false

/-! # Sinks

Where messages are written to. A sink may be bounded: it takes bytes while there is room, and a
write that does not fit leaves the leading bytes that do and fails. A write that fills the sink to
the last byte succeeds, and so does writing nothing to a full one. A write may also fail for a
reason of the sink's own, at any byte or after the last one, and the sink may take later writes
again. -/

namespace Valuer

/-- A failure of a write for a reason of the sink's own. -/
structure Breakdown where
  /-- The number of bytes that are taken before it. -/
  taken : Nat
  reason : String
  deriving DecidableEq, Repr

/-- What was written to a sink and how much more it takes. -/
structure Sink where
  /-- The number of bytes the sink still takes; no bound if absent. -/
  room : Option Nat := none
  /-- How the writes to come break down, the next one first; those beyond the list do not. -/
  breakdowns : List (Option Breakdown) := []
  /-- What each write left, the last write first. -/
  pieces : List (List UInt8) := []
  deriving DecidableEq, Repr

namespace Sink

/-- The bytes that were written, in order. -/
def bytes (s : Sink) : List UInt8 :=
  s.pieces.reverse.flatten

/-- Whether so many more bytes fit. -/
def fits (s : Sink) (count : Nat) : Bool :=
  s.room.all (count ≤ ·)

/-- The leading bytes of a write that fit. -/
def fitting (s : Sink) (bs : List UInt8) : List UInt8 :=
  match s.room with
  | none => bs
  | some room => bs.take room

/-- How the next write breaks down, if it does. -/
def breakdown? (s : Sink) : Option Breakdown :=
  s.breakdowns.head?.join

/-- The leading bytes of the next write that come before its breakdown. -/
def sound (s : Sink) (bs : List UInt8) : List UInt8 :=
  match s.breakdown? with
  | none => bs
  | some b => bs.take b.taken

/-- Writes as many of the bytes as fit, and fails unless that is all of them and the write does not
break down. -/
def write (s : Sink) (bs : List UInt8) : Sink × Except Error Unit :=
  let taken := s.sound bs
  ({ room := s.room.map (· - taken.length)
     breakdowns := s.breakdowns.tail
     pieces := s.fitting taken :: s.pieces },
    if s.fits taken.length then
      match s.breakdown? with
      | none => .ok ()
      | some b => .error (.stream (.other b.reason))
    else .error (.stream .sinkFull))

@[simp] theorem bytes_write (s : Sink) (bs : List UInt8) :
    (s.write bs).1.bytes = s.bytes ++ s.fitting (s.sound bs) := by
  simp [write, bytes]

@[simp] theorem room_write (s : Sink) (bs : List UInt8) :
    (s.write bs).1.room = s.room.map (· - (s.sound bs).length) := rfl

@[simp] theorem breakdowns_write (s : Sink) (bs : List UInt8) :
    (s.write bs).1.breakdowns = s.breakdowns.tail := rfl

end Sink

end Valuer
