import Valuer.Journal

set_option autoImplicit false

/-! # The outlet of a run

A run from the environment writes to a file through a buffer. Bytes that are written wait in the
buffer; they go to the file when the buffer runs full and when it is flushed, over what stands there,
and the file is never cut short. Every message is flushed as soon as it is written, so that the judge
has it before the valuer waits for an answer. -/

namespace Valuer

/-- A file that is written through a buffer, from its start on. -/
structure Outlet where
  /-- The content of the file up to where the next byte goes. -/
  passed : List UInt8 := []
  /-- The content of the file from there on. -/
  ahead : List UInt8
  /-- What is in the buffer. -/
  waiting : List UInt8 := []
  deriving DecidableEq, Repr

namespace Outlet

/-- The number of bytes that the buffer holds. -/
def capacity : Nat := 8192

/-- The content of the file. -/
def content (o : Outlet) : List UInt8 :=
  o.passed ++ o.ahead

/-- Puts bytes into the file, past the buffer. -/
def commit (o : Outlet) (bs : List UInt8) : Outlet :=
  { o with passed := o.passed ++ bs, ahead := o.ahead.drop bs.length }

/-- Puts what is in the buffer into the file. -/
def flush (o : Outlet) : Outlet :=
  { o.commit o.waiting with waiting := [] }

/-- Makes room in the buffer for so many bytes, if there is too little. -/
def reserve (o : Outlet) (count : Nat) : Outlet :=
  if capacity < o.waiting.length + count then o.flush else o

/-- Writes to the buffer. What is as long as the buffer goes past it. -/
def write (o : Outlet) (bs : List UInt8) : Outlet :=
  let o := o.reserve bs.length
  if capacity ≤ bs.length then o.commit bs else { o with waiting := o.waiting ++ bs }

/-- Writes a message line by line and flushes it. -/
def send (o : Outlet) (m : Message) : Outlet :=
  ((m.texts.map Utf8.encode).foldl (fun o line => o.write (line ++ [Text.lineFeed])) o).flush

/-- The outlet after an event of a run: each message that went well was sent. -/
def follow (o : Outlet) : Event → Outlet
  | .sent m (.ok ()) => o.send m
  | _ => o

/-- The content of a file after a run with this journal has written to it. The buffer is flushed
once more when it is closed. -/
def fileAfter (journal : Journal) (file : List UInt8) : List UInt8 :=
  (journal.foldl follow { ahead := file }).flush.content

end Outlet

end Valuer
