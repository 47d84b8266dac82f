set_option autoImplicit false

/-! # Descriptors

A process starts with a table of open descriptors, each a number with a file behind it that was
opened for reading, for writing or for both. A number that is not in the table, or whose descriptor
was closed, is not open. A descriptor that is taken has an owner until it is closed. Writing
overwrites the file from its start and keeps what lies beyond. -/

namespace Valuer

/-- What a descriptor is wanted for. -/
inductive Access where
  | read
  | write
  deriving DecidableEq, Repr

/-- The letter of an access in messages. -/
def Access.letter : Access → String
  | .read => "r"
  | .write => "w"

/-- How the file of a descriptor was opened. -/
inductive OpenMode where
  | readOnly
  | writeOnly
  | readWrite
  deriving DecidableEq, Repr

/-- Whether a file opened so can be used as wanted. -/
def OpenMode.allows : OpenMode → Access → Bool
  | .readOnly, .read => true
  | .readOnly, .write => false
  | .writeOnly, .read => false
  | .writeOnly, .write => true
  | .readWrite, _ => true

/-- A descriptor and the file behind it, read and written from its start. -/
structure Descriptor where
  number : Nat
  mode : OpenMode
  content : List UInt8 := []
  isOpen : Bool := true
  /-- Whether a part of the process has taken the descriptor, to close it in the end. -/
  owned : Bool := false
  deriving DecidableEq, Repr

namespace Descriptor

/-- The descriptor with an owner. -/
def taken (d : Descriptor) : Descriptor :=
  { d with owned := true }

/-- The descriptor closed; the file keeps its content. -/
def closed (d : Descriptor) : Descriptor :=
  { d with isOpen := false, owned := false }

end Descriptor

/-- The descriptors of a process, in a fixed order. -/
abbrev DescriptorTable := List Descriptor

namespace DescriptorTable

/-- The open descriptor of a number. -/
def find? (table : DescriptorTable) (number : Nat) : Option Descriptor :=
  List.find? (fun d => d.number == number && d.isOpen) table

/-- Whether the number is an open descriptor that can be used as wanted. -/
def allows (table : DescriptorTable) (number : Nat) (access : Access) : Bool :=
  (table.find? number).any fun d => d.mode.allows access

/-- What can be read from a descriptor; nothing if it is not open. -/
def content (table : DescriptorTable) (number : Nat) : List UInt8 :=
  ((table.find? number).map (·.content)).getD []

/-- Changes the open descriptor of a number. -/
def update (table : DescriptorTable) (number : Nat) (f : Descriptor → Descriptor) :
    DescriptorTable :=
  table.map fun d => if d.number == number && d.isOpen then f d else d

/-- Gives the descriptor of a number an owner. -/
def own (table : DescriptorTable) (number : Nat) : DescriptorTable :=
  table.update number Descriptor.taken

/-- Closes the descriptor of a number. -/
def close (table : DescriptorTable) (number : Nat) : DescriptorTable :=
  table.update number Descriptor.closed

/-- Writes to the file of a descriptor, over what stood at its start. -/
def write (table : DescriptorTable) (number : Nat) (bytes : List UInt8) : DescriptorTable :=
  table.update number fun d => { d with content := bytes ++ d.content.drop bytes.length }

/-- The numbers that are open, in table order. -/
def openNumbers (table : DescriptorTable) : List Nat :=
  (table.filter (·.isOpen)).map (·.number)

end DescriptorTable

end Valuer
