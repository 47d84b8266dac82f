import Valuer.Error
import Valuer.Record
import Valuer.Text.Blank
import Valuer.Text.Numeral

set_option autoImplicit false

/-! # Launch variables

The judge passes numbers, payloads and descriptors in variables. Each reader says whether the
variable is missing, or what is wrong with its value. A descriptor is taken only if its number is
open with the access that is wanted. -/

namespace Valuer

/-- The variables of a process, by name. -/
abbrev Environment := String → Option String

namespace Environment

/-- The value of a variable. -/
def text (env : Environment) (name : String) : Except Error String :=
  match env name with
  | some value => .ok value
  | none => .error (.missingVar name)

/-- The value of a variable as a number, white space around it aside. -/
def int (env : Environment) (name : String) : Except Error Int :=
  match env.text name with
  | .error e => .error e
  | .ok value =>
      match Text.int? (Text.trim value) with
      | some n => .ok n
      | none => .error (.notInteger name value)

/-- The value of a variable as bytes in hex. -/
def payload (env : Environment) (name : String) : Except Error (List UInt8) :=
  match env.text name with
  | .error e => .error e
  | .ok value =>
      match Hex.decode value with
      | .ok bytes => .ok bytes
      | .error fault => .error (.notHex name value fault)

/-- One more than the greatest number of a descriptor. -/
def descriptorBound : Int := 2147483648

/-- The descriptor that a variable names, if it is open for the access. -/
def descriptor (env : Environment) (table : DescriptorTable) (name : String) (access : Access) :
    Except Error Nat :=
  match env.int name with
  | .error e => .error e
  | .ok n =>
      if 0 ≤ n ∧ n < descriptorBound ∧ table.allows n.toNat access then .ok n.toNat
      else .error (.badDescriptor name n access)

/-- Takes the descriptor that a variable names, if it is open for the access. -/
def take (env : Environment) (table : DescriptorTable) (name : String) (access : Access) :
    Except Error Nat × DescriptorTable :=
  match env.descriptor table name access with
  | .error e => (.error e, table)
  | .ok number => (.ok number, table.own number)

/-- The record of a descriptor that was taken. -/
def takenRecord (name : String) (number : Nat) (access : Access) : Record :=
  ⟨.debug, s!"var `{name}`: using fd {number} in mode {access.letter}"⟩

end Environment

/-! ## Uses

A variable can be used in five ways. A descriptor that is used is taken: all of its file is read, or
something is written to it, and then it is closed, so that it cannot be taken again under any
name. -/

/-- One use of a variable. -/
inductive Use where
  | text (name : String)
  | int (name : String)
  | payload (name : String)
  /-- Reads all of a descriptor and closes it. -/
  | readAll (name : String)
  /-- Writes to a descriptor and closes it. -/
  | write (name : String) (bytes : List UInt8)
  deriving DecidableEq, Repr

/-- What a use gives. -/
inductive Finding where
  | text (value : String)
  | int (value : Int)
  | payload (bytes : List UInt8)
  | content (bytes : List UInt8)
  | written
  deriving DecidableEq, Repr

/-- What a use leaves. -/
structure Used where
  finding : Except Error Finding
  table : DescriptorTable
  records : List Record := []

namespace Use

/-- Uses a variable. Only a descriptor that is taken changes the table. -/
def run (env : Environment) (table : DescriptorTable) : Use → Used
  | text name => { finding := (env.text name).map .text, table }
  | int name => { finding := (env.int name).map .int, table }
  | payload name => { finding := (env.payload name).map .payload, table }
  | readAll name =>
      match env.take table name .read with
      | (.error e, table) => { finding := .error e, table }
      | (.ok number, table) =>
          { finding := .ok (.content (table.content number))
            table := table.close number
            records := [Environment.takenRecord name number .read] }
  | write name bytes =>
      match env.take table name .write with
      | (.error e, table) => { finding := .error e, table }
      | (.ok number, table) =>
          { finding := .ok .written
            table := (table.write number bytes).close number
            records := [Environment.takenRecord name number .write] }

/-- Uses variables one after another. -/
def runAll (env : Environment) (table : DescriptorTable) :
    List Use → List (Except Error Finding) × DescriptorTable × List Record
  | [] => ([], table, [])
  | use :: rest =>
      let used := use.run env table
      let (findings, last, records) := runAll env used.table rest
      (used.finding :: findings, last, used.records ++ records)

end Use

end Valuer
