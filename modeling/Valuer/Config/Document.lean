import Valuer.Config
import Valuer.Yaml.Integer
import Valuer.Yaml.Node
import Valuer.Yaml.Style

set_option autoImplicit false

/-! # Configurations as documents

A configuration is written as a YAML mapping with one entry for each field; what is absent is left
out. It is read from any mapping: entries with other keys do not count, missing ones have their
default, and no field may come twice. A sequence is read as the fields in order. Only a
configuration that passes `check` is accepted. `ofText` says which part of YAML is read. -/

namespace Valuer.Config

/-- The fields of a configuration. -/
inductive Field where
  | name
  | tests
  | stopOnFailure
  | testScore
  deriving DecidableEq, Repr

/-- All fields, in the order in which they are written. -/
def Field.all : List Field :=
  [.name, .tests, .stopOnFailure, .testScore]

/-- The key of a field. -/
def Field.key : Field → String
  | .name => "name"
  | .tests => "tests"
  | .stopOnFailure => "stopOnFailure"
  | .testScore => "testScore"

/-- The field of a key. -/
def Field.ofKey? (key : String) : Option Field :=
  all.find? fun f => f.key == key

/-! ## Writing -/

/-- The lines of a list of tests. -/
def testLines : Option (List UInt32) → List String
  | none => []
  | some [] => ["tests: []"]
  | some tests => "tests:" :: tests.map fun test => s!"  - {test}"

/-- The lines of a configuration. -/
def documentLines (c : Config) : List String :=
  ["---", "name: " ++ Yaml.written c.name] ++ testLines c.tests
    ++ [s!"stopOnFailure: {c.stopOnFailure}"]
    ++ (c.testScore.map fun score => s!"testScore: {score}").toList

/-- The document of a configuration. -/
def document (c : Config) : String :=
  String.join (c.documentLines.map (· ++ "\n"))

/-! ## Reading -/

/-- The text of a scalar, whatever it looks like. -/
def nameOf? : Yaml.Node → Option String
  | .scalar _ text => some text
  | _ => none

/-- A plain integer of at most 32 bits. -/
def wordOf? : Yaml.Node → Option UInt32
  | .scalar true text =>
      ((Yaml.integer? text.toList).filter fun n : Int => 0 ≤ n ∧ n < UInt32.size).map
        fun n => UInt32.ofNat n.toNat
  | _ => none

/-- A plain truth value. -/
def flagOf? : Yaml.Node → Option Bool
  | .scalar true "true" => some true
  | .scalar true "false" => some false
  | _ => none

/-- A sequence of integers. -/
def testsOf? : Yaml.Node → Option (List UInt32)
  | .sequence items => items.mapM wordOf?
  | _ => none

/-- What may be left out. -/
def optionOf? {α : Type} (read : Yaml.Node → Option α) : Yaml.Node → Option (Option α)
  | .scalar true "~" => some none
  | .scalar true "null" => some none
  | n => (read n).map some

/-- The configuration with one field read from a node. -/
def setField? (c : Config) (n : Yaml.Node) : Field → Option Config
  | .name => (nameOf? n).map fun name => { c with name }
  | .tests => (optionOf? testsOf? n).map fun tests => { c with tests }
  | .stopOnFailure => (flagOf? n).map fun stopOnFailure => { c with stopOnFailure }
  | .testScore => (optionOf? wordOf? n).map fun testScore => { c with testScore }

/-- Reads the entries of a mapping after the fields `seen`. -/
def ofEntries? (seen : List Field) (c : Config) : List (Yaml.Node × Yaml.Node) → Option Config
  | [] => some c
  | (key, value) :: rest => do
      match Field.ofKey? (← nameOf? key) with
      | none => ofEntries? seen c rest
      | some f => if f ∈ seen then none else ofEntries? (f :: seen) (← setField? c value f) rest

/-- Reads the items of a sequence as the given fields; there may be fewer items, but not more. -/
def ofItems? (c : Config) : List Field → List Yaml.Node → Option Config
  | _, [] => some c
  | [], _ :: _ => none
  | f :: fields, n :: rest => do ofItems? (← setField? c n f) fields rest

/-- The configuration that a document spells. -/
def ofNode? : Yaml.Node → Option Config
  | .scalar _ _ => none
  | .sequence items => ofItems? {} Field.all items
  | .mapping entries => ofEntries? [] {} entries

/-- Why a text is not accepted as a configuration. -/
inductive Error where
  /-- The text is no document, or not one of a configuration. -/
  | notConfig
  | invalid (fault : Fault)
  deriving DecidableEq, Repr

/-- The configuration of a text. Of YAML only a part is read: a text with anchors, aliases, tags,
directives or block scalars ends in `notConfig`, whatever configuration it might spell, and so does
a text of several documents. No configuration is written with any of these. -/
def ofText (text : String) : Except Error Config :=
  match (Yaml.Node.ofText? text).bind ofNode? with
  | none => .error .notConfig
  | some c =>
      match c.check with
      | .ok () => .ok c
      | .error fault => .error (.invalid fault)

end Valuer.Config
