import Valuer.Yaml.Scalar

set_option autoImplicit false

/-! # Integers in YAML

A plain scalar is an integer if it is an optional sign and either decimal digits without a leading
zero, or digits of another base after its mark. -/

namespace Valuer.Yaml

/-- The value of a nonempty run of digits of a base, in either case. -/
def digitsOf? (base : Nat) (cs : List Char) : Option Nat := do
  let ds ← cs.mapM fun c => (hexValue? c).filter (· < base)
  if ds.isEmpty then none else some (ds.foldl (fun n d => base * n + d) 0)

/-- The value of an integer without a sign. -/
def natural? : List Char → Option Nat
  | ['0'] => some 0
  | '0' :: 'x' :: cs => digitsOf? 16 cs
  | '0' :: 'o' :: cs => digitsOf? 8 cs
  | '0' :: 'b' :: cs => digitsOf? 2 cs
  | '0' :: _ => none
  | cs => digitsOf? 10 cs

/-- The value of an integer. -/
def integer? : List Char → Option Int
  | '+' :: cs => (natural? cs).map fun n => (n : Int)
  | '-' :: cs => (natural? cs).map fun n => -(n : Int)
  | cs => (natural? cs).map fun n => (n : Int)

end Valuer.Yaml
