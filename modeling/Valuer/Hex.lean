import Valuer.Text.Quoted
import Valuer.Text.Utf8

set_option autoImplicit false

/-! # Bytes as hexadecimal text

Binary payloads and log names cross text channels in lower-case hexadecimal, two digits for a byte,
high half first. `encode` writes one text for each list of bytes and `decode` accepts exactly those
texts; a refusal names the first character that is no digit, in full and by its byte offset.
`decodeBytes?` decodes on the bytes of the text and looks for the character only when it has to tell
it. -/

namespace Valuer.Hex

/-- Why a text is not hexadecimal. -/
inductive Fault where
  /-- A text of an odd number of bytes cannot be pairs of digits. -/
  | oddLength (bytes : Nat)
  /-- The first character that is no digit, and the number of bytes before it. -/
  | invalidChar (char : Char) (offset : Nat)
  deriving DecidableEq, Repr

/-- What is told about a text that is not hexadecimal. -/
def Fault.message : Fault → String
  | .oddLength bytes => s!"odd length {bytes}"
  | .invalidChar char offset =>
      s!"invalid character {Text.quotedChar char} at position {offset}"

/-! ## Writing -/

/-- The two digits of a byte, high half first. -/
def digitPair (b : UInt8) : List Char :=
  [Nat.digitChar (b.toNat / 16), Nat.digitChar (b.toNat % 16)]

/-- The text of a list of bytes. -/
def encode (bytes : List UInt8) : String :=
  String.ofList (bytes.flatMap digitPair)

/-! ## Reading -/

/-- The value of a lower-case digit. -/
def digit? (c : Char) : Option Nat :=
  if '0' ≤ c ∧ c ≤ '9' then some (c.toNat - '0'.toNat)
  else if 'a' ≤ c ∧ c ≤ 'f' then some (c.toNat - 'a'.toNat + 10)
  else none

/-- The values of the digits of a text that starts `offset` bytes into the whole. -/
def digits (offset : Nat) : List Char → Except Fault (List Nat)
  | [] => .ok []
  | c :: cs =>
      match digit? c with
      | none => .error (.invalidChar c offset)
      | some d => (digits (offset + c.utf8Size) cs).map (d :: ·)

/-- The bytes that pairs of digits stand for. -/
def joinPairs : List Nat → List UInt8
  | high :: low :: rest => UInt8.ofNat (16 * high + low) :: joinPairs rest
  | _ => []

/-- The bytes of a hexadecimal text. -/
def decode (text : String) : Except Fault (List UInt8) :=
  if text.utf8ByteSize % 2 = 1 then .error (.oddLength text.utf8ByteSize)
  else (digits 0 text.toList).map joinPairs

/-! ### Reading the bytes of a text -/

/-- The value of the byte of a lower-case digit. -/
def nibble? (b : UInt8) : Option UInt8 :=
  if '0'.toUInt8 ≤ b ∧ b ≤ '9'.toUInt8 then some (b - '0'.toUInt8)
  else if 'a'.toUInt8 ≤ b ∧ b ≤ 'f'.toUInt8 then some (b - 'a'.toUInt8 + 10)
  else none

/-- The bytes that pairs of digits stand for. The first of a pair is the high half. A digit that has
no value would count as `blank`. -/
def joinNibbles (blank : UInt8) : List UInt8 → List UInt8
  | high :: low :: rest =>
      ((nibble? high).getD blank <<< 4 ||| (nibble? low).getD blank) :: joinNibbles blank rest
  | _ => []

/-- Decodes the bytes of a text: looks for a byte that is no digit, tells the character that begins
there, and joins the digits if there is none. If there were no character to be told, `missing` would
be told; if the byte were inside a character, there would be no answer at all. -/
def decodeBytes? (missing : Char) (blank : UInt8) (text : String) :
    Option (Except Fault (List UInt8)) :=
  let bytes := Utf8.encode text
  if bytes.length % 2 = 1 then some (.error (.oddLength bytes.length))
  else match bytes.findIdx? fun b => !(nibble? b).isSome with
    | some offset => (Text.suffixAt? text offset).map fun rest =>
        .error (.invalidChar (rest.toList.headD missing) offset)
    | none => some (.ok (joinNibbles blank bytes))

/-- How a payload shows itself: its digits, so that it stays on one line. -/
def describe (bytes : List UInt8) : String :=
  s!"BinString({encode bytes})"

end Valuer.Hex
