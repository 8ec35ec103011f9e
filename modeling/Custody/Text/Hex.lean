import Custody.Bytes

/-!
# Hexadecimal text

Bytes are written as two lower-case digits each. Reading accepts both cases; an odd number of bytes
of text is refused first, then the first byte that is no digit, which the refusal shows as a
character between apostrophes.
-/

/-! ### Quoted characters -/

namespace Custody.CharLiteral

/-- Controls, the no-break space and the soft hyphen have no visible form of their own. -/
def isHidden (c : Char) : Bool :=
  c.toNat < 0x20 || (0x7f ≤ c.toNat && c.toNat ≤ 0xa0) || c.toNat == 0xad

/-- The character, or the escape that stands for it. -/
def escape (c : Char) : String :=
  match c with
  | '\x00' => "\\0"
  | '\t' => "\\t"
  | '\n' => "\\n"
  | '\r' => "\\r"
  | '\'' => "\\'"
  | '\\' => "\\\\"
  | c =>
    if isHidden c then "\\u\x7b" ++ String.ofList (Nat.toDigits 16 c.toNat) ++ "\x7d"
    else String.singleton c

/-- The character between apostrophes. -/
def quote (c : Char) : String := "'" ++ escape c ++ "'"

end Custody.CharLiteral

/-! ### Digits -/

namespace Custody.Hex

/-- The two digits of a byte, high half first. -/
def digits (byte : UInt8) : List Char :=
  [Nat.digitChar (byte.toNat / 16), Nat.digitChar (byte.toNat % 16)]

/-- Two lower-case digits per byte. -/
def encode (bytes : Bytes) : String := String.ofList (bytes.flatMap digits)

/-- Why a text is not hexadecimal. -/
inductive Fault where
  /-- The text does not split into pairs. -/
  | oddLength
  /-- The byte at this position of the text is no digit. -/
  | notADigit (byte : UInt8) (position : Nat)
deriving DecidableEq, Repr

/-- The wording of a fault; the offending byte is shown as the character with that code. -/
def Fault.message : Fault → String
  | oddLength => "Odd number of digits"
  | notADigit byte position =>
    "Invalid character " ++ CharLiteral.quote (Char.ofNat byte.toNat) ++ " at position " ++
      toString position

/-- The value of a digit in either case. -/
def digitValue? (byte : UInt8) : Option Nat :=
  let n := byte.toNat
  if 48 ≤ n ∧ n ≤ 57 then some (n - 48)
  else if 97 ≤ n ∧ n ≤ 102 then some (n - 87)
  else if 65 ≤ n ∧ n ≤ 70 then some (n - 55)
  else none

/-- The bytes spelled by pairs of digits, the first pair standing at `position`. -/
def decodePairs (position : Nat) : Bytes → Except Fault Bytes
  | high :: low :: rest =>
    match digitValue? high, digitValue? low with
    | some h, some l => do
      let bytes ← decodePairs (position + 2) rest
      return UInt8.ofNat (16 * h + l) :: bytes
    | none, _ => .error (.notADigit high position)
    | some _, none => .error (.notADigit low (position + 1))
  | _ => .ok []

/-- The bytes a text spells. -/
def decode (text : String) : Except Fault Bytes :=
  let bytes := text.toByteArray.data.toList
  if bytes.length % 2 = 1 then .error .oddLength else decodePairs 0 bytes

end Custody.Hex
