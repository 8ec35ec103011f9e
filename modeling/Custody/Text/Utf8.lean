import Custody.Bytes

/-!
# UTF-8

Text is stored as its UTF-8 bytes. When bytes are no UTF-8, `fault` says where the longest valid
beginning ends and how many bytes there cannot begin any character; a sequence cut off by the end of
the input is told apart from a wrong one.
-/

namespace Custody.Utf8

/-- The UTF-8 bytes of a text. -/
def encode (text : String) : Bytes := text.toByteArray.data.toList

/-- The text with these UTF-8 bytes. -/
def decode? (bytes : Bytes) : Option String := String.fromUTF8? bytes.toByteArray

/-- Where and how bytes fail to be UTF-8. -/
inductive Fault where
  /-- After `index` valid bytes come `length` bytes that begin no character. -/
  | invalid (index length : Nat)
  /-- After `index` valid bytes the input ends inside a character. -/
  | incomplete (index : Nat)
deriving DecidableEq, Repr

/-- The wording of a fault. -/
def Fault.message : Fault → String
  | invalid index length =>
    "invalid utf-8 sequence of " ++ toString length ++ " bytes from index " ++ toString index
  | incomplete index => "incomplete utf-8 byte sequence from index " ++ toString index

/-- Bytes 80 to BF continue a character. -/
def isContinuation (byte : UInt8) : Bool := 0x80 ≤ byte && byte ≤ 0xBF

/-- The bytes allowed second in a character of three bytes, by its first byte. Overlong forms and
surrogates are left out. -/
def isSecondOfThree (first second : UInt8) : Bool :=
  if first = 0xE0 then 0xA0 ≤ second && second ≤ 0xBF
  else if first = 0xED then 0x80 ≤ second && second ≤ 0x9F
  else isContinuation second

/-- The bytes allowed second in a character of four bytes, by its first byte. Overlong forms and
values above 10FFFF are left out. -/
def isSecondOfFour (first second : UInt8) : Bool :=
  if first = 0xF0 then 0x90 ≤ second && second ≤ 0xBF
  else if first = 0xF4 then 0x80 ≤ second && second ≤ 0x8F
  else isContinuation second

/-- The first fault in bytes that follow `index` valid ones. -/
def faultFrom (index : Nat) : Bytes → Option Fault
  | [] => none
  | a :: rest =>
    if a < 0x80 then faultFrom (index + 1) rest
    else if 0xC2 ≤ a && a ≤ 0xDF then
      match rest with
      | [] => some (.incomplete index)
      | b :: rest =>
        if isContinuation b then faultFrom (index + 2) rest else some (.invalid index 1)
    else if 0xE0 ≤ a && a ≤ 0xEF then
      match rest with
      | [] => some (.incomplete index)
      | b :: rest =>
        if isSecondOfThree a b then
          match rest with
          | [] => some (.incomplete index)
          | c :: rest =>
            if isContinuation c then faultFrom (index + 3) rest else some (.invalid index 2)
        else some (.invalid index 1)
    else if 0xF0 ≤ a && a ≤ 0xF4 then
      match rest with
      | [] => some (.incomplete index)
      | b :: rest =>
        if isSecondOfFour a b then
          match rest with
          | [] => some (.incomplete index)
          | c :: rest =>
            if isContinuation c then
              match rest with
              | [] => some (.incomplete index)
              | d :: rest =>
                if isContinuation d then faultFrom (index + 4) rest else some (.invalid index 3)
            else some (.invalid index 2)
        else some (.invalid index 1)
    else some (.invalid index 1)

/-- The first fault of a byte string. -/
def fault (bytes : Bytes) : Option Fault := faultFrom 0 bytes

end Custody.Utf8
