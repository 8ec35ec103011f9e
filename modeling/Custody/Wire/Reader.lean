import Custody.Text.Utf8

/-!
# Readers of the wire form

A reader takes a value off the front of a byte string and leaves the rest. The readers here are the
leaves of every composite: fixed blocks, unsigned integers, flags, variant tags, counted lists and
text. Integers have a fixed width and come least significant byte first. Values are read in order
and the first problem is the one reported.
-/

namespace Custody

/-- Why bytes are not the wire form of a value. -/
inductive DecodeError where
  /-- The input ends inside an integer, a flag, a tag, a block or a list. -/
  | endOfInput
  /-- The input ends inside text or a signature whose length was announced. -/
  | endOfText
  /-- Bytes are left over after the value. -/
  | trailingBytes
  /-- A variant tag is not below the number of variants. -/
  | unknownVariant (tag count : Nat)
  /-- The byte before an optional value is neither 0 nor 1. -/
  | notAnOption (byte : UInt8)
  /-- A flag is neither 0 nor 1. -/
  | notAFlag (byte : UInt8)
  /-- A signature was announced with a length other than 64. -/
  | signatureLength (length : Nat)
  /-- Text is not UTF-8. -/
  | notUtf8 (fault : Utf8.Fault)
deriving DecidableEq, Repr

/-- The wording of a decoding error. -/
def DecodeError.message : DecodeError → String
  | endOfInput => "io error: unexpected end of file"
  | endOfText => "io error: "
  | trailingBytes => "Slice had bytes remaining after deserialization"
  | unknownVariant tag count =>
    "invalid value: integer `" ++ toString tag ++ "`, expected variant index 0 <= i < " ++
      toString count
  | notAnOption byte => "tag for enum is not valid, found " ++ toString byte
  | notAFlag byte => "invalid u8 while decoding bool, expected 0 or 1, found " ++ toString byte
  | signatureLength length => "invalid length " ++ toString length ++ ", expected 64 bytes"
  | notUtf8 fault => "string is not valid utf8: " ++ fault.message

/-- Takes a value off the front of a byte string. -/
abbrev Reader := StateT Bytes (Except DecodeError)

namespace Reader

/-- The next `n` bytes, or the given error when there are fewer. -/
def take (short : DecodeError) (n : Nat) : Reader Bytes := fun bytes ↦
  let front := bytes.take n
  if front.length = n then .ok (front, bytes.drop n) else .error short

/-- The next `n` bytes as a block. -/
def block (n : Nat) : Reader (Block n) := fun bytes ↦
  match Block.ofList? n (bytes.take n) with
  | some b => .ok (b, bytes.drop n)
  | none => .error .endOfInput

/-- One byte. -/
def byte : Reader UInt8
  | [] => .error .endOfInput
  | b :: rest => .ok (b, rest)

/-- An unsigned integer of `n` bytes. -/
def natLE (n : Nat) : Reader Nat := do
  return Bytes.toNatLE (← take .endOfInput n)

/-- An unsigned integer of 32 bits. -/
def uint32 : Reader UInt32 := do
  return UInt32.ofNat (← natLE 4)

/-- A length or a count: 64 bits. -/
def count : Reader Nat := natLE 8

/-- The number of a variant, one of `variants`. -/
def variant (variants : Nat) : Reader Nat := do
  let tag ← natLE 4
  if tag < variants then return tag else throw (.unknownVariant tag variants)

/-- A flag. -/
def flag : Reader Bool := do
  match ← byte with
  | 0 => return false
  | 1 => return true
  | b => throw (.notAFlag b)

/-- A value that may be absent, after a byte that says so. -/
def optional {α : Type} (item : Reader α) : Reader (Option α) := do
  match ← byte with
  | 0 => return none
  | 1 => return some (← item)
  | b => throw (.notAnOption b)

/-- `n` values in a row; the values read so far are kept latest first. -/
def repeated {α : Type} (item : Reader α) : Nat → List α → Reader (List α)
  | 0, acc => return acc.reverse
  | n + 1, acc => do
    let a ← item
    repeated item n (a :: acc)

/-- A list: how many values, then the values. -/
def list {α : Type} (item : Reader α) : Reader (List α) := do
  repeated item (← count) []

/-- Text: how many bytes, then its UTF-8 form. -/
def text : Reader String := do
  let bytes ← take .endOfText (← count)
  match Utf8.decode? bytes with
  | some s => return s
  | none => throw (.notUtf8 ((Utf8.fault bytes).getD (.incomplete bytes.length)))

/-- The value a byte string spells from its first byte to its last. -/
def decode {α : Type} (item : Reader α) (bytes : Bytes) : Except DecodeError α :=
  match item bytes with
  | .error e => .error e
  | .ok (a, []) => .ok a
  | .ok (_, _ :: _) => .error .trailingBytes

end Reader

end Custody
