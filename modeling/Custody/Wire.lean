import Custody.Wire.Reader
import Custody.Crypto

/-!
# The wire form

The canonical byte form that ids are computed from and messages are made of. Each type has one
writer, `encode`, and one reader, `read`, built from the same parts in the same order: integers of a
fixed width, lists and text after their length, variants after their number.
-/

namespace Custody

/-- A type with a wire form. -/
class Wire (α : Type) where
  encode : α → Bytes
  read : Reader α

export Wire (encode)

/-- The value a byte string spells from its first byte to its last. -/
def decode (α : Type) [Wire α] (bytes : Bytes) : Except DecodeError α :=
  Reader.decode Wire.read bytes

namespace Wire

/-- A count or a length, in 64 bits. -/
def encodeCount (n : Nat) : Bytes := Bytes.ofNatLE 8 n

/-- The number of a variant, in 32 bits. -/
def encodeVariant (n : Nat) : Bytes := Bytes.ofNatLE 4 n

/-- A list with its count in front. -/
def encodeList {α : Type} (item : α → Bytes) (xs : List α) : Bytes :=
  encodeCount xs.length ++ xs.flatMap item

instance : Wire UInt32 where
  encode n := Bytes.ofNatLE 4 n.toNat
  read := Reader.uint32

instance : Wire Bool where
  encode b := [if b then 1 else 0]
  read := Reader.flag

instance : Wire String where
  encode s :=
    let bytes := Utf8.encode s
    encodeCount bytes.length ++ bytes
  read := Reader.text

instance {n : Nat} : Wire (Block n) where
  encode b := b.toList
  read := Reader.block n

instance {α : Type} [Wire α] : Wire (Option α) where
  encode
    | none => [0]
    | some a => 1 :: encode a
  read := Reader.optional read

instance {α : Type} [Wire α] : Wire (List α) where
  encode := encodeList encode
  read := Reader.list read

/-- A blob is a list of bytes; the bytes are copied as they are. -/
instance : Wire Bytes where
  encode bytes := encodeCount bytes.length ++ bytes
  read := do Reader.take .endOfInput (← Reader.count)

instance : Wire TransactionId where
  encode id := encode id.block
  read := return ⟨← read⟩

instance : Wire AttachmentId where
  encode id := encode id.block
  read := return ⟨← read⟩

instance : Wire PublicKey where
  encode key := encode key.block
  read := return ⟨← read⟩

/-- A signature comes after its length, which is always 64. -/
instance : Wire Signature where
  encode s := encodeCount 64 ++ s.block.toList
  read := do
    let bytes ← Reader.take .endOfText (← Reader.count)
    match Block.ofList? 64 bytes with
    | some b => return ⟨b⟩
    | none => throw (.signatureLength bytes.length)

instance : Wire OutputRef where
  encode r := encode r.transaction ++ encode r.index
  read := return ⟨← read, ← read⟩

instance : Wire Party where
  encode p := encode p.name ++ encode p.key
  read := return ⟨← read, ← read⟩

end Wire

end Custody
