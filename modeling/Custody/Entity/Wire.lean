import Custody.Entity
import Custody.Wire

/-!
# The wire form of entities

Writing follows the nesting of locks. Reading a lock reads entities again, one level deeper; every
level takes at least one byte, so the input itself bounds how deep a reader has to go: `readNested`
recurses on a byte string at least as long as what is left to read.
-/

namespace Custody

instance : Wire Asset where
  encode a := encode a.kind ++ encode a.data
  read := return ⟨← Wire.read, ← Wire.read⟩

instance : Wire Request where
  encode r :=
    encode r.issuer ++ encode r.requester ++ encode r.entities ++ encode r.issuanceCommand ++
      encode r.extraSigners
  read := return ⟨← Wire.read, ← Wire.read, ← Wire.read, ← Wire.read, ← Wire.read⟩

instance : Wire LockStatus where
  encode
    | .active => Wire.encodeVariant 0
    | .inactive => Wire.encodeVariant 1
  read := do
    match ← Reader.variant 2 with
    | 0 => return .active
    | _ => return .inactive

mutual

/-- An entity is its payload, participants, notary and encumbrance. -/
def Entity.encode : Entity → Bytes
  | ⟨payload, participants, notary, encumbrance⟩ =>
    payload.encode ++ Wire.encode participants ++ Wire.encode notary ++ Wire.encode encumbrance

/-- A payload is the number of its variant and the variant's content. -/
def Payload.encode : Payload → Bytes
  | .asset a => Wire.encodeVariant 0 ++ Wire.encode a
  | .request r => Wire.encodeVariant 1 ++ Wire.encode r
  | .lock l => Wire.encodeVariant 2 ++ l.encode

/-- A located entity is the entity, then its reference. -/
def Located.encode : Located → Bytes
  | ⟨entity, ref⟩ => entity.encode ++ Wire.encode ref

/-- The entries of a snapshot, one after the other. -/
def Located.encodeAll : List Located → Bytes
  | [] => []
  | e :: es => e.encode ++ Located.encodeAll es

/-- A lock is its issuer, requester, snapshot, status and further signers. -/
def Lock.encode : Lock → Bytes
  | ⟨issuer, requester, snapshot, status, unlockSigners⟩ =>
    Wire.encode issuer ++ Wire.encode requester ++
      (Wire.encodeCount snapshot.length ++ Located.encodeAll snapshot) ++ Wire.encode status ++
      Wire.encode unlockSigners

end

/-- Reads an entity, given the reader of its payload. -/
def Entity.readWith (payload : Reader Payload) : Reader Entity :=
  return ⟨← payload, ← Wire.read, ← Wire.read, ← Wire.read⟩

/-- Reads a located entity, given the reader of its payload. -/
def Located.readWith (payload : Reader Payload) : Reader Located :=
  return ⟨← Entity.readWith payload, ← Wire.read⟩

/-- Reads a lock, given the reader of the payloads in its snapshot. -/
def Lock.readWith (payload : Reader Payload) : Reader Lock :=
  return ⟨← Wire.read, ← Wire.read, ← Reader.list (Located.readWith payload), ← Wire.read,
    ← Wire.read⟩

/-- Reads a payload that nests no deeper than the given byte string is long. -/
def Payload.readNested : Bytes → Reader Payload
  | [] => throw .endOfInput
  | _ :: bound => do
    match ← Reader.variant 3 with
    | 0 => return .asset (← Wire.read)
    | 1 => return .request (← Wire.read)
    | _ => return .lock (← Lock.readWith (Payload.readNested bound))

/-- Reads a payload; what is left of the input bounds its nesting. -/
def Payload.read : Reader Payload := fun bytes ↦ Payload.readNested bytes bytes

instance : Wire Payload := ⟨Payload.encode, Payload.read⟩
instance : Wire Entity := ⟨Entity.encode, Entity.readWith Payload.read⟩
instance : Wire Located := ⟨Located.encode, Located.readWith Payload.read⟩
instance : Wire Lock := ⟨Lock.encode, Lock.readWith Payload.read⟩

end Custody
