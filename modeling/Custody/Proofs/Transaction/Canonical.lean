import Custody.Proofs.ExitProof
import Custody.Proofs.Session.Message
import Custody.Transaction.Fault

/-!
# One byte form for each value

Whatever a transaction is made of has one byte form. A value whose counts and lengths have a place
in 64 bits is read back from what was written for it, and whatever byte string reads as a value is
the one written for it: no tag, flag, length or text has a second spelling. So encodings tell values
apart, no value has two encodings, and contents with equal ids are equal unless two different
encodings have the same hash. The argument is made once, for every lawful wire form.
-/

namespace Custody

/-! ### Lawful wire forms are canonical -/

/-- The ledger reads a value from its own encoding, and from nothing else. -/
structure Canonical (α : Type) [Wire α] [LawfulWire α] : Prop where
  decode_encode (a : α) : LawfulWire.Fits a → decodeLedger α (encode a) = .ok a
  encode_of_decode (bytes : Bytes) (a : α) :
    decodeLedger α bytes = .ok a → LawfulWire.Fits a ∧ encode a = bytes
  injective (a b : α) : LawfulWire.Fits a → LawfulWire.Fits b → encode a = encode b → a = b
  bytes_eq (bytes bytes' : Bytes) (a : α) :
    decodeLedger α bytes = .ok a → decodeLedger α bytes' = .ok a → bytes = bytes'

section

variable {α : Type} [Wire α] [LawfulWire α]

theorem decodeLedger_eq_ok_iff {bytes : Bytes} {a : α} :
    decodeLedger α bytes = .ok a ↔ LawfulWire.Fits a ∧ bytes = encode a := by
  unfold decodeLedger
  rw [Outcome.mapError_eq_ok_iff, LawfulWire.decode_eq_ok_iff]

/-- Values with one encoding are read as each other. -/
theorem LawfulWire.eq_of_encode_eq {a b : α} (ha : Fits a) (hb : Fits b)
    (h : encode a = encode b) : a = b := by
  have hread : decodeLedger α (encode a) = .ok a := decodeLedger_eq_ok_iff.mpr ⟨ha, rfl⟩
  have hread' : decodeLedger α (encode a) = .ok b := decodeLedger_eq_ok_iff.mpr ⟨hb, h⟩
  exact Except.ok.inj (hread.symm.trans hread')

theorem LawfulWire.canonical : Canonical α where
  decode_encode _ hfits := decodeLedger_eq_ok_iff.mpr ⟨hfits, rfl⟩
  encode_of_decode _ _ h := by
    obtain ⟨hfits, hbytes⟩ := decodeLedger_eq_ok_iff.mp h
    exact ⟨hfits, hbytes.symm⟩
  injective _ _ := eq_of_encode_eq
  bytes_eq _ _ _ h h' := by
    obtain ⟨-, hbytes⟩ := decodeLedger_eq_ok_iff.mp h
    obtain ⟨-, hbytes'⟩ := decodeLedger_eq_ok_iff.mp h'
    rw [hbytes, hbytes']

end

/-- An id stands for one content, up to a collision of the hash function. -/
theorem Content.eq_or_collision_of_id_eq [Cryptosystem] {c d : Content}
    (hc : LawfulWire.Fits c) (hd : LawfulWire.Fits d) (h : c.id = d.id) :
    c = d ∨ encode c ≠ encode d ∧
      Cryptosystem.hash (encode c) = Cryptosystem.hash (encode d) := by
  by_cases heq : encode c = encode d
  · exact .inl (LawfulWire.eq_of_encode_eq hc hd heq)
  · exact .inr ⟨heq, TransactionId.mk.inj h⟩

/-! ### What a transaction is made of -/

/-- A type with a lawful wire form. -/
structure WireType where
  Value : Type
  [wire : Wire Value]
  [lawful : LawfulWire Value]

attribute [instance] WireType.wire WireType.lawful

/-- What is read and written on the way to a transaction, from an id to the transaction with its
endorsements. -/
inductive Part where
  | transactionId
  | attachmentId
  | publicKey
  | signature
  | outputRef
  | party
  | asset
  | request
  | lockStatus
  | lock
  | payload
  | entity
  | located
  | commandKind
  | command
  | content
  | endorsement
  | transaction
deriving DecidableEq, Repr

/-- The values of a part. -/
def Part.type : Part → WireType
  | transactionId => ⟨TransactionId⟩
  | attachmentId => ⟨AttachmentId⟩
  | publicKey => ⟨PublicKey⟩
  | signature => ⟨Signature⟩
  | outputRef => ⟨OutputRef⟩
  | party => ⟨Party⟩
  | asset => ⟨Asset⟩
  | request => ⟨Request⟩
  | lockStatus => ⟨LockStatus⟩
  | lock => ⟨Lock⟩
  | payload => ⟨Payload⟩
  | entity => ⟨Entity⟩
  | located => ⟨Located⟩
  | commandKind => ⟨CommandKind⟩
  | command => ⟨Command⟩
  | content => ⟨Content⟩
  | endorsement => ⟨Endorsement⟩
  | transaction => ⟨Transaction⟩

/-- Every part of a transaction has one encoding, and an id stands for one content. -/
theorem canonical_parts [Cryptosystem] :
    (∀ part : Part, Canonical part.type.Value) ∧
      ∀ c d : Content, LawfulWire.Fits c → LawfulWire.Fits d → c.id = d.id →
        c = d ∨ encode c ≠ encode d ∧
          Cryptosystem.hash (encode c) = Cryptosystem.hash (encode d) :=
  ⟨fun _ ↦ LawfulWire.canonical, fun _ _ ↦ Content.eq_or_collision_of_id_eq⟩

/-! ### A lock over a lock -/

namespace Nested

open ExitProof.Pair
open Trial (key notary)

/-- A lock over two entities, with its reference. -/
def inner : Located := ⟨⟨.lock lock, [key 2], notary, none⟩, ⟨⟨.replicate 32 4⟩, 2⟩⟩

/-- A lock whose snapshot holds the first lock next to an entity of its snapshot. -/
def outer : Entity :=
  ⟨.lock ⟨⟨"Ausgabestelle für Anteile", key 1⟩, key 2, [inner, first], .inactive, [key 5]⟩,
    [key 2, key 1], notary, some 0⟩

def content : Content where
  inputs := [first.ref, inner.ref]
  outputs := [first.entity, outer]
  commands := [.signedBy .createLock [key 1, key 2], .asset "Issue" [key 1]]
  notary := notary
  attachments := [⟨.replicate 32 6⟩]
  salt := .replicate 32 0

end Nested

open Nested in
theorem nested_decode_encode :
    LawfulWire.Fits content ∧ decodeLedger Content (encode content) = .ok content := by
  have hfits : LawfulWire.Fits content := LawfulWire.fits_of_length_lt (by decide +kernel)
  exact ⟨hfits, ((@canonical_parts .clear).1 .content).decode_encode content hfits⟩

end Custody
