import Custody.Transaction.Checks

/-!
# Exit proofs

Before a lock may let go of its copies, every entity in its snapshot must have been consumed. The
proof is the consuming transaction itself, as a blob: it must hash to the id it is stored under, be
the wire form of a transaction that declares its own id, consume some of them by exact reference,
name the notary each of them names, and carry only valid endorsements, the notary's among them.
Together the proofs must cover the snapshot.
-/

namespace Custody

/-- Why a blob, or a set of blobs, proves nothing. -/
inductive ProofFault where
  | attachmentMismatch (id : AttachmentId)
  | malformed (reason : String)
  | idMismatch (declared computed : TransactionId)
  | invalidSignature (transaction : TransactionId) (key : PublicKey)
  | nothingGoverned (transaction : TransactionId)
  | wrongNotary (transaction : TransactionId) (expected found : String)
  | notNotarised (transaction : TransactionId)
  | uncovered (entry : OutputRef)
  | emptyLock
deriving DecidableEq

/-- The wording of a fault. -/
def ProofFault.message : ProofFault → String
  | attachmentMismatch id => s!"attachment {id} does not hash to its id"
  | malformed reason => s!"proof does not decode to a signed transaction: {reason}"
  | idMismatch declared computed =>
    s!"proof declares id {declared} but its content hashes to {computed}"
  | invalidSignature id key => s!"proof {id} carries an invalid signature by {key}"
  | nothingGoverned id => s!"proof {id} consumes no entity governed by the lock"
  | wrongNotary id expected found => s!"proof {id} names notary {found}, expected {expected}"
  | notNotarised id => s!"proof {id} is not notarised"
  | uncovered entry => s!"no proof covers governed entity {entry}"
  | emptyLock => "lock snapshots no entities"

/-- What a verified proof establishes. -/
structure ExitProof where
  transaction : TransactionId
  /-- What it consumes of the snapshot, in order. -/
  consumed : List OutputRef
deriving DecidableEq

namespace ExitProof

variable [Cryptosystem]

/-- The snapshot a lock's proofs are checked against. -/
def snapshotOf (lock : Lock) : Except ProofFault (List Located) :=
  if lock.snapshot.isEmpty then .error .emptyLock else .ok lock.snapshot

/-- The transaction a blob holds, if the blob hashes to its id and the transaction declares its
own. -/
def transactionOf (id : AttachmentId) (blob : Bytes) : Except ProofFault Transaction := do
  if AttachmentId.ofBlob blob ≠ id then throw (.attachmentMismatch id)
  let t ← (decodeLedger Transaction blob).mapError fun e ↦ .malformed e.message
  if t.content.id ≠ t.id then throw (.idMismatch t.id t.content.id)
  return t

/-- Checks one blob against a snapshot. -/
def verify (snapshot : List Located) (id : AttachmentId) (blob : Bytes) :
    Except ProofFault ExitProof := do
  let t ← transactionOf id blob
  let governed := snapshot.filter fun entry ↦ t.content.inputs.contains entry.ref
  if governed.isEmpty then throw (.nothingGoverned t.id)
  if let some foreign := governed.find? (·.entity.notary != t.content.notary) then
    throw (.wrongNotary t.id foreign.entity.notary.name t.content.notary.name)
  if let some bad := t.endorsements.find? (!·.isValidFor t.id) then
    throw (.invalidSignature t.id bad.signer)
  if !t.isNotarisedBy t.content.notary then throw (.notNotarised t.id)
  return ⟨t.id, governed.map Located.ref⟩

/-- Checks every blob and that together they cover the snapshot. -/
def verifyAll (snapshot : List Located) (proofs : List (AttachmentId × Bytes)) :
    Except ProofFault (List ExitProof) := do
  let verified ← proofs.mapM fun (id, blob) ↦ verify snapshot id blob
  let covered := verified.flatMap consumed
  if let some missing := (snapshot.map Located.ref).find? (!covered.contains ·) then
    throw (.uncovered missing)
  return verified

/-- Checks the proofs presented for the release of a lock. -/
def verifyRelease (lock : Lock) (proofs : List (AttachmentId × Bytes)) :
    Except ProofFault (List ExitProof) := do
  verifyAll (← snapshotOf lock) proofs

end ExitProof

end Custody
