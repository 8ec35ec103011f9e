import Custody.Operation.Proposal
import Custody.Operation.Terms

/-!
# Letting go of copies

The requester unlocks its copies by proving that everything they stand for has been consumed, which
releases them freely and leaves the lock inactive, or deletes them together with the lock. Either
way the lock and all its copies are consumed, the copies in the order of the snapshot and the lock
last.
-/

namespace Custody

/-- The copies under a lock in the order of their positions, followed by the lock. They must be the
outputs of the lock's transaction from the first on, as many as the snapshot has entries, each
encumbered by the lock. -/
def governedInputs (lock : Located) (state : Lock) (governed : List Located) :
    Except OperationError (List Located) := do
  if governed.length ≠ state.snapshot.length then
    invalidArgument (.governedCount state.snapshot.length governed.length)
  let ordered := governed.mergeSort fun a b ↦ a.ref.index ≤ b.ref.index
  let stray := ordered.zipIdx.find? fun (copy, position) ↦
    !(copy.ref.transaction == lock.ref.transaction && copy.ref.index.toNat == position &&
      copy.entity.encumbrance == some lock.ref.index)
  match stray with
  | some (copy, _) => invalidArgument (.notGoverned copy.ref lock.ref)
  | none => return ordered ++ [lock]

namespace Node

variable [Cryptosystem]

/-- A blob that is held, with its id. -/
def requireProof (n : Node) (id : AttachmentId) : Except OperationError (AttachmentId × Bytes) :=
  match n.attachments.fetch id with
  | .ok blob => .ok (id, blob)
  | .error _ => invalidArgument (.proofNotHeld id)

/-- Those who are told when a lock goes: the issuer and all participants. -/
def releaseObservers (state : Lock) (inputs : List Located) : List PublicKey :=
  state.issuer.key :: participantsOf (inputs.map Located.entity)

/-- Unlocks copies against proofs. One bad proof fails the whole. -/
def draftUnlock (n : Node) (stamp : Stamp) (terms : UnlockTerms) :
    Except OperationError Proposal := do
  terms.check
  let (lock, state) ← n.requireOwnLock terms.lock
  let governed ← n.requireStored terms.governed
  let inputs ← governedInputs lock state governed
  let proofs ← terms.proofs.mapM n.requireProof
  discard <| (ExitProof.verifyRelease state proofs).mapError .ofProof
  let released := inputs.dropLast.map fun copy ↦
    { copy.entity with notary := stamp.notary, encumbrance := none }
  let lockOutput : Entity :=
    ⟨.lock state.deactivated, lock.entity.participants, stamp.notary, none⟩
  let issuerSigns :=
    match terms.issuerPolicy with
    | .sign => [state.issuer.key]
    | .observe => []
  return {
    content := stamp.content (inputs.map Located.ref) (released ++ [lockOutput])
      [.signedBy .deactivateLock [state.requester],
        .asset terms.unlockCommand
          (state.requester :: terms.extraSigners ++ state.unlockSigners ++ issuerSigns)]
      terms.proofs
    observers := releaseObservers state inputs
    history := []
    attachments := proofs.map Prod.snd }

/-- Deletes copies and their lock. -/
def draftDelete (n : Node) (stamp : Stamp) (terms : DeleteTerms) :
    Except OperationError Proposal := do
  terms.check
  let (lock, state) ← n.requireOwnLock terms.lock
  let governed ← n.requireStored terms.governed
  let inputs ← governedInputs lock state governed
  let exitSigners := if terms.signers.isEmpty then [state.requester] else terms.signers
  return {
    content := stamp.content (inputs.map Located.ref) []
      [.signedBy .deleteLock [state.requester], .asset terms.exitCommand exitSigners] []
    observers := releaseObservers state inputs
    history := []
    attachments := [] }

end Node

end Custody
