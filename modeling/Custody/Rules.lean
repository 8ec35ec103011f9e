import Custody.ExitProof
import Custody.Ledger.Archive
import Custody.Rules.Violation

/-!
# The rules of the ledger

What a transaction may do, judged against the entities it consumes and the attachments at hand.
Every node applies these rules before it signs or records. The commands say which step of
re-issuance a transaction takes, and each step has its own rule; a transaction that takes none may
only handle assets, and needs the signature of every participant in what it consumes.
-/

namespace Custody

/-- A transaction that breaks the rules, or cannot be judged. -/
inductive RuleError where
  | violation (cause : Violation)
  | transaction (fault : TransactionFault)
  | proof (fault : ProofFault)
  | store (error : StoreError)
deriving DecidableEq

/-- The wording of a refusal. -/
def RuleError.message : RuleError → String
  | violation cause => cause.message
  | transaction fault => fault.message
  | proof fault => "exit proof rejected: " ++ fault.message
  | store error => "storage error: " ++ error.message

/-- The steps of re-issuance. -/
inductive Step where
  | request
  | reissue
  | reject
  | unlock
  | delete
deriving DecidableEq, Repr

/-- The step a command stands for. Creating a lock is part of re-issuing, and asset commands take no
step. -/
def CommandKind.step? : CommandKind → Option Step
  | asset _ => none
  | createRequest => some .request
  | acceptRequest => some .reissue
  | rejectRequest => some .reject
  | createLock => none
  | deactivateLock => some .unlock
  | deleteLock => some .delete

namespace Rules

/-- Refuses with a cause. -/
def refuse {α : Type} (cause : Violation) : Except RuleError α := .error (.violation cause)

/-- Refuses unless a condition holds. -/
def require (condition : Bool) (cause : Violation) : Except RuleError Unit :=
  if condition then .ok () else refuse cause

/-- The step a transaction takes: at most one, and locks are created in no other step than
re-issuing. -/
def stepOf (c : Content) : Except RuleError (Option Step) := do
  let steps := c.commands.filterMap fun command ↦ command.kind.step?
  require (steps.length ≤ 1) .severalSteps
  let step := steps.head?
  require (!c.commands.any (·.kind == .createLock) || step == some .reissue) .strayLock
  return step

/-- The first command of a kind. -/
def command (c : Content) (kind : CommandKind) : Except RuleError Command :=
  match c.commands.find? (·.kind == kind) with
  | some found => .ok found
  | none => refuse (.missingCommand kind)

/-- A command must be signed by a key that stands for a role. -/
def requireSigner (command : Command) (key : PublicKey) (role : Role) : Except RuleError Unit :=
  require (command.signers.contains key) (.unsigned role command.kind)

/-- The request that is the only input. -/
def soleRequest (inputs : List Located) : Except RuleError Request :=
  match inputs with
  | [only] =>
    match only.entity.request? with
    | some request => .ok request
    | none => refuse .consumedNoRequest
  | _ => refuse .oneRequestConsumed

/-- A request is created from nothing, alone, for at least one entity, signed by its requester; the
issuer is no extra signer. -/
def checkRequest (c : Content) (inputs : List Located) : Except RuleError Unit := do
  require inputs.isEmpty .requestConsumes
  let request ←
    match c.outputs with
    | [only] =>
      match only.request? with
      | some request => pure request
      | none => refuse .producedNoRequest
    | _ => refuse .oneRequestProduced
  require (!request.entities.isEmpty) .emptyRequest
  require (!request.extraSigners.contains request.issuer.key) .issuerExtraSigner
  requireSigner (← command c .createRequest) request.requester .requester

/-- A copy is an asset equal to its entry of the snapshot but for the notary and the encumbrance,
which is the lock. -/
def checkCopy (lockIndex : UInt32) (copy : Entity) (entry : Located) :
    Except RuleError Unit := do
  require copy.payload.isAsset .onlyAssets
  require (copy.payload == entry.entity.payload &&
    copy.participants == entry.entity.participants) (.copyDiffers entry.ref)
  require (copy.encumbrance == some lockIndex) .copyUnencumbered

/-- Re-issuing consumes a request and produces, in the order of the request, a copy of each entity
under a new active lock that holds their snapshot; the issuer and the requester sign. -/
def checkReissue (c : Content) (inputs : List Located) : Except RuleError Unit := do
  let request ← soleRequest inputs
  let some lockEntity := c.outputs.getLast? | refuse .noCopiesAndLock
  let copies := c.outputs.dropLast
  let some lock := lockEntity.lock? | refuse .lastIsNoLock
  require lock.isActive .newLockInactive
  require (lock.issuer == request.issuer && lock.requester == request.requester) .lockPartiesDiffer
  require (lock.snapshotRefs == request.entities) .snapshotDiffers
  require (copies.length == lock.snapshot.length) .copyCount
  (copies.zip lock.snapshot).forM fun (copy, entry) ↦
    checkCopy (UInt32.ofNat copies.length) copy entry
  require lockEntity.isEncumbered .lockUnencumbered
  let issuer := request.issuer.key
  requireSigner (← command c .acceptRequest) issuer .issuer
  let create ← command c .createLock
  requireSigner create issuer .issuer
  requireSigner create request.requester .requester
  let issuance ← command c (.asset request.issuanceCommand)
  requireSigner issuance issuer .issuer
  requireSigner issuance request.requester .requester

/-- Rejecting consumes a request, produces nothing, and is signed by the issuer. -/
def checkReject (c : Content) (inputs : List Located) : Except RuleError Unit := do
  let request ← soleRequest inputs
  require c.outputs.isEmpty .rejectionProduces
  requireSigner (← command c .rejectRequest) request.issuer.key .issuer

/-- An input other than the lock is one of its copies: an output of the lock's transaction that is
encumbered by it. -/
def isGoverned (lockRef : OutputRef) (input : Located) : Bool :=
  input.ref.transaction == lockRef.transaction && input.entity.encumbrance == some lockRef.index

/-- The active lock among the inputs. All other inputs are its copies, as many as its snapshot has
entries, each with the payload of the entry at its position. -/
def consumedLock (inputs : List Located) : Except RuleError Lock := do
  let (lockRef, lock) ←
    match inputs.filterMap fun i ↦ i.entity.lock?.map fun l ↦ (i.ref, l) with
    | [only] => pure only
    | _ => refuse .oneLockConsumed
  require lock.isActive .consumedLockInactive
  let copies := inputs.filter (·.ref != lockRef)
  if let some stray := copies.find? (!isGoverned lockRef ·) then refuse (.notGoverned stray.ref)
  require (copies.length == lock.snapshot.length) .copiesLeftBehind
  require (copies.all fun copy ↦
    lock.snapshot[copy.ref.index.toNat]?.any fun entry ↦
      entry.entity.payload == copy.entity.payload) .copyNotInSnapshot
  return lock

/-- A released entity equals its entry of the snapshot but for the notary, and nothing encumbers
it. -/
def checkReleased (output : Entity) (entry : Located) : Except RuleError Unit :=
  require (output.payload == entry.entity.payload &&
    output.participants == entry.entity.participants && !output.isEncumbered)
    (.releasedDiffers entry.ref)

/-- Unlocking consumes an active lock with all its copies, produces the entities of the snapshot
freely and the lock inactive, is signed by the requester and the lock's further signers, and
attaches proofs that everything in the snapshot has been consumed. -/
def checkUnlock [Cryptosystem] (c : Content) (inputs : List Located) (attachments : Attachments) :
    Except RuleError Unit := do
  let lock ← consumedLock inputs
  let some lockOutput := c.outputs.getLast? | refuse .noReleasedAndLock
  let released := c.outputs.dropLast
  require (lockOutput.lock? == some lock.deactivated && !lockOutput.isEncumbered) .lockChanged
  require (released.length == lock.snapshot.length) .releasedCount
  (released.zip lock.snapshot).forM fun (output, entry) ↦ checkReleased output entry
  requireSigner (← command c .deactivateLock) lock.requester .requester
  if let some missing := lock.unlockSigners.find? (!c.requiredKeys.contains ·) then
    refuse (.unlockSignerMissing missing)
  require (!c.attachments.isEmpty) .noProofs
  let proofs ← c.attachments.mapM fun id ↦ do
    let blob ← (attachments.fetch id).mapError .store
    return (id, blob)
  discard <| (ExitProof.verifyRelease lock proofs).mapError .proof

/-- Deleting consumes an active lock with all its copies, produces nothing, and is signed by the
requester. -/
def checkDelete (c : Content) (inputs : List Located) : Except RuleError Unit := do
  let lock ← consumedLock inputs
  require c.outputs.isEmpty .deletionProduces
  requireSigner (← command c .deleteLock) lock.requester .requester

/-- An input outside re-issuance is an asset all of whose participants sign. -/
def checkAssetInput (signers : List PublicKey) (input : Located) : Except RuleError Unit := do
  require input.entity.payload.isAsset (.notFreelyConsumed input.ref)
  if let some missing := input.entity.participants.find? (!signers.contains ·) then
    refuse (.participantMissing missing)

/-- Outside re-issuance only assets are consumed and produced. -/
def checkAssets (c : Content) (inputs : List Located) : Except RuleError Unit := do
  require (c.outputs.all (·.payload.isAsset)) .unexpectedOutput
  inputs.forM (checkAssetInput c.requiredKeys)

/-- Judges a transaction against the entities its inputs stand for, in order. -/
def check [Cryptosystem] (c : Content) (inputs : List Located) (attachments : Attachments) :
    Except RuleError Unit := do
  c.checkStructure.mapError .transaction
  (c.checkEncumbrances inputs).mapError .transaction
  match ← stepOf c with
  | some .request => checkRequest c inputs
  | some .reissue => checkReissue c inputs
  | some .reject => checkReject c inputs
  | some .unlock => checkUnlock c inputs attachments
  | some .delete => checkDelete c inputs
  | none => checkAssets c inputs

end Rules

end Custody
