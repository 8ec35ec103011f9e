import Custody.Operation.Error
import Custody.Repeats
import Custody.Settings

/-!
# Terms of re-issuance

The arguments of the steps of re-issuance, with the checks that need no ledger. They come before
anything else an operation does.
-/

namespace Custody

/-- What a requester asks an issuer for. -/
structure RequestTerms where
  issuer : Party
  /-- The key that owns the entities and signs the request. -/
  requester : PublicKey
  entities : List OutputRef
  /-- The asset command under which the issuer creates the copies. -/
  issuanceCommand : String
  /-- Who signs the issuance besides the issuer and the requester. -/
  extraSigners : List PublicKey
  /-- The requester's key lives on the issuer's own node. -/
  isCoLocated : Bool

/-- There are entities, each named once; the command has a name; and the extra signers are
others than issuer and requester. -/
def RequestTerms.check (terms : RequestTerms) : Except OperationError Unit := do
  if terms.entities.isEmpty then invalidArgument .nothingRequested
  if let some entity := firstRepeat? terms.entities then
    invalidArgument (.requestedTwice entity)
  if terms.issuanceCommand.isEmpty then invalidArgument .emptyIssuanceCommand
  if terms.issuer.key ∈ terms.extraSigners then invalidArgument .issuerIsExtraSigner
  if terms.requester ∈ terms.extraSigners then invalidArgument .requesterIsExtraSigner

/-- How an issuer accepts a request. -/
structure AcceptTerms where
  request : Located
  /-- Who signs the issuance besides issuer and requester, if not those the request names. -/
  signers : Option (List PublicKey)
  /-- Who signs the release besides the requester. -/
  unlockSigners : List PublicKey

namespace AcceptTerms

/-- Who signs the issuance besides issuer and requester. -/
def issuanceSigners (terms : AcceptTerms) : List PublicKey :=
  terms.signers.getD ((terms.request.entity.request?.map Request.extraSigners).getD [])

/-- An extra signer is another than notary, requester and issuer. -/
def checkSigner (notary : Party) (request : Request) (signer : PublicKey) :
    Except OperationError Unit :=
  if signer = notary.key then invalidArgument .notaryIsExtraSigner
  else if signer = request.requester then invalidArgument .requesterIsExtraSigner
  else if signer = request.issuer.key then invalidArgument .issuerIsExtraSigner
  else .ok ()

/-- There is a request, and all extra signers are in order. -/
def check (terms : AcceptTerms) (notary : Party) : Except OperationError Unit := do
  let some request := terms.request.entity.request? | invalidArgument .notARequest
  terms.issuanceSigners.forM (checkSigner notary request)

end AcceptTerms

/-- How a lock lets its copies go. -/
structure UnlockTerms where
  lock : Located
  /-- The copies under the lock. -/
  governed : List Located
  /-- The proofs that the snapshot is consumed. -/
  proofs : List AttachmentId
  unlockCommand : String
  /-- Who signs besides the requester and those the lock names. -/
  extraSigners : List PublicKey
  issuerPolicy : IssuerPolicy

/-- There is a lock, copies and proofs, and the command has a name. -/
def UnlockTerms.check (terms : UnlockTerms) : Except OperationError Unit := do
  if terms.lock.entity.lock?.isNone then invalidArgument .notALock
  if terms.governed.isEmpty then invalidArgument .nothingToUnlock
  if terms.proofs.isEmpty then invalidArgument .noProofs
  if terms.unlockCommand.isEmpty then invalidArgument .emptyUnlockCommand

/-- How a lock is deleted together with its copies. -/
structure DeleteTerms where
  lock : Located
  /-- The copies under the lock. -/
  governed : List Located
  exitCommand : String
  /-- Who signs the exit; the requester, if nobody is named. -/
  signers : List PublicKey

/-- There is a lock and copies, and the command has a name. -/
def DeleteTerms.check (terms : DeleteTerms) : Except OperationError Unit := do
  if terms.lock.entity.lock?.isNone then invalidArgument .notALock
  if terms.governed.isEmpty then invalidArgument .nothingToDelete
  if terms.exitCommand.isEmpty then invalidArgument .emptyExitCommand

end Custody
