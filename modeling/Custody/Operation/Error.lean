import Custody.Ledger
import Custody.Notary
import Custody.Roster
import Custody.Rules

/-!
# Failures of operations

An operation fails because of its arguments, because something is not found, because a check fails,
or because a counterparty or the notary does not play along. Failures of the parts it is made of are
sorted into these classes: what a counterparty refuses and what breaks a rule are failed checks, and
of the notary's refusals only those about consumption keep a class of their own.
-/

namespace Custody

/-- What is wrong with the arguments of an operation, given the state of the node. -/
inductive ArgumentFault where
  | nothingRequested
  | requestedTwice (entity : OutputRef)
  | emptyIssuanceCommand
  | issuerIsExtraSigner
  | requesterIsExtraSigner
  | notaryIsExtraSigner
  | notARequest
  | notALock
  | nothingToUnlock
  | noProofs
  | emptyUnlockCommand
  | nothingToDelete
  | emptyExitCommand
  | notLive (entity : OutputRef)
  | differsFromVault (entity : OutputRef)
  | lockInactive
  | foreignLock
  | governedCount (governed given : Nat)
  | notGoverned (copy lock : OutputRef)
  | foreignRequester
  | requesterElsewhere
  | acceptedByOther
  | rejectedByOther
  | notAnAsset (entity : OutputRef)
  | proofNotHeld (proof : AttachmentId)
  | nothingToSign
  | missingOutput (output : OutputRef)
  /-- A fault given in words only. -/
  | stated (reason : String)
deriving DecidableEq

/-- The wording of a fault. -/
def ArgumentFault.message : ArgumentFault → String
  | nothingRequested => "no entities to re-issue"
  | requestedTwice entity => s!"{entity} requested twice"
  | emptyIssuanceCommand => "issuance command is empty"
  | issuerIsExtraSigner => "issuer signs issuance implicitly and must not be an extra signer"
  | requesterIsExtraSigner => "requester signs issuance implicitly and must not be an extra signer"
  | notaryIsExtraSigner => "notary must not be an issuance signer"
  | notARequest => "entity is not a reissuance request"
  | notALock => "entity is not a reissuance lock"
  | nothingToUnlock => "no governed entities to unlock"
  | noProofs => "unlock needs at least one exit proof"
  | emptyUnlockCommand => "unlock command is empty"
  | nothingToDelete => "no governed entities to delete"
  | emptyExitCommand => "exit command is empty"
  | notLive entity => s!"{entity} is not a live entity in this vault"
  | differsFromVault entity => s!"{entity} differs from the vault's copy"
  | lockInactive => "lock is no longer active"
  | foreignLock => "only the lock's requester may release it"
  | governedCount governed given => s!"lock governs {governed} entities, {given} given"
  | notGoverned copy lock => s!"{copy} is not governed by lock {lock}"
  | foreignRequester => "requester key is not held by this node"
  | requesterElsewhere => "a co-located requester must share the issuer's node"
  | acceptedByOther => "only the named issuer may accept"
  | rejectedByOther => "only the named issuer may reject"
  | notAnAsset entity => s!"{entity} is not an asset"
  | proofNotHeld proof => s!"proof {proof} has not been imported"
  | nothingToSign => "no required key is held here"
  | missingOutput output => s!"{output} does not exist"
  | stated reason => reason

/-- Why an operation, or a check made for another node, failed. -/
inductive OperationError where
  | invalidArgument (fault : ArgumentFault)
  /-- The entity is in the snapshot of an active lock. -/
  | alreadyReissued (entity lock : OutputRef)
  | verificationFailed (reason : String)
  /-- A transaction that others rest on is not held. -/
  | notFound (transaction : TransactionId)
  | store (error : StoreError)
  | network (error : NetworkError)
  | notary (error : NotaryError)
deriving DecidableEq

namespace OperationError

/-- The wording of a failure. -/
def message : OperationError → String
  | invalidArgument fault => "invalid argument: " ++ fault.message
  | alreadyReissued entity lock => s!"{entity} is already re-issued under lock {lock}"
  | verificationFailed reason => s!"verification failed: {reason}"
  | notFound id => s!"transaction {id} not found"
  | store error => "storage error: " ++ error.message
  | network error => "network error: " ++ error.message
  | notary error => "notary rejected the transaction: " ++ error.message

/-- An output that does not exist can only come from the arguments. -/
def ofLedger : LedgerError → OperationError
  | .notFound id => notFound id
  | .missingOutput output => invalidArgument (.missingOutput output)
  | .storage error => store error

/-- A refusal by a counterparty is a failed check. -/
def ofNetwork : NetworkError → OperationError
  | .rejected party reason => verificationFailed s!"{party}: {reason}"
  | error => network error

/-- What the notary finds wrong with a transaction is a failed check; that an input is consumed
already, or that it cannot answer, is not. -/
def ofNotary : NotaryError → OperationError
  | error@(.conflict ..) | error@(.unavailable _) => notary error
  | error@(.wrongNotary _) | error@(.invalidTransaction _) => verificationFailed error.message

/-- A defect is a failed check. -/
def ofTransaction (fault : TransactionFault) : OperationError := verificationFailed fault.message

/-- A proof that proves nothing is a failed check. -/
def ofProof (fault : ProofFault) : OperationError := verificationFailed fault.message

/-- A broken rule is a failed check, a failing store is not. -/
def ofRule : RuleError → OperationError
  | .store error => store error
  | error => verificationFailed error.message

end OperationError

/-- Fails because of an argument. -/
def invalidArgument {α : Type} (fault : ArgumentFault) : Except OperationError α :=
  .error (.invalidArgument fault)

end Custody
