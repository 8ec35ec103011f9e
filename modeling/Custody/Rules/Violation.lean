import Custody.Command

/-!
# Violations of the rules

One cause per rule, with its wording.
-/

namespace Custody

/-- The two parties to a re-issuance. -/
inductive Role where
  | issuer
  | requester
deriving DecidableEq, Repr

/-- How a role is called in messages. -/
def Role.text : Role → String
  | issuer => "the issuer"
  | requester => "the requester"

/-- Which rule a transaction breaks. -/
inductive Violation where
  | severalSteps
  | strayLock
  | missingCommand (kind : CommandKind)
  | unsigned (role : Role) (kind : CommandKind)
  | consumedNoRequest
  | oneRequestConsumed
  | requestConsumes
  | producedNoRequest
  | oneRequestProduced
  | emptyRequest
  | issuerExtraSigner
  | noCopiesAndLock
  | lastIsNoLock
  | newLockInactive
  | lockPartiesDiffer
  | snapshotDiffers
  | copyCount
  | onlyAssets
  | copyDiffers (entry : OutputRef)
  | copyUnencumbered
  | lockUnencumbered
  | rejectionProduces
  | oneLockConsumed
  | consumedLockInactive
  | notGoverned (input : OutputRef)
  | copiesLeftBehind
  | copyNotInSnapshot
  | noReleasedAndLock
  | lockChanged
  | releasedCount
  | releasedDiffers (entry : OutputRef)
  | unlockSignerMissing (key : PublicKey)
  | noProofs
  | deletionProduces
  | unexpectedOutput
  | notFreelyConsumed (input : OutputRef)
  | participantMissing (key : PublicKey)
  /-- A cause given in words only. -/
  | stated (reason : String)
deriving DecidableEq

namespace Violation

/-- The wording of a cause. -/
def message : Violation → String
  | severalSteps => "more than one reissuance command"
  | strayLock => "locks are only created when accepting a request"
  | missingCommand kind => s!"missing {kind} command"
  | unsigned role kind => role.text ++ s!" must sign {kind}"
  | consumedNoRequest => "the consumed entity is not a reissuance request"
  | oneRequestConsumed => "exactly one reissuance request must be consumed"
  | requestConsumes => "a request consumes nothing"
  | producedNoRequest => "a request transaction outputs a request"
  | oneRequestProduced => "a request transaction has exactly one output"
  | emptyRequest => "a request names at least one entity"
  | issuerExtraSigner => "the issuer is an implicit signer"
  | noCopiesAndLock => "a reissue transaction outputs copies and a lock"
  | lastIsNoLock => "the last output of a reissue transaction is the lock"
  | newLockInactive => "a new lock is active"
  | lockPartiesDiffer => "lock issuer and requester must match the request"
  | snapshotDiffers => "lock snapshot must be exactly the requested entities"
  | copyCount => "one copy per requested entity"
  | onlyAssets => "only assets are re-issued"
  | copyDiffers entry => s!"copy of {entry} differs from the original"
  | copyUnencumbered => "every copy is encumbered by the lock"
  | lockUnencumbered => "the lock is encumbered by its copies"
  | rejectionProduces => "a rejection produces nothing"
  | oneLockConsumed => "exactly one reissuance lock must be consumed"
  | consumedLockInactive => "the consumed lock is not active"
  | notGoverned input => s!"{input} is not governed by the lock"
  | copiesLeftBehind => "every governed copy must be consumed with the lock"
  | copyNotInSnapshot => "governed copy does not match the lock snapshot"
  | noReleasedAndLock => "an unlock outputs the released entities and the lock"
  | lockChanged => "the lock must be re-emitted inactive and otherwise unchanged"
  | releasedCount => "one released entity per governed copy"
  | releasedDiffers entry => s!"released copy of {entry} differs from the original"
  | unlockSignerMissing key => s!"unlock signer {key} is missing"
  | noProofs => "an unlock carries its exit proofs"
  | deletionProduces => "a delete produces nothing"
  | unexpectedOutput => "unexpected request or lock output"
  | notFreelyConsumed input => s!"{input} can only be consumed by a reissuance command"
  | participantMissing key => s!"participant {key} must sign"
  | stated reason => reason

end Violation

end Custody
