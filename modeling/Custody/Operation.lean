import Custody.Operation.Reissue
import Custody.Operation.Release

/-!
# Operations

Everything a node may set out to do. Each operation first drafts a proposal from the node's own
state, which the node judges by the rules; nothing is sent, signed or recorded before the proposal
stands.
-/

namespace Custody

/-- What a node sets out to do. -/
inductive Operation where
  | issue (asset : Asset) (holder : Party)
  | move (asset : Located) (holder : Party)
  | exit (asset : Located)
  | request (terms : RequestTerms) (sharesHistory : Bool)
  | accept (terms : AcceptTerms)
  | reject (request : Located)
  | unlock (terms : UnlockTerms)
  | delete (terms : DeleteTerms)

namespace Node

variable [Cryptosystem]

/-- The transaction an operation comes down to, if the operation stands up to its own checks. -/
def draft (n : Node) (stamp : Stamp) : Operation → Except OperationError Proposal
  | .issue asset holder => return n.draftIssue stamp asset holder
  | .move asset holder => n.draftMove stamp asset holder
  | .exit asset => n.draftExit stamp asset
  | .request terms sharesHistory => n.draftRequest stamp terms sharesHistory
  | .accept terms => n.draftAccept stamp terms
  | .reject request => n.draftReject stamp request
  | .unlock terms => n.draftUnlock stamp terms
  | .delete terms => n.draftDelete stamp terms

/-- Drafts the transaction of an operation and judges it by the rules. -/
def propose (n : Node) (stamp : Stamp) (operation : Operation) :
    Except OperationError Proposal := do
  let p ← n.draft stamp operation
  n.judge p.content
  return p

end Node

end Custody
