import Custody.Ledger.Lineage
import Custody.Operation.Proposal
import Custody.Operation.Terms

/-!
# Asking for re-issuance

A requester asks the issuer to create its assets anew. The issuer accepts, which produces encumbered
copies under an active lock that keeps a snapshot of what they stand for, or rejects, which consumes
the request and produces nothing.
-/

namespace Custody.Node

/-- What the issuer needs to know of the entities asked for: everything that those rest on in which,
as far as this node knows, the issuer takes no part. -/
def historyForIssuer (n : Node) (terms : RequestTerms) : Except OperationError (List Transaction) :=
  let unknown := terms.entities.filter fun r ↦
    !(n.ledger.vault.live? r).any fun e ↦ e.entity.participants.contains terms.issuer.key
  let sources := (Std.TreeSet.ofList (unknown.map OutputRef.transaction) compare).toList
  (n.ledger.archive.lineage sources).mapError .ofLedger

/-- Asks an issuer for re-issuance, with or without the history of what is asked for. -/
def draftRequest (n : Node) (stamp : Stamp) (terms : RequestTerms) (sharesHistory : Bool) :
    Except OperationError Proposal := do
  terms.check
  if !n.keyring.owns terms.requester then invalidArgument .foreignRequester
  if terms.isCoLocated && terms.issuer != n.party then invalidArgument .requesterElsewhere
  let history ← if sharesHistory && !terms.isCoLocated then n.historyForIssuer terms else pure []
  let request : Request :=
    ⟨terms.issuer, terms.requester, terms.entities, terms.issuanceCommand, terms.extraSigners⟩
  return {
    content := stamp.content []
      [⟨.request request, [terms.requester, terms.issuer.key], stamp.notary, none⟩]
      [.signedBy .createRequest [terms.requester]] []
    observers := [terms.issuer.key]
    history
    attachments := [] }

/-- All entities are assets, and none of them is in the snapshot of an active lock. -/
def requireReissuable (n : Node) (entities : List Located) : Except OperationError Unit := do
  if let some other := entities.find? (!·.entity.payload.isAsset) then
    invalidArgument (.notAnAsset other.ref)
  entities.forM fun e ↦
    match (n.ledger.vault.locksGoverning e.ref).head? with
    | some lock => throw (.alreadyReissued e.ref lock.ref)
    | none => pure ()

/-- Accepts a request addressed to this node: a copy of each entity, encumbered by a new active
lock that comes after them. -/
def draftAccept (n : Node) (stamp : Stamp) (terms : AcceptTerms) :
    Except OperationError Proposal := do
  terms.check stamp.notary
  let held ← n.requireStoredOne terms.request
  let some request := held.entity.request? | invalidArgument .notARequest
  if request.issuer ≠ n.party then invalidArgument .acceptedByOther
  let entities ← request.entities.mapM n.requireLive
  n.requireReissuable entities
  let issuer := request.issuer.key
  let copies := entities.map fun e ↦
    { e.entity with
      notary := stamp.notary
      encumbrance := some (UInt32.ofNat entities.length) }
  let lock : Lock := ⟨request.issuer, request.requester, entities, .active, terms.unlockSigners⟩
  return {
    content := stamp.content [held.ref]
      (copies ++ [⟨.lock lock, [request.requester, issuer], stamp.notary, some 0⟩])
      [.signedBy .acceptRequest [issuer], .signedBy .createLock [issuer, request.requester],
        .asset request.issuanceCommand (issuer :: request.requester :: terms.issuanceSigners)] []
    observers := participantsOf (held.entity :: entities.map Located.entity)
    history := []
    attachments := [] }

/-- Rejects a request addressed to this node. -/
def draftReject (n : Node) (stamp : Stamp) (request : Located) :
    Except OperationError Proposal := do
  let held ← n.requireStoredOne request
  let some state := held.entity.request? | invalidArgument .notARequest
  if state.issuer ≠ n.party then invalidArgument .rejectedByOther
  return {
    content := stamp.content [held.ref] [] [.signedBy .rejectRequest [state.issuer.key]] []
    observers := [state.requester]
    history := []
    attachments := [] }

end Custody.Node
