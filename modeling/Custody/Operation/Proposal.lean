import Custody.Node

/-!
# Proposals

A proposal is a transaction that a node wants settled, together with whom to tell about it and what
to hand over first. The node that makes one judges its content by the rules before anybody hears of
it. The simplest proposals are made by holders of assets.
-/

namespace Custody

/-- What every transaction of a node carries: the notary it names, and the salt that keeps it apart
from others of the same content. -/
structure Stamp where
  notary : Party
  salt : Block 32

/-- The content with this stamp. -/
def Stamp.content (stamp : Stamp) (inputs : List OutputRef) (outputs : List Entity)
    (commands : List Command) (attachments : List AttachmentId) : Content :=
  ⟨inputs, outputs, commands, stamp.notary, attachments, stamp.salt⟩

/-- A transaction to be settled. -/
structure Proposal where
  content : Content
  /-- The keys of those who are told without signing. -/
  observers : List PublicKey
  /-- Transactions that counterparties record first, besides those the inputs rest on. -/
  history : List Transaction
  /-- Blobs that counterparties are given. -/
  attachments : List Bytes

/-!
### Holding assets

Assets are issued to a holder, moved to another and exited from the ledger. A move hands the new
holder everything the asset rests on, so that its provenance can be shown onwards; an exit is what a
holder presents later to have a lock released.
-/

namespace Node

/-- Creates an asset for a holder, signed by this node. -/
def draftIssue (n : Node) (stamp : Stamp) (asset : Asset) (holder : Party) : Proposal where
  content := stamp.content [] [⟨.asset asset, [holder.key], stamp.notary, none⟩]
    [.asset "Issue" [n.party.key]] []
  observers := [holder.key]
  history := []
  attachments := []

/-- Passes a held asset on to a new holder, signed by its participants. -/
def draftMove (n : Node) (stamp : Stamp) (asset : Located) (holder : Party) :
    Except OperationError Proposal := do
  let held ← n.requireStoredOne asset
  return {
    content := stamp.content [held.ref] [⟨held.entity.payload, [holder.key], stamp.notary, none⟩]
      [.asset "Move" held.entity.participants] []
    observers := [holder.key]
    history := []
    attachments := [] }

/-- Consumes a held asset and produces nothing, signed by its participants. -/
def draftExit (n : Node) (stamp : Stamp) (asset : Located) : Except OperationError Proposal := do
  let held ← n.requireStoredOne asset
  return {
    content := stamp.content [held.ref] [] [.asset "Exit" held.entity.participants] []
    observers := []
    history := []
    attachments := [] }

end Node

end Custody
