import Custody.Dialogue
import Custody.Ledger.Lineage
import Custody.Operation.Proposal

/-!
# Settlement

A proposal is settled in one pass. The keys held here endorse first. Everyone on the roster is told
its role and handed the attachments and everything the transaction rests on; signers then check and
endorse it. When only the notary's endorsement is missing the transaction is notarised and recorded,
and the result goes to everyone on the roster.
-/

namespace Custody

/-- What counterparties are handed before the transaction itself. -/
structure Handover where
  /-- Everything the transaction rests on, sources first. -/
  history : List Transaction
  /-- The blobs these transactions refer to. -/
  attachments : List Bytes

/-- An open session whose other end has been told its role. -/
structure OpenSession where
  line : Line
  role : SessionRole

namespace Node

variable [Cryptosystem]

/-- The lineage of the transaction and of the history to be shared, with every blob they refer to:
those to be shared first, then the others in the order of their mention. -/
def handover (n : Node) (t : Transaction) (p : Proposal) : Except OperationError Handover := do
  let roots := (Std.TreeSet.ofList (p.history.map Transaction.id ++ t.sources) compare).toList
  let history ← (n.ledger.archive.lineage roots).mapError .ofLedger
  let shared := p.attachments.map AttachmentId.ofBlob
  let mentioned := ((history ++ [t]).flatMap (·.content.attachments)).eraseDups
  let others ← (mentioned.filter (!shared.contains ·)).mapM fun id ↦
    (n.attachments.fetch id).mapError .store
  return ⟨history, p.attachments ++ others⟩

/-- The keys other than the notary's that must endorse a content. -/
def signersOf (c : Content) : List PublicKey := c.requiredKeys.filter (· != c.notary.key)

/-- A proposed transaction with the endorsements of the keys held here. -/
def endorseOwn (n : Node) (c : Content) (heldKeys : List PublicKey) :
    Except OperationError Transaction := do
  let t := Transaction.ofContent c
  let endorsements ← heldKeys.mapM fun key ↦ (n.keyring.endorse key t.id).mapError .ofNetwork
  return t.endorseAll endorsements

end Node

namespace Settling

variable [Cryptosystem]

omit [Cryptosystem] in
/-- Opens a session with everyone on a roster, and tells each its role. -/
def openSessions (roster : Roster) : Settling (List OpenSession) :=
  roster.counterparties.zipIdx.mapM fun ((party, role), number) ↦ do
    openSession party
    askForAck ⟨number, party⟩ (.role role.flag)
    return ⟨⟨number, party⟩, role⟩

/-- The endorsements a signer returned must be by required keys and valid. -/
def acceptEndorsements (required : List PublicKey) (party : Party) (t : Transaction)
    (endorsements : List Endorsement) : Except OperationError Transaction :=
  if endorsements.all fun e ↦ required.contains e.signer && e.isValidFor t.id then
    .ok (t.endorseAll endorsements)
  else .error (.verificationFailed s!"{party} returned an invalid signature")

/-- Asks a signer for its endorsements. -/
def collect (required : List PublicKey) (t : Transaction) (s : OpenSession) :
    Settling Transaction := do
  let party := s.line.party
  match ← ask s.line (.signRequest t) with
  | .signatures endorsements => lift (acceptEndorsements required party t endorsements)
  | .rejected reason => throw (.ofNetwork (.rejected party.name reason))
  | other => throw (.ofNetwork (.unexpectedMessage party.name "Signatures" other.kind))

/-- Hands a counterparty what it needs and, if it is a signer, asks for its endorsements. -/
def consult (required : List PublicKey) (given : Handover) (t : Transaction) (s : OpenSession) :
    Settling Transaction := do
  if !given.attachments.isEmpty then askForAck s.line (.attachments given.attachments)
  if !given.history.isEmpty then askForAck s.line (.history given.history)
  match s.role with
  | .signer => collect required t s
  | .observer => return t

/-- Settles a proposal of a node: the notarised transaction, or why there is none. -/
def settle (directory : Directory) (n : Node) (p : Proposal) : Settling Transaction := do
  let required := Node.signersOf p.content
  let roster ← lift <|
    (Roster.build directory n.keyring n.party required p.observers).mapError .ofNetwork
  let endorsed ← lift (n.endorseOwn p.content roster.heldKeys)
  let given ← lift (n.handover endorsed p)
  let sessions ← openSessions roster
  let t ← sessions.foldlM (consult required given) endorsed
  lift ((t.checkSignaturesExcept [p.content.notary.key]).mapError .ofTransaction)
  let final ← finalise t
  sessions.forM fun s ↦ askForAck s.line (.finalised final)
  return final

end Settling

end Custody
