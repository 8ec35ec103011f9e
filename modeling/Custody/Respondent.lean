import Custody.Node
import Custody.Session.Message

/-!
# The answering side of a session

A node answers sessions that others open. The first message must be the role flag. After that it
keeps the blobs it is sent, records finalised transactions that obey the rules, and signs if it is
asked as a signer; what it records finally ends the session. Until then every message that is
understood gets one reply, unless that is too long for a frame: then the session ends without it.
-/

namespace Custody

/-- Where a session stands, as the answering side sees it. -/
inductive Phase where
  | awaitingRole
  | serving (role : SessionRole)
  | ended
deriving DecidableEq, Repr

namespace Node

variable [Cryptosystem]

/-- All required keys have validly endorsed the transaction, and so has its notary. -/
def requireFinalised (t : Transaction) : Except OperationError Unit := do
  t.checkSignatures.mapError .ofTransaction
  if !t.isNotarisedBy t.content.notary then
    throw (.verificationFailed s!"{t.id} is not notarised")

/-- Records a finalised transaction that obeys the rules; one that is held is left as it is. -/
def receive (n : Node) (t : Transaction) : Except OperationError Node := do
  requireFinalised t
  if t.id ∈ n.ledger.archive then return n
  n.judge t.content
  return n.record t

/-- Records transactions one after the other, up to the first that is refused. -/
def receiveAll (n : Node) : List Transaction → Node × Except OperationError Unit
  | [] => (n, .ok ())
  | t :: ts =>
    match n.receive t with
    | .ok n => n.receiveAll ts
    | .error e => (n, .error e)

/-- The endorsements of this node under a transaction that obeys the rules: one for every required
key that is held here. -/
def endorsementsFor (n : Node) (t : Transaction) : Except OperationError (List Endorsement) := do
  t.checkId.mapError .ofTransaction
  n.judge t.content
  let endorsements ← (t.content.requiredKeys.filter n.keyring.owns).mapM fun key ↦
    (n.keyring.endorse key t.id).mapError .ofNetwork
  if endorsements.isEmpty then invalidArgument .nothingToSign
  return endorsements

end Node

/-- Agreement, or refusal with the reason. -/
def Message.ofOutcome : Except OperationError Unit → Message
  | .ok () => .ack
  | .error e => .rejected e.message

namespace Node

variable [Cryptosystem]

/-- Answers a message in a session with a role: the state afterwards, whether the session goes on,
and the reply. -/
def serve (n : Node) (role : SessionRole) (m : Message) : Node × Phase × Message :=
  match m with
  | .history ts =>
    let (n, outcome) := n.receiveAll ts
    (n, .serving role, .ofOutcome outcome)
  | .attachments blobs =>
    ({ n with attachments := n.attachments.addAll blobs }, .serving role, .ack)
  | .signRequest t =>
    match role with
    | .observer => (n, .serving role, .rejected "not a required signer")
    | .signer =>
      match n.endorsementsFor t with
      | .ok endorsements => (n, .serving role, .signatures endorsements)
      | .error e => (n, .serving role, .rejected e.message)
  | .finalised t =>
    match n.receive t with
    | .ok n => (n, .ended, .ack)
    | .error e => (n, .ended, .rejected e.message)
  | other => (n, .serving role, .rejected ("unexpected " ++ other.kind))

/-- Answers a message, if the session has not ended. -/
def respond (n : Node) (phase : Phase) (m : Message) : Node × Phase × Option Message :=
  match phase, m with
  | .awaitingRole, .role signer => (n, .serving (.ofFlag signer), some .ack)
  | .awaitingRole, _ => (n, .ended, some (.rejected "expected a role flag"))
  | .serving role, m =>
    let (n, phase, reply) := n.serve role m
    (n, phase, some reply)
  | .ended, _ => (n, .ended, none)

/-- Answers a frame. A frame that is not understood, or a reply that is too long, ends the session
without a reply. -/
def respondToFrame (n : Node) (phase : Phase) (frame : Bytes) : Node × Phase × Option Bytes :=
  match Message.ofFrame frame with
  | .error _ => (n, .ended, none)
  | .ok m =>
    match n.respond phase m with
    | (n, phase, none) => (n, phase, none)
    | (n, phase, some reply) =>
      match reply.toFrame with
      | .ok frame => (n, phase, some frame)
      | .error _ => (n, .ended, none)

end Node

end Custody
