import Custody.Transaction

/-!
# Messages

What two nodes say to each other in a session. The one who opens it speaks first, with a role flag,
and gets one reply to every message. A message travels as its wire form, which may not be longer
than `Message.maxSize`; both sides apply the same limit. What can go wrong on the way, up to a
refusal by the other side, is a `NetworkError`.
-/

namespace Custody

/-- A message of a session. -/
inductive Message where
  /-- Whether the receiver is asked to sign or only to record. -/
  | role (signer : Bool)
  /-- Transactions the receiver needs for what follows, sources first. -/
  | history (transactions : List Transaction)
  /-- Blobs that transactions refer to. -/
  | attachments (blobs : List Bytes)
  /-- Asks the receiver to check and sign. -/
  | signRequest (transaction : Transaction)
  /-- The endorsements asked for. -/
  | signatures (endorsements : List Endorsement)
  /-- The notarised transaction, to be recorded. -/
  | finalised (transaction : Transaction)
  /-- Agreement. -/
  | ack
  /-- Refusal. -/
  | rejected (reason : String)
deriving DecidableEq

/-- Why a message could not be sent or understood. -/
inductive MessageError where
  | malformed (reason : String)
  | tooLarge (size : Nat)
deriving DecidableEq

/-- The wording of a failure. -/
def MessageError.message : MessageError → String
  | malformed reason => s!"malformed message: {reason}"
  | tooLarge size => s!"message of {size} bytes exceeds the size limit"

namespace Message

/-- The name of a message's kind. -/
def kind : Message → String
  | role _ => "Role"
  | history _ => "History"
  | attachments _ => "Attachments"
  | signRequest _ => "SignRequest"
  | signatures _ => "Signatures"
  | finalised _ => "Finalised"
  | ack => "Ack"
  | rejected _ => "Rejected"

instance : Wire Message where
  encode
    | role signer => Wire.encodeVariant 0 ++ encode signer
    | history transactions => Wire.encodeVariant 1 ++ encode transactions
    | attachments blobs => Wire.encodeVariant 2 ++ encode blobs
    | signRequest transaction => Wire.encodeVariant 3 ++ encode transaction
    | signatures endorsements => Wire.encodeVariant 4 ++ encode endorsements
    | finalised transaction => Wire.encodeVariant 5 ++ encode transaction
    | ack => Wire.encodeVariant 6
    | rejected reason => Wire.encodeVariant 7 ++ encode reason
  read := do
    match ← Reader.variant 8 with
    | 0 => return .role (← Wire.read)
    | 1 => return .history (← Wire.read)
    | 2 => return .attachments (← Wire.read)
    | 3 => return .signRequest (← Wire.read)
    | 4 => return .signatures (← Wire.read)
    | 5 => return .finalised (← Wire.read)
    | 6 => return .ack
    | _ => return .rejected (← Wire.read)

/-- The most bytes a message may have: 16 MiB. -/
def maxSize : Nat := 16 * 1024 * 1024

/-- The bytes of a message, if there are not too many. -/
def toFrame (m : Message) : Except MessageError Bytes :=
  let bytes := encode m
  if bytes.length ≤ maxSize then .ok bytes else .error (.tooLarge maxSize)

/-- The message with these bytes. -/
def ofFrame (frame : Bytes) : Except MessageError Message :=
  if maxSize < frame.length then .error (.tooLarge frame.length)
  else (decode Message frame).mapError fun e ↦ .malformed e.message

end Message

/-! ### Failures of communication -/

/-- A failure to find, reach or understand a counterparty. -/
inductive NetworkError where
  | unknownIdentity (key : PublicKey)
  | peerNotFound (name : String)
  | keyNotOwned (key : PublicKey)
  | sessionClosed (name : String)
  | unexpectedMessage (party expected got : String)
  | rejected (party reason : String)
  | codec (error : MessageError)
deriving DecidableEq

/-- The wording of a failure. -/
def NetworkError.message : NetworkError → String
  | unknownIdentity key => s!"no well-known party for key {key}"
  | peerNotFound name => s!"party {name} is not reachable"
  | keyNotOwned key => s!"key {key} is not held by this node"
  | sessionClosed name => s!"session with {name} closed"
  | unexpectedMessage party expected got => s!"{party} sent {got}, expected {expected}"
  | rejected party reason => s!"{party} rejected the request: {reason}"
  | codec error => "codec error: " ++ error.message

/-- What a reply means where agreement is expected. -/
def Message.expectAck (party : String) : Message → Except NetworkError Unit
  | .ack => .ok ()
  | .rejected reason => .error (.rejected party reason)
  | other => .error (.unexpectedMessage party "Ack" other.kind)

end Custody
