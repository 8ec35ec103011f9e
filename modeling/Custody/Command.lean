import Custody.Wire

/-!
# Commands

A command says what a transaction does and which keys must sign for it. Asset commands are known by
a name that only the users of the asset interpret; the others belong to re-issuance.
-/

namespace Custody

/-- What a transaction may be said to do. -/
inductive CommandKind where
  | asset (name : String)
  | createRequest
  | acceptRequest
  | rejectRequest
  | createLock
  | deactivateLock
  | deleteLock
deriving DecidableEq

/-- The name of a kind as it appears in messages. -/
def CommandKind.text : CommandKind → String
  | asset name => "Asset(" ++ name ++ ")"
  | createRequest => "CreateRequest"
  | acceptRequest => "AcceptRequest"
  | rejectRequest => "RejectRequest"
  | createLock => "CreateLock"
  | deactivateLock => "DeactivateLock"
  | deleteLock => "DeleteLock"

instance : ToString CommandKind := ⟨CommandKind.text⟩

/-- A kind of command with the keys that must sign for it. -/
structure Command where
  kind : CommandKind
  signers : List PublicKey
deriving DecidableEq

namespace Command

/-- A command that names each signer once, in order of appearance. -/
def signedBy (kind : CommandKind) (signers : List PublicKey) : Command :=
  ⟨kind, signers.eraseDups⟩

/-- An asset command that names each signer once. -/
def asset (name : String) (signers : List PublicKey) : Command := signedBy (.asset name) signers

end Command

instance : Wire CommandKind where
  encode
    | .asset name => Wire.encodeVariant 0 ++ encode name
    | .createRequest => Wire.encodeVariant 1
    | .acceptRequest => Wire.encodeVariant 2
    | .rejectRequest => Wire.encodeVariant 3
    | .createLock => Wire.encodeVariant 4
    | .deactivateLock => Wire.encodeVariant 5
    | .deleteLock => Wire.encodeVariant 6
  read := do
    match ← Reader.variant 7 with
    | 0 => return .asset (← Wire.read)
    | 1 => return .createRequest
    | 2 => return .acceptRequest
    | 3 => return .rejectRequest
    | 4 => return .createLock
    | 5 => return .deactivateLock
    | _ => return .deleteLock

instance : Wire Command where
  encode c := encode c.kind ++ encode c.signers
  read := return ⟨← Wire.read, ← Wire.read⟩

end Custody
