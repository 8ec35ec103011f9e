import Custody.Identifier

/-!
# Entities

What transactions produce and consume. An entity carries an asset, a request to have assets
re-issued, or a lock over re-issued copies; it names the keys that take part in it and the notary
that decides about its consumption. An encumbered entity can only be consumed together with the
sibling output it points at. A lock keeps a snapshot of the entities that its copies stand for, so
entities nest.
-/

namespace Custody

/-- A holding of some kind, described by bytes that only its users interpret. -/
structure Asset where
  kind : String
  data : Bytes
deriving DecidableEq

/-- A holder's wish that the issuer creates the named entities anew. -/
structure Request where
  issuer : Party
  requester : PublicKey
  /-- What is to be re-issued. -/
  entities : List OutputRef
  /-- The asset command under which the issuer re-creates them. -/
  issuanceCommand : String
  /-- Who signs the issuance besides the issuer and the requester. -/
  extraSigners : List PublicKey
deriving DecidableEq

/-- Whether a lock still holds its copies. -/
inductive LockStatus where
  | active
  | inactive
deriving DecidableEq, Repr

mutual

/-- A unit of ledger state. -/
structure Entity where
  payload : Payload
  participants : List PublicKey
  notary : Party
  /-- The position of the sibling output that must be consumed alongside. -/
  encumbrance : Option UInt32

/-- What an entity carries. -/
inductive Payload where
  | asset (asset : Asset)
  | request (request : Request)
  | lock (lock : Lock)

/-- An entity together with the reference it is found under. -/
structure Located where
  entity : Entity
  ref : OutputRef

/-- The custody over re-issued copies: while active, they can only be consumed together with it. -/
structure Lock where
  issuer : Party
  requester : PublicKey
  /-- The entities that the copies stand for, as they were, with their references. -/
  snapshot : List Located
  status : LockStatus
  /-- Who signs the release besides the requester. -/
  unlockSigners : List PublicKey

end

namespace Payload

/-- The asset, if the payload is one. -/
def asset? : Payload → Option Asset
  | .asset a => some a
  | _ => none

/-- The request, if the payload is one. -/
def request? : Payload → Option Request
  | .request r => some r
  | _ => none

/-- The lock, if the payload is one. -/
def lock? : Payload → Option Lock
  | .lock l => some l
  | _ => none

/-- Whether the payload is an asset. -/
def isAsset (p : Payload) : Bool := p.asset?.isSome

end Payload

namespace Entity

/-- The asset the entity carries, if it does. -/
def asset? (e : Entity) : Option Asset := e.payload.asset?

/-- The request the entity carries, if it does. -/
def request? (e : Entity) : Option Request := e.payload.request?

/-- The lock the entity carries, if it does. -/
def lock? (e : Entity) : Option Lock := e.payload.lock?

/-- Whether the entity can only be consumed together with another output. -/
def isEncumbered (e : Entity) : Bool := e.encumbrance.isSome

end Entity

namespace Lock

/-- Whether the lock still holds its copies. -/
def isActive (l : Lock) : Bool := l.status == .active

/-- The references in the snapshot, in order. -/
def snapshotRefs (l : Lock) : List OutputRef := l.snapshot.map Located.ref

/-- Whether the entity under a reference is in the snapshot. -/
def governs (l : Lock) (r : OutputRef) : Bool := l.snapshotRefs.contains r

/-- The same lock, no longer active. -/
def deactivated (l : Lock) : Lock := { l with status := .inactive }

end Lock

/-- Every key that takes part in some of the entities, each once, in order of appearance. -/
def participantsOf (entities : List Entity) : List PublicKey :=
  (entities.flatMap Entity.participants).eraseDups

/-! ### Equality -/

mutual

/-- Equality of entities is decided field by field. -/
def Entity.decEq : (a b : Entity) → Decidable (a = b)
  | ⟨p, ks, n, e⟩, ⟨p', ks', n', e'⟩ =>
    match Payload.decEq p p', decEq ks ks', decEq n n', decEq e e' with
    | isTrue hp, isTrue hk, isTrue hn, isTrue he => isTrue (by rw [hp, hk, hn, he])
    | isFalse h, _, _, _ => isFalse fun heq ↦ h (Entity.mk.inj heq).1
    | _, isFalse h, _, _ => isFalse fun heq ↦ h (Entity.mk.inj heq).2.1
    | _, _, isFalse h, _ => isFalse fun heq ↦ h (Entity.mk.inj heq).2.2.1
    | _, _, _, isFalse h => isFalse fun heq ↦ h (Entity.mk.inj heq).2.2.2

/-- Equality of payloads is decided variant by variant. -/
def Payload.decEq : (a b : Payload) → Decidable (a = b)
  | .asset a, .asset b =>
    match decEq a b with
    | isTrue h => isTrue (congrArg _ h)
    | isFalse h => isFalse fun heq ↦ h (Payload.asset.inj heq)
  | .request a, .request b =>
    match decEq a b with
    | isTrue h => isTrue (congrArg _ h)
    | isFalse h => isFalse fun heq ↦ h (Payload.request.inj heq)
  | .lock a, .lock b =>
    match Lock.decEq a b with
    | isTrue h => isTrue (congrArg _ h)
    | isFalse h => isFalse fun heq ↦ h (Payload.lock.inj heq)
  | .asset _, .request _ | .asset _, .lock _ | .request _, .asset _ | .request _, .lock _
  | .lock _, .asset _ | .lock _, .request _ => isFalse nofun

/-- Equality of located entities is decided field by field. -/
def Located.decEq : (a b : Located) → Decidable (a = b)
  | ⟨e, r⟩, ⟨e', r'⟩ =>
    match Entity.decEq e e', decEq r r' with
    | isTrue he, isTrue hr => isTrue (by rw [he, hr])
    | isFalse h, _ => isFalse fun heq ↦ h (Located.mk.inj heq).1
    | _, isFalse h => isFalse fun heq ↦ h (Located.mk.inj heq).2

/-- Equality of snapshots is decided entry by entry. -/
def Located.decEqList : (a b : List Located) → Decidable (a = b)
  | [], [] => isTrue rfl
  | a :: as, b :: bs =>
    match Located.decEq a b, Located.decEqList as bs with
    | isTrue ha, isTrue has => isTrue (by rw [ha, has])
    | isFalse h, _ => isFalse fun heq ↦ h (List.cons.inj heq).1
    | _, isFalse h => isFalse fun heq ↦ h (List.cons.inj heq).2
  | [], _ :: _ | _ :: _, [] => isFalse nofun

/-- Equality of locks is decided field by field. -/
def Lock.decEq : (a b : Lock) → Decidable (a = b)
  | ⟨i, r, os, s, us⟩, ⟨i', r', os', s', us'⟩ =>
    match decEq i i', decEq r r', Located.decEqList os os', decEq s s', decEq us us' with
    | isTrue hi, isTrue hr, isTrue ho, isTrue hs, isTrue hu =>
      isTrue (by rw [hi, hr, ho, hs, hu])
    | isFalse h, _, _, _, _ => isFalse fun heq ↦ h (Lock.mk.inj heq).1
    | _, isFalse h, _, _, _ => isFalse fun heq ↦ h (Lock.mk.inj heq).2.1
    | _, _, isFalse h, _, _ => isFalse fun heq ↦ h (Lock.mk.inj heq).2.2.1
    | _, _, _, isFalse h, _ => isFalse fun heq ↦ h (Lock.mk.inj heq).2.2.2.1
    | _, _, _, _, isFalse h => isFalse fun heq ↦ h (Lock.mk.inj heq).2.2.2.2

end

instance : DecidableEq Entity := Entity.decEq
instance : DecidableEq Payload := Payload.decEq
instance : DecidableEq Located := Located.decEq
instance : DecidableEq Lock := Lock.decEq

end Custody
