import Custody.Operation.Error
import Custody.Settings

/-!
# Nodes

A node speaks for one party. It holds keys, has recorded a ledger and keeps attachments. The checks
here look things up in the node's own state: what a caller hands in counts only where it agrees with
the vault.
-/

namespace Custody

/-- A node with what it holds. -/
structure Node where
  party : Party
  settings : NodeSettings
  keyring : Keyring
  ledger : Ledger
  attachments : Attachments

namespace Node

variable [Cryptosystem]

/-- A node that has recorded nothing, with an identity key and further keys. -/
def new (settings : NodeSettings) (identity : Seed) (further : List Seed) : Node where
  party := ⟨settings.legalName, Cryptosystem.publicKey identity⟩
  settings
  keyring := (identity :: further).foldl Keyring.add ∅
  ledger := .empty
  attachments := ∅

/-- The node with a transaction recorded. -/
def record (n : Node) (t : Transaction) : Node := { n with ledger := (n.ledger.record t).1 }

/-- Keeps a blob. -/
def attach (n : Node) (blob : Bytes) : Node := { n with attachments := n.attachments.add blob }

/-- Judges content by the rules. What its inputs stand for is read from the archive. -/
def judge (n : Node) (c : Content) : Except OperationError Unit := do
  let inputs ← (n.ledger.archive.resolveInputs c).mapError .ofLedger
  (Rules.check c inputs n.attachments).mapError .ofRule

omit [Cryptosystem]

/-- The live entity under a reference. -/
def requireLive (n : Node) (r : OutputRef) : Except OperationError Located :=
  match n.ledger.vault.live? r with
  | some e => .ok e
  | none => invalidArgument (.notLive r)

/-- The given entities, if all are live and none differs from what the vault holds. -/
def requireStored (n : Node) (given : List Located) : Except OperationError (List Located) := do
  let stored ← given.mapM fun e ↦ n.requireLive e.ref
  match (given.zip stored).find? fun (e, held) ↦ e.entity != held.entity with
  | some (e, _) => invalidArgument (.differsFromVault e.ref)
  | none => return stored

/-- As `requireStored`, for one entity. -/
def requireStoredOne (n : Node) (given : Located) : Except OperationError Located := do
  let held ← n.requireLive given.ref
  if given.entity ≠ held.entity then invalidArgument (.differsFromVault given.ref)
  return held

/-- A live and active lock whose requester is a key held here. -/
def requireOwnLock (n : Node) (given : Located) : Except OperationError (Located × Lock) := do
  let held ← n.requireStoredOne given
  let some lock := held.entity.lock? | invalidArgument .notALock
  if !lock.isActive then invalidArgument .lockInactive
  if !n.keyring.owns lock.requester then invalidArgument .foreignLock
  return (held, lock)

end Node

end Custody
