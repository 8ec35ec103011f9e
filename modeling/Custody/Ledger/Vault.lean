import Std.Data.TreeMap
import Std.Data.TreeSet
import Custody.Entity

/-!
# The vault

The entities a node knows, with the marks of those that have been consumed. An entity is live while
it is known and bears no mark; marks may come before the entity, so the order in which transactions
arrive does not matter. Listings are in the order of references. An index leads from a reference to
the locks whose snapshot names it; it only grows, and liveness and status are looked up when it is
asked.
-/

namespace Custody

/-- The entities known to a node. -/
structure Vault where
  /-- Every entity ever put, by reference. -/
  entities : Std.TreeMap OutputRef Entity
  /-- What consumed a reference. -/
  consumed : Std.TreeMap OutputRef TransactionId
  /-- For each reference, those of the locks whose snapshot names it. -/
  lockIndex : Std.TreeMap OutputRef (Std.TreeSet OutputRef)

/-- Which assets a listing is about. -/
inductive EncumbranceFilter where
  | all
  | encumbered
  | unencumbered
deriving DecidableEq

/-- Whether an entity passes the filter. -/
def EncumbranceFilter.accepts : EncumbranceFilter → Entity → Bool
  | all, _ => true
  | encumbered, e => e.isEncumbered
  | unencumbered, e => !e.isEncumbered

namespace Vault

/-- Nothing known, nothing consumed. -/
def empty : Vault := ⟨∅, ∅, ∅⟩

/-- The index with a lock entered under each reference of its snapshot. -/
def indexLock (index : Std.TreeMap OutputRef (Std.TreeSet OutputRef)) (lockRef : OutputRef)
    (lock : Lock) : Std.TreeMap OutputRef (Std.TreeSet OutputRef) :=
  lock.snapshotRefs.foldl
    (fun index entry ↦ index.insert entry ((index.getD entry ∅).insert lockRef)) index

/-- Makes an entity known; a later entity under the same reference replaces an earlier one. -/
def put (v : Vault) (e : Located) : Vault :=
  { v with
    entities := v.entities.insert e.ref e.entity
    lockIndex :=
      match e.entity.lock? with
      | some lock => indexLock v.lockIndex e.ref lock
      | none => v.lockIndex }

/-- Marks a reference as consumed by a transaction. -/
def consume (v : Vault) (r : OutputRef) (consumer : TransactionId) : Vault :=
  { v with consumed := v.consumed.insert r consumer }

/-- What consumed a reference, as far as known. -/
def consumedBy? (v : Vault) (r : OutputRef) : Option TransactionId := v.consumed[r]?

/-- The live entity under a reference. -/
def live? (v : Vault) (r : OutputRef) : Option Located :=
  if r ∈ v.consumed then none else v.entities[r]?.map fun entity ↦ ⟨entity, r⟩

/-- The live entities, in the order of references. -/
def live (v : Vault) : List Located :=
  v.entities.toList.filterMap fun (r, entity) ↦
    if r ∈ v.consumed then none else some ⟨entity, r⟩

/-- The live assets of a kind that pass a filter. -/
def assets (v : Vault) (kind : String) (filter : EncumbranceFilter) : List Located :=
  v.live.filter fun e ↦
    (e.entity.asset?.any fun a ↦ a.kind == kind) && filter.accepts e.entity

/-- The live requests. -/
def requests (v : Vault) : List Located := v.live.filter (·.entity.request?.isSome)

/-- The live locks with a status. -/
def locks (v : Vault) (status : LockStatus) : List Located :=
  v.live.filter fun e ↦ e.entity.lock?.any fun l ↦ l.status == status

/-- The live locks that still hold their copies. -/
def activeLocks (v : Vault) : List Located := v.locks .active

/-- The live active locks whose snapshot names a reference, found through the index. -/
def locksGoverning (v : Vault) (entry : OutputRef) : List Located :=
  ((v.lockIndex.getD entry ∅).toList.filterMap v.live?).filter
    fun e ↦ e.entity.lock?.any Lock.isActive

end Vault

end Custody
