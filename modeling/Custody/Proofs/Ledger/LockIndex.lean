import Custody.Proofs.Ledger.Recorded

/-!
# The index and the scan

Which locks govern a reference is looked up in an index, which is only ever added to; whether such a
lock is live and active is asked when it is found. The answer is that of going through all active
locks for those whose snapshot names the reference, in the same order, whatever was put and consumed
before and in whatever order. The index remembers every snapshot that was ever put, so it takes that
nothing else is put under the reference of a lock.
-/

namespace Custody.Vault

variable {v : Vault} {e : Located} {r lockRef : OutputRef}

/-! ### Looking up and going through -/

theorem mem_activeLocks_iff :
    e ∈ v.activeLocks ↔ v.live? e.ref = some e ∧
      ∃ lock, e.entity.lock? = some lock ∧ lock.isActive = true := by
  unfold activeLocks locks Lock.isActive
  rw [List.mem_filter, mem_live_iff]
  simp only [Option.any_eq_true]

/-- In any vault, what is found is those of the active locks that the index leads to. -/
theorem locksGoverning_eq_filter :
    v.locksGoverning r = v.activeLocks.filter fun e ↦ e.ref ∈ v.lockIndex.getD r ∅ := by
  refine Located.eq_of_ordered pairwise_locksGoverning ((pairwise_live.filter _).filter _) ?_
  intro e
  rw [mem_locksGoverning_iff, List.mem_filter, mem_activeLocks_iff, decide_eq_true_iff, and_comm]
  rfl

/-! ### Changes -/

/-- A change of a vault. -/
inductive Change where
  | put (e : Located)
  | consume (r : OutputRef) (consumer : TransactionId)

def change (v : Vault) : Change → Vault
  | .put e => v.put e
  | .consume r consumer => v.consume r consumer

/-- The vault after some changes, first to last, from nothing. -/
def changed (cs : List Change) : Vault := cs.foldl change empty

/-- What a vault knows, holds for consumed and has indexed is what some changes put and
consumed. -/
structure Follows (cs : List Change) (v : Vault) : Prop where
  put_mem : ∀ e, v.entities[e.ref]? = some e.entity → .put e ∈ cs
  isKnown : ∀ e, .put e ∈ cs → v.entities[e.ref]?.isSome = true
  isSome_consumedBy?_iff : ∀ r,
    (v.consumedBy? r).isSome = true ↔ ∃ consumer, .consume r consumer ∈ cs
  indexes_iff : ∀ r lockRef,
    v.Indexes r lockRef ↔ ∃ e, .put e ∈ cs ∧ e.ref = lockRef ∧ Names e r

variable {cs : List Change}

theorem follows_empty : Follows [] empty := by
  have hentities : ∀ r : OutputRef, empty.entities[r]? = none := fun _ ↦ Std.TreeMap.getElem?_emptyc
  have hconsumed : ∀ r : OutputRef, empty.consumed[r]? = none := fun _ ↦ Std.TreeMap.getElem?_emptyc
  have hindex : ∀ r : OutputRef, empty.lockIndex.getD r ∅ = ∅ := fun _ ↦ Std.TreeMap.getD_emptyc
  refine ⟨?_, fun _ h ↦ absurd h List.not_mem_nil, ?_, ?_⟩
  · intro e h
    rw [hentities] at h
    cases h
  · intro r
    simp [consumedBy?, hconsumed]
  · intro r lockRef
    simp [Indexes, hindex]

theorem Follows.put (h : Follows cs v) (e : Located) : Follows (cs ++ [.put e]) (v.put e) := by
  have hentities : ∀ r, (v.put e).entities[r]? = if e.ref = r then some e.entity else
      v.entities[r]? := by
    intro r
    unfold Vault.put
    rw [Std.TreeMap.getElem?_insert]
    simp only [Std.LawfulEqCmp.compare_eq_iff_eq]
  refine ⟨?_, ?_, ?_, ?_⟩
  · intro other hother
    rw [hentities] at hother
    split at hother
    · rename_i hsame
      have heq : e = other := Located.eq_of_eq (Option.some.inj hother) hsame
      exact List.mem_append_right _ (heq ▸ List.mem_cons_self)
    · exact List.mem_append_left _ (h.put_mem other hother)
  · intro other hother
    rw [hentities]
    split
    · rfl
    · rename_i hne
      rcases List.mem_append.mp hother with hold | hnew
      · exact h.isKnown other hold
      · obtain rfl := Change.put.inj (List.mem_singleton.mp hnew)
        exact absurd rfl hne
  · intro r
    simpa [consumedBy?, Vault.put] using h.isSome_consumedBy?_iff r
  · intro r lockRef
    rw [indexes_put_iff, h.indexes_iff]
    simp only [List.mem_append, List.mem_singleton, Change.put.injEq, or_and_right, exists_or,
      exists_eq_left]
    exact or_comm

theorem Follows.consume (h : Follows cs v) (r : OutputRef) (consumer : TransactionId) :
    Follows (cs ++ [.consume r consumer]) (v.consume r consumer) := by
  refine ⟨?_, ?_, ?_, ?_⟩
  · exact fun e he ↦ List.mem_append_left _ (h.put_mem e he)
  · intro e he
    rcases List.mem_append.mp he with hold | hnew
    · exact h.isKnown e hold
    · cases List.mem_singleton.mp hnew
  · intro other
    have hold := h.isSome_consumedBy?_iff other
    unfold consumedBy? at hold ⊢
    unfold Vault.consume
    rw [Std.TreeMap.getElem?_insert]
    by_cases hsame : r = other
    · simp [hsame]
    · rw [if_neg (mt Std.LawfulEqOrd.eq_of_compare hsame), hold]
      simp [Ne.symm hsame]
  · intro entry lockRef
    simpa [Indexes, Vault.consume] using h.indexes_iff entry lockRef

/-- Every change is followed. -/
theorem Follows.change (h : Follows cs v) (c : Change) : Follows (cs ++ [c]) (v.change c) := by
  cases c with
  | put e => exact h.put e
  | consume r consumer => exact h.consume r consumer

theorem follows_changed : Follows cs (changed cs) := by
  induction cs using List.reverseRecOn with
  | nil => exact follows_empty
  | append_singleton cs c ih =>
    rw [changed, List.foldl_append]
    exact ih.change c

/-! ### The index agrees with the scan -/

/-- Whatever the changes were, no active lock over a reference is missed. -/
theorem Follows.mem_locksGoverning (h : Follows cs v) (hmem : e ∈ v.activeLocks)
    (hnames : Names e r) : e ∈ v.locksGoverning r := by
  obtain ⟨hlive, hactive⟩ := mem_activeLocks_iff.mp hmem
  have hput := h.put_mem e (live?_eq_some_iff.mp hlive).2.1
  exact mem_locksGoverning_iff.mpr
    ⟨(h.indexes_iff r e.ref).mpr ⟨e, hput, rfl, hnames⟩, hlive, hactive⟩

/-- Nothing is put under the reference of something else. -/
def Consistent (cs : List Change) : Prop :=
  ∀ e e' : Located, .put e ∈ cs → .put e' ∈ cs → e.ref = e'.ref → e = e'

namespace Follows

theorem entities_eq_some_iff (h : Follows cs v) (hconsistent : Consistent cs) :
    v.entities[e.ref]? = some e.entity ↔ .put e ∈ cs := by
  constructor
  · exact h.put_mem e
  · intro hput
    obtain ⟨entity, hentity⟩ := Option.isSome_iff_exists.mp (h.isKnown e hput)
    have hsame := hconsistent ⟨entity, e.ref⟩ e (h.put_mem ⟨entity, e.ref⟩ hentity) hput rfl
    rwa [← hsame]

/-- What is live was put and not consumed. -/
theorem live?_eq_some_iff (h : Follows cs v) (hconsistent : Consistent cs) :
    v.live? e.ref = some e ↔ .put e ∈ cs ∧ ∀ consumer, .consume e.ref consumer ∉ cs := by
  rw [Vault.live?_eq_some_iff, h.entities_eq_some_iff hconsistent, ← not_exists,
    ← h.isSome_consumedBy?_iff, Option.not_isSome_iff_eq_none, and_comm,
    eq_self_iff_true, and_true]

/-- The index leads from a reference to what was put only if that names the reference. -/
theorem indexes_iff_names (h : Follows cs v) (hconsistent : Consistent cs) (hput : .put e ∈ cs) :
    v.Indexes r e.ref ↔ Names e r := by
  rw [h.indexes_iff]
  constructor
  · rintro ⟨e', hput', hsame, hnames⟩
    rwa [← hconsistent e' e hput' hput hsame]
  · exact fun hnames ↦ ⟨e, hput, rfl, hnames⟩

end Follows

/-- Whatever was put and consumed, in whatever order and however often, the index gives the list
that going through all active locks gives: those that were put and never consumed, and whose
snapshot names the reference. -/
theorem locksGoverning_eq_scan (hconsistent : Consistent cs) (r : OutputRef) :
    (changed cs).locksGoverning r =
        (changed cs).activeLocks.filter (fun e ↦ e.entity.lock?.any (·.governs r)) ∧
      ∀ e, e ∈ (changed cs).locksGoverning r ↔
        .put e ∈ cs ∧ (∀ consumer, .consume e.ref consumer ∉ cs) ∧
          ∃ lock, e.entity.lock? = some lock ∧ lock.isActive = true ∧ r ∈ lock.snapshotRefs := by
  have hfollows : Follows cs (changed cs) := follows_changed
  constructor
  · rw [locksGoverning_eq_filter]
    apply List.filter_congr
    intro e he
    have hlive := (mem_activeLocks_iff.mp he).1
    have hput := ((hfollows.live?_eq_some_iff hconsistent).mp hlive).1
    have hindexes := @Follows.indexes_iff_names _ e r cs hfollows hconsistent hput
    rw [Bool.eq_iff_iff, decide_eq_true_iff]
    simpa [Indexes, Names, Option.any_eq_true, Lock.governs] using hindexes
  · intro e
    rw [mem_locksGoverning_iff, hfollows.live?_eq_some_iff hconsistent]
    constructor
    · rintro ⟨hindexes, ⟨hput, hfree⟩, lock, hlock, hactive⟩
      obtain ⟨lock', hlock', hr⟩ := (hfollows.indexes_iff_names hconsistent hput).mp hindexes
      obtain rfl := Option.some.inj (hlock.symm.trans hlock')
      exact ⟨hput, hfree, lock, hlock, hactive, hr⟩
    · rintro ⟨hput, hfree, lock, hlock, hactive, hr⟩
      exact ⟨(hfollows.indexes_iff_names hconsistent hput).mpr ⟨lock, hlock, hr⟩, ⟨hput, hfree⟩,
        lock, hlock, hactive⟩

/-! ### Locks over the same entities -/

namespace Overlapping

open ExitProof.Pair
open Trial (key notary)

/-- Output number `index` of the transaction with some id, holding a lock. -/
def locked (index : UInt32) (snapshot : List Located) (status : LockStatus) : Located :=
  ⟨⟨.lock ⟨⟨"Issuer", key 1⟩, key 2, snapshot, status, []⟩, [key 1, key 2], notary, none⟩,
    ⟨⟨.replicate 32 4⟩, index⟩⟩

/-- Its snapshot names the first entity twice. -/
def held : Located := locked 2 [first, second, first] .active

def gone : Located := locked 1 [first] .active

def idle : Located := locked 0 [first] .inactive

/-- One lock is consumed before it is put, and another is put twice. -/
def changes : List Change :=
  [.consume gone.ref ⟨.replicate 32 5⟩, .put held, .put gone, .put first, .put idle, .put held]

theorem consistent_changes : Consistent changes := by
  intro e e' h h'
  simp only [changes, List.mem_cons, List.not_mem_nil, reduceCtorEq, Change.put.injEq, false_or,
    or_false] at h h'
  rcases h with rfl | rfl | rfl | rfl | rfl <;> rcases h' with rfl | rfl | rfl | rfl | rfl
  all_goals decide +kernel

/-- With another lock put under the reference of the first, the index leads from an entity that no
snapshot names any more. -/
example : (changed [.put held, .put ⟨gone.entity, held.ref⟩]).locksGoverning second.ref ≠
    (changed [.put held, .put ⟨gone.entity, held.ref⟩]).activeLocks.filter
      fun e ↦ e.entity.lock?.any (·.governs second.ref) := by
  decide +kernel

end Overlapping

open Overlapping ExitProof.Pair in
theorem locksGoverning_changes :
    Consistent changes ∧ (changed changes).locksGoverning first.ref = [held] := by
  have hconsistent : Consistent changes := consistent_changes
  refine ⟨hconsistent, ?_⟩
  rw [(locksGoverning_eq_scan hconsistent first.ref).1]
  decide +kernel

end Custody.Vault
