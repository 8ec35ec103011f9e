import Custody.Proofs.Rules.AtomicCustody

/-!
# Where locks come from

A lock is an output of two steps only. Re-issuing ends in an active lock over its copies, and
unlocking ends in the lock that it consumed, made inactive. What unlocking releases before that is
never a lock: the copies consumed are as many as the snapshot has entries and stand at different
positions in it, so every entry has the payload of a copy, and no copy is a lock.
-/

namespace Custody

namespace Entity

variable {e : Entity}

/-- An asset is no lock. -/
theorem isAsset_eq_false_of_lock? {lock : Lock} (h : e.lock? = some lock) :
    e.payload.isAsset = false := by
  rw [lock?_eq_some_iff.mp h]
  rfl

end Entity

namespace Rules

open Outcome

variable {c : Content} {inputs : List Located}

/-! ### The copies under a consumed lock -/

namespace ConsumesLock

variable {lockRef : OutputRef} {lock : Lock} {input : Located}

theorem index_lt (h : ConsumesLock inputs lockRef lock) (hmem : input ∈ inputs)
    (hcopy : input.ref ≠ lockRef) : input.ref.index.toNat < lock.snapshot.length := by
  obtain ⟨entry, hentry, -⟩ := h.payload_eq input hmem hcopy
  exact (List.getElem?_eq_some_iff.mp hentry).1

theorem transaction_eq (h : ConsumesLock inputs lockRef lock) (hmem : input ∈ inputs)
    (hcopy : input.ref ≠ lockRef) : input.ref.transaction = lockRef.transaction :=
  (isGoverned_eq_true_iff.mp (h.isGoverned input hmem hcopy)).1

/-- The positions of the copies are pairwise different, since their references are and they come
from one transaction. -/
theorem nodup_positions (h : ConsumesLock inputs lockRef lock)
    (hnodup : (inputs.map Located.ref).Nodup) :
    ((inputs.filter (·.ref != lockRef)).map fun copy ↦ copy.ref.index.toNat).Nodup := by
  apply List.Nodup.map_on
  · intro copy hcopy other hother hindex
    rw [List.mem_filter, bne_iff_ne] at hcopy hother
    apply List.inj_on_of_nodup_map hnodup hcopy.1 hother.1
    have htransaction : copy.ref.transaction = other.ref.transaction :=
      calc
        copy.ref.transaction = lockRef.transaction := h.transaction_eq hcopy.1 hcopy.2
        _ = other.ref.transaction := (h.transaction_eq hother.1 hother.2).symm
    exact OutputRef.mk.injEq .. ▸ ⟨htransaction, UInt32.toNat_inj.mp hindex⟩
  · exact (List.Nodup.of_map _ hnodup).filter _

/-- The positions of the copies are those of the snapshot: there are as many of both. -/
theorem positions_perm (h : ConsumesLock inputs lockRef lock)
    (hnodup : (inputs.map Located.ref).Nodup) :
    ((inputs.filter (·.ref != lockRef)).map fun copy ↦ copy.ref.index.toNat).Perm
      (List.range lock.snapshot.length) := by
  have hsubset : ((inputs.filter (·.ref != lockRef)).map fun copy ↦ copy.ref.index.toNat) ⊆
      List.range lock.snapshot.length := by
    intro index hindex
    obtain ⟨copy, hcopy, rfl⟩ := List.mem_map.mp hindex
    rw [List.mem_filter, bne_iff_ne] at hcopy
    exact List.mem_range.mpr (h.index_lt hcopy.1 hcopy.2)
  have hlength : (List.range lock.snapshot.length).length ≤
      ((inputs.filter (·.ref != lockRef)).map fun copy ↦ copy.ref.index.toNat).length := by
    rw [List.length_range, List.length_map]
    exact Nat.le_of_eq h.count_eq.symm
  exact ((h.nodup_positions hnodup).subperm hsubset).perm_of_length_le hlength

/-- Every position of the snapshot is that of a copy. -/
theorem exists_copy (h : ConsumesLock inputs lockRef lock)
    (hnodup : (inputs.map Located.ref).Nodup) {position : Nat}
    (hposition : position < lock.snapshot.length) :
    ∃ copy ∈ inputs, copy.ref ≠ lockRef ∧ copy.ref.index.toNat = position := by
  have hmem := (h.positions_perm hnodup).mem_iff.mpr (List.mem_range.mpr hposition)
  obtain ⟨copy, hcopy, hindex⟩ := List.mem_map.mp hmem
  rw [List.mem_filter, bne_iff_ne] at hcopy
  exact ⟨copy, hcopy.1, hcopy.2, hindex⟩

/-- A consumed lock governs no lock. -/
theorem lock?_eq_none (h : ConsumesLock inputs lockRef lock)
    (hnodup : (inputs.map Located.ref).Nodup) {entry : Located} (hentry : entry ∈ lock.snapshot) :
    entry.entity.lock? = none := by
  obtain ⟨position, hposition, hget⟩ := List.getElem_of_mem hentry
  obtain ⟨copy, hmem, hcopy, hindex⟩ := h.exists_copy hnodup hposition
  obtain ⟨found, hfound, hpayload⟩ := h.payload_eq copy hmem hcopy
  rw [hindex, List.getElem?_eq_getElem hposition, Option.some.injEq, hget] at hfound
  rw [Option.eq_none_iff_forall_ne_some]
  intro other hother
  rw [hfound, Entity.lock?_eq_some_iff, hpayload, ← Entity.lock?_eq_some_iff] at hother
  exact hcopy (h.eq_of_mem hmem hother).1

end ConsumesLock

/-! ### Lock outputs -/

theorem getElem?_concat_cases {α : Type} {xs : List α} {last x : α} {index : Nat}
    (h : (xs ++ [last])[index]? = some x) :
    (index = xs.length ∧ last = x) ∨ xs[index]? = some x := by
  rw [List.getElem?_append] at h
  split at h
  · exact .inr h
  · obtain ⟨hzero, hlast⟩ := List.getElem?_eq_some_iff.mp h
    rw [List.length_singleton] at hzero
    rw [List.getElem_singleton] at hlast
    exact .inl ⟨by omega, hlast⟩

variable {e : Entity} {lock : Lock} {index : Nat}

theorem Reissues.eq_of_lock? {request : Request} {copies : List Entity} {lockEntity : Entity}
    {held : Lock} (h : Reissues c request copies lockEntity held)
    (houtput : c.outputs[index]? = some e) (hlock : e.lock? = some lock) :
    index = copies.length ∧ lockEntity = e := by
  rw [h.outputs_eq] at houtput
  rcases getElem?_concat_cases houtput with hlast | hcopy
  · exact hlast
  · obtain ⟨_, hentry⟩ := h.exists_isCopy (List.mem_of_getElem? hcopy)
    have hasset := hentry.isAsset
    rw [Entity.isAsset_eq_false_of_lock? hlock] at hasset
    cases hasset

theorem Unlocks.eq_of_lock? {lockRef : OutputRef} {consumed : Lock} {released : List Entity}
    {lockOutput : Entity} (h : Unlocks c consumed released lockOutput)
    (hconsumes : ConsumesLock inputs lockRef consumed) (hnodup : (inputs.map Located.ref).Nodup)
    (houtput : c.outputs[index]? = some e) (hlock : e.lock? = some lock) :
    index = released.length ∧ lockOutput = e := by
  rw [h.outputs_eq] at houtput
  rcases getElem?_concat_cases houtput with hlast | hreleased
  · exact hlast
  · obtain ⟨entry, hentry, hsame⟩ :=
      Outcome.exists_of_mem_left h.isReleased (List.mem_of_getElem? hreleased)
    have hnone := hconsumes.lock?_eq_none hnodup hentry
    rw [Entity.lock?_eq_some_iff, hsame.payload_eq, ← Entity.lock?_eq_some_iff, hnone] at hlock
    cases hlock

/-- An accepted transaction with a lock among its outputs re-issues, and the lock is the new one
behind the copies, or unlocks, and the lock is the consumed one, made inactive, behind what is
released. -/
theorem reissues_or_unlocks_of_check [Cryptosystem] {attachments : Attachments}
    (h : check c inputs attachments = .ok ()) (houtput : c.outputs[index]? = some e)
    (hlock : e.lock? = some lock) :
    (∃ request copies, stepOf c = .ok (some .reissue) ∧ soleRequest inputs = .ok request ∧
      Reissues c request copies e lock ∧ index = copies.length) ∨
    ∃ lockRef consumed released, stepOf c = .ok (some .unlock) ∧
      ConsumesLock inputs lockRef consumed ∧ Unlocks c consumed released e ∧
      lock = consumed.deactivated ∧ index = released.length := by
  have hmem := List.mem_of_getElem? houtput
  have hnodup := nodup_refs_of_check h
  obtain ⟨-, -, step, hstep, h⟩ := check_eq_ok_iff.mp h
  cases step with
  | none =>
    have hasset := (checkAssets_eq_ok_iff.mp h).1 e hmem
    rw [Entity.isAsset_eq_false_of_lock? hlock] at hasset
    cases hasset
  | some step =>
  cases step with
  | request =>
    obtain ⟨-, only, request, honly, hrequest, -⟩ := checkRequest_eq_ok_iff.mp h
    rw [honly, List.mem_singleton] at hmem
    rw [← hmem, Entity.request?_eq_some_iff, Entity.lock?_eq_some_iff.mp hlock] at hrequest
    cases hrequest
  | reissue =>
    obtain ⟨request, copies, lockEntity, held, hrequest, hreissues⟩ := checkReissue_eq_ok_iff.mp h
    obtain ⟨hindex, rfl⟩ := hreissues.eq_of_lock? houtput hlock
    obtain rfl : held = lock := Option.some.inj (hreissues.lock_eq.symm.trans hlock)
    exact .inl ⟨request, copies, hstep, hrequest, hreissues, hindex⟩
  | reject =>
    rw [(checkReject_eq_ok_iff.mp h).1] at hmem
    exact absurd hmem List.not_mem_nil
  | unlock =>
    obtain ⟨consumed, released, lockOutput, _, _, hconsumed, hunlocks, -⟩ :=
      checkUnlock_eq_ok_iff.mp h
    obtain ⟨lockRef, hconsumes⟩ := consumedLock_eq_ok_iff.mp hconsumed
    obtain ⟨hindex, rfl⟩ := hunlocks.eq_of_lock? hconsumes hnodup houtput hlock
    have hsame := Option.some.inj (hlock.symm.trans hunlocks.lock_eq)
    exact .inr ⟨lockRef, consumed, released, hstep, hconsumes, hunlocks, hsame, hindex⟩
  | delete =>
    rw [(checkDelete_eq_ok_iff.mp h).1] at hmem
    exact absurd hmem List.not_mem_nil

/-- Active locks come from re-issuing alone. -/
theorem reissues_of_isActive [Cryptosystem] {attachments : Attachments}
    (h : check c inputs attachments = .ok ()) (houtput : c.outputs[index]? = some e)
    (hlock : e.lock? = some lock) (hactive : lock.isActive = true) :
    ∃ request copies, stepOf c = .ok (some .reissue) ∧ soleRequest inputs = .ok request ∧
      Reissues c request copies e lock ∧ index = copies.length := by
  rcases reissues_or_unlocks_of_check h houtput hlock with hreissues | hunlocks
  · exact hreissues
  · obtain ⟨_, consumed, _, -, -, -, rfl, -⟩ := hunlocks
    cases hactive

end Rules

end Custody
