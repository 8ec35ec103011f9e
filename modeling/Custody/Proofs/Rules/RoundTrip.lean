import Custody.Proofs.ExitProof
import Custody.Proofs.Rules.Requests

/-!
# There and back

What is re-issued and then unlocked is what was there before. A re-issuance holds its copies to the
snapshot position by position, an unlocking holds what it releases to the snapshot in the same way,
and the snapshot is in the lock that goes from the one to the other. The copies themselves may be
listed in any order when they are consumed: they are told apart by their positions among the outputs
of the re-issuance, and no position is left out.
-/

namespace Custody

namespace Rules

open Outcome

/-- What is released for an entry of a snapshot and its copy: equal to both in payload and
participants, and free. -/
structure Restores (entry : Located) (copy output : Entity) : Prop where
  payload_eq : output.payload = entry.entity.payload
  participants_eq : output.participants = entry.entity.participants
  payload_eq_copy : output.payload = copy.payload
  participants_eq_copy : output.participants = copy.participants
  isFree : output.encumbrance = none

section

variable [Cryptosystem] {r : Transaction} {u : Content} {rInputs uInputs : List Located}
  {rAttachments uAttachments : Attachments}

/-- An accepted transaction that carries the command of unlocking follows that rule. -/
theorem exists_unlocks_of_check (h : check u uInputs uAttachments = .ok ())
    (hunlock : ∃ command ∈ u.commands, command.kind = .deactivateLock) :
    ∃ lockRef lock released lockOutput, ConsumesLock uInputs lockRef lock ∧
      Unlocks u lock released lockOutput := by
  obtain ⟨-, -, step, hstep, h⟩ := check_eq_ok_iff.mp h
  obtain ⟨command, hmem, hkind⟩ := hunlock
  obtain rfl := eq_of_mem_of_stepOf hstep hmem (CommandKind.step?_eq_unlock_iff.mpr hkind)
  obtain ⟨lock, released, lockOutput, _, _, hconsumed, hunlocks, -⟩ := checkUnlock_eq_ok_iff.mp h
  obtain ⟨lockRef, hconsumes⟩ := consumedLock_eq_ok_iff.mp hconsumed
  exact ⟨lockRef, lock, released, lockOutput, hconsumes, hunlocks⟩

omit [Cryptosystem] in
/-- With the lock of a re-issuance all its outputs are consumed. -/
theorem located_subset {request : Request} {copies : List Entity} {lockEntity : Entity}
    {lock : Lock} {lockRef : OutputRef} (hreissues : Reissues r.content request copies lockEntity lock)
    (hconsumes : ConsumesLock uInputs lockRef lock) (hnodup : (uInputs.map Located.ref).Nodup)
    (hresolved : ∀ input ∈ uInputs, input.ref.transaction = r.id ∧
      r.content.outputs[input.ref.index.toNat]? = some input.entity) : r.located ⊆ uInputs := by
  intro e he
  obtain ⟨index, houtput, href⟩ := Transaction.mem_located_iff.mp he
  suffices hfound : ∃ input ∈ uInputs, input.ref.index.toNat = index by
    obtain ⟨input, hinput, rfl⟩ := hfound
    obtain ⟨hsource, hentity⟩ := hresolved input hinput
    rw [hentity, Option.some.injEq] at houtput
    rw [UInt32.ofNat_toNat, Transaction.outputRef, ← hsource] at href
    exact Located.eq_of_eq houtput href.symm ▸ hinput
  have hlt := (List.getElem?_eq_some_iff.mp houtput).1
  rw [hreissues.length_outputs] at hlt
  rcases Nat.lt_succ_iff_lt_or_eq.mp hlt with hcopy | hlock
  · rw [hreissues.isCopy.length_eq] at hcopy
    obtain ⟨input, hinput, -, hindex⟩ := hconsumes.exists_copy hnodup hcopy
    exact ⟨input, hinput, hindex⟩
  · obtain ⟨input, hinput, -, hheld⟩ := hconsumes.exists_mem
    have hindex := (hreissues.eq_of_lock? (hresolved input hinput).2 hheld).1
    exact ⟨input, hinput, hindex.trans hlock.symm⟩

omit [Cryptosystem] in
/-- Copies and released entities stand at the positions of the entries they stand for. -/
theorem exists_restores {request : Request} {copies released : List Entity}
    {lockEntity lockOutput : Entity} {lock : Lock}
    (hreissues : Reissues r.content request copies lockEntity lock)
    (hunlocks : Unlocks u lock released lockOutput) {index : Nat} {entry : Located}
    (hentry : lock.snapshot[index]? = some entry) :
    ∃ copy output, r.content.outputs[index]? = some copy ∧ u.outputs[index]? = some output ∧
      Restores entry copy output := by
  obtain ⟨copy, hcopy, hsame⟩ := exists_of_getElem?_right hreissues.isCopy hentry
  obtain ⟨output, houtput, hreleased⟩ := exists_of_getElem?_right hunlocks.isReleased hentry
  refine ⟨copy, output, ?_, ?_, ?_⟩
  · rw [hreissues.outputs_eq, List.getElem?_append_left (List.getElem?_eq_some_iff.mp hcopy).1,
      hcopy]
  · rw [hunlocks.outputs_eq,
      List.getElem?_append_left (List.getElem?_eq_some_iff.mp houtput).1, houtput]
  · exact {
      payload_eq := hreleased.payload_eq
      participants_eq := hreleased.participants_eq
      payload_eq_copy := hreleased.payload_eq.trans hsame.payload_eq.symm
      participants_eq_copy := hreleased.participants_eq.trans hsame.participants_eq.symm
      isFree := by simpa [Entity.isEncumbered] using hreleased.isFree }

/-- An unlocking of what was re-issued consumes all of it and gives back the snapshot: as many
entities as it has entries, at each position the entry that stands there, and last the lock, which
is inactive, otherwise unchanged and free. -/
theorem unlock_of_reissue (hr : check r.content rInputs rAttachments = .ok ())
    (hreissue : ∃ command ∈ r.content.commands, command.kind = .acceptRequest)
    (hu : check u uInputs uAttachments = .ok ())
    (hunlock : ∃ command ∈ u.commands, command.kind = .deactivateLock)
    (hresolved : ∀ input ∈ uInputs, input.ref.transaction = r.id ∧
      r.content.outputs[input.ref.index.toNat]? = some input.entity) :
    ∃ lockEntity lock, ∃ lockOutput : Entity,
      r.content.outputs.getLast? = some lockEntity ∧ lockEntity.payload = .lock lock ∧
      r.content.outputs.length = lock.snapshot.length + 1 ∧ r.located ⊆ uInputs ∧
      u.outputs.length = lock.snapshot.length + 1 ∧
      (∀ (index : Nat) entry, lock.snapshot[index]? = some entry → ∃ copy output,
        r.content.outputs[index]? = some copy ∧ u.outputs[index]? = some output ∧
        Restores entry copy output) ∧
      u.outputs.getLast? = some lockOutput ∧
      lockOutput.payload = .lock { lock with status := .inactive } ∧
      lockOutput.encumbrance = none := by
  obtain ⟨-, _, copies, lockEntity, lock, -, hreissues⟩ := exists_reissues_of_check hr hreissue
  obtain ⟨lockRef, consumed, released, lockOutput, hconsumes, hunlocks⟩ :=
    exists_unlocks_of_check hu hunlock
  -- The lock consumed is the one that was created: no copy is a lock.
  obtain ⟨input, hinput, -, hheld⟩ := hconsumes.exists_mem
  obtain ⟨-, rfl⟩ := hreissues.eq_of_lock? (hresolved input hinput).2 hheld
  obtain rfl := Option.some.inj (hheld.symm.trans hreissues.lock_eq)
  refine ⟨input.entity, consumed, lockOutput, ?_, Entity.lock?_eq_some_iff.mp hheld, ?_,
    located_subset hreissues hconsumes (nodup_refs_of_check hu) hresolved, ?_,
    fun _ _ ↦ exists_restores hreissues hunlocks, ?_,
    Entity.lock?_eq_some_iff.mp hunlocks.lock_eq, ?_⟩
  · rw [hreissues.outputs_eq, List.getLast?_concat]
  · rw [hreissues.length_outputs, hreissues.isCopy.length_eq]
  · rw [hunlocks.outputs_eq, List.length_append, hunlocks.isReleased.length_eq,
      List.length_singleton]
  · rw [hunlocks.outputs_eq, List.getLast?_concat]
  · simpa [Entity.isEncumbered] using hunlocks.isFree

end

/-! ### Two entities, there and back -/

namespace Pair

open ExitProof.Pair
open Trial (key notary)

/-- The holder asks for both to be re-issued. -/
def request : Located :=
  ⟨⟨.request ⟨lock.issuer, lock.requester, lock.snapshotRefs, "Issue", []⟩, [key 2], notary, none⟩,
    ⟨⟨.replicate 32 4⟩, 0⟩⟩

def reissue : Transaction where
  id := ⟨.replicate 32 5⟩
  content := {
    inputs := [request.ref]
    outputs := [
      { first.entity with encumbrance := some 2 }, { second.entity with encumbrance := some 2 },
      ⟨.lock lock, [key 2, key 1], notary, some 0⟩]
    commands := [
      .signedBy .acceptRequest [key 1],
      .signedBy .createLock [key 1, key 2],
      .asset "Issue" [key 1, key 2]]
    notary := notary
    attachments := []
    salt := .replicate 32 0 }
  endorsements := []

/-- The unlocking lists the lock first and the copies in the opposite order. -/
def unlock : Content where
  inputs := [reissue.outputRef 2, reissue.outputRef 1, reissue.outputRef 0]
  outputs := [first.entity, second.entity,
    ⟨.lock { lock with status := .inactive }, [key 2, key 1], notary, none⟩]
  commands := [.signedBy .deactivateLock [key 2]]
  notary := notary
  attachments := exits.map fun t ↦ (stored t).1
  salt := .replicate 32 0

/-- The blobs of both exits. -/
def blobs : Attachments := @Attachments.addAll .clear ∅ (exits.map fun t ↦ (stored t).2)

theorem unlock_restores :
    @check .clear reissue.content [request] ∅ = .ok () ∧
      @check .clear unlock reissue.located.reverse blobs = .ok () ∧
      ∃ copy output, reissue.content.outputs[1]? = some copy ∧ unlock.outputs[1]? = some output ∧
        Restores second copy output := by
  have hr : @check .clear reissue.content [request] ∅ = .ok () := by decide +kernel
  have hu : @check .clear unlock reissue.located.reverse blobs = .ok () := by decide +kernel
  obtain ⟨_, held, _, hlast, hlock, -, -, -, hrestores, -⟩ :=
    @unlock_of_reissue .clear reissue unlock _ _ _ _ hr (by decide) hu (by decide)
      (by decide +kernel)
  rw [← Option.some.inj hlast] at hlock
  obtain rfl := Payload.lock.inj hlock
  exact ⟨hr, hu, hrestores 1 second rfl⟩

end Pair

end Rules

end Custody
