import Mathlib.Data.List.Perm.Subperm
import Custody.Proofs.Rules.Consumption
import Custody.Proofs.Transaction.Outputs
import Custody.Proofs.Trial

/-!
# Atomic custody

Whatever consumes an output of a re-issuance consumes all of them and nothing else. A copy comes
with its lock because it is encumbered by it. The lock is an input of unlocking and deleting only,
and these want all other inputs to be outputs of the lock's transaction that the lock encumbers, as
many as its snapshot has entries. No input occurs twice, so counting them shows that none is left
behind.
-/

namespace Custody

namespace Rules

open Outcome

variable {c : Content} {inputs : List Located}

/-! ### The outputs of a re-issuance -/

namespace Reissues

variable {request : Request} {copies : List Entity} {lockEntity : Entity} {lock : Lock}

theorem getElem?_lock (h : Reissues c request copies lockEntity lock) :
    c.outputs[copies.length]? = some lockEntity := by
  rw [h.outputs_eq]
  exact List.getElem?_concat_length

theorem getElem?_copy (h : Reissues c request copies lockEntity lock) {index : Nat}
    (hindex : index < copies.length) : c.outputs[index]? = some copies[index] := by
  rw [h.outputs_eq, List.getElem?_append_left hindex, List.getElem?_eq_getElem hindex]

theorem length_outputs (h : Reissues c request copies lockEntity lock) :
    c.outputs.length = copies.length + 1 := by
  rw [h.outputs_eq, List.length_append, List.length_singleton]

theorem exists_isCopy (h : Reissues c request copies lockEntity lock) {copy : Entity}
    (hcopy : copy ∈ copies) : ∃ entry, IsCopy (.ofNat copies.length) copy entry := by
  obtain ⟨entry, -, hentry⟩ := Outcome.exists_of_mem_left h.isCopy hcopy
  exact ⟨entry, hentry⟩

theorem encumbrance_eq (h : Reissues c request copies lockEntity lock) {copy : Entity}
    (hcopy : copy ∈ copies) : copy.encumbrance = some (.ofNat copies.length) := by
  obtain ⟨_, hentry⟩ := h.exists_isCopy hcopy
  exact hentry.encumbrance_eq

/-- The outputs can be counted in 32 bits: otherwise the copy whose position is that of the lock
modulo `2 ^ 32` would be its own partner. -/
theorem length_outputs_lt (h : Reissues c request copies lockEntity lock) (hwell : c.WellFormed) :
    c.outputs.length < 2 ^ 32 := by
  rw [h.length_outputs]
  by_contra hlarge
  have hindex : copies.length % 2 ^ 32 < copies.length ∨ copies.length + 1 = 2 ^ 32 := by omega
  rcases hindex with hindex | hindex
  · have houtput := hwell.output _ _ (h.getElem?_copy hindex)
    refine houtput.partner_ne ?_
    rw [h.encumbrance_eq (List.getElem_mem hindex), UInt32.ofNat_mod_size]
  · have hpos : 0 < copies.length := by omega
    have houtput := hwell.output _ _ (h.getElem?_copy hpos)
    have hlt := houtput.partner_lt _ (h.encumbrance_eq (List.getElem_mem hpos))
    rw [h.length_outputs, hindex] at hlt
    exact UInt32.not_lt_zero hlt

end Reissues

/-! ### Who consumes a lock -/

/-- A consumed lock is the only one. -/
theorem ConsumesLock.eq_of_mem {lockRef : OutputRef} {lock other : Lock} {input : Located}
    (h : ConsumesLock inputs lockRef lock) (hmem : input ∈ inputs)
    (hlock : input.entity.lock? = some other) : input.ref = lockRef ∧ other = lock := by
  have hlocks : (input.ref, other) ∈ [(lockRef, lock)] := by
    rw [← h.locks_eq, List.mem_filterMap]
    exact ⟨input, hmem, by rw [hlock, Option.map_some]⟩
  rwa [List.mem_singleton, Prod.mk.injEq] at hlocks

/-- A lock is consumed in no step but unlocking and deleting. -/
theorem consumesLock_of_check [Cryptosystem] {attachments : Attachments} {input : Located}
    {lock : Lock} (h : check c inputs attachments = .ok ()) (hmem : input ∈ inputs)
    (hlock : input.entity.lock? = some lock) :
    ConsumesLock inputs input.ref lock ∧
      (stepOf c = .ok (some .unlock) ∨ stepOf c = .ok (some .delete)) := by
  have hpayload := Entity.lock?_eq_some_iff.mp hlock
  cases consumption_of_mem h hmem with
  | asset hasset =>
    rw [hpayload] at hasset
    cases hasset
  | request _ hrequest =>
    rw [Entity.request?_eq_some_iff, hpayload] at hrequest
    cases hrequest
  | lock hconsumes _ hstep =>
    obtain ⟨rfl, rfl⟩ := hconsumes.eq_of_mem hmem hlock
    exact ⟨hconsumes, hstep.imp_left And.left⟩

/-! ### Consuming a re-issuance -/

variable {r : Transaction} {t : Content} {rInputs tInputs : List Located}
  {rAttachments tAttachments : Attachments}

/-- The lock comes with any output: it is that output, or the partner of that copy. -/
theorem exists_lock_mem {request : Request} {copies : List Entity} {lockEntity : Entity}
    {lock : Lock} {e : Located} (hr : Reissues r.content request copies lockEntity lock)
    (hwell : r.content.WellFormed) (hmatch : t.Matches tInputs)
    (hresolved : ∀ input ∈ tInputs, input.ref.transaction = r.id →
      r.content.outputs[input.ref.index.toNat]? = some input.entity)
    (hmem : e ∈ tInputs) (hsource : e.ref.transaction = r.id) :
    ⟨lockEntity, r.outputRef (.ofNat copies.length)⟩ ∈ tInputs := by
  have hlength : (UInt32.ofNat copies.length).toNat = copies.length := by
    have hlt := hr.length_outputs_lt hwell
    rw [hr.length_outputs] at hlt
    exact UInt32.toNat_ofNat_of_lt' (Nat.lt_of_succ_lt hlt)
  -- It is enough that the reference of the lock is among the inputs.
  suffices hpartner : r.outputRef (.ofNat copies.length) ∈ t.inputs by
    rw [← hmatch.refs_eq, List.mem_map] at hpartner
    obtain ⟨⟨entity, ref⟩, hinput, rfl⟩ := hpartner
    have hentity := hresolved _ hinput rfl
    simp only [Transaction.outputRef, hlength] at hentity
    rw [hr.getElem?_lock, Option.some.injEq] at hentity
    rwa [hentity]
  have hentity := hresolved e hmem hsource
  have hlt := (List.getElem?_eq_some_iff.mp hentity).1
  rw [hr.length_outputs] at hlt
  rcases Nat.lt_succ_iff_lt_or_eq.mp hlt with hcopy | hlock
  · rw [hr.getElem?_copy hcopy, Option.some.injEq] at hentity
    have hencumbrance := hr.encumbrance_eq (List.getElem_mem hcopy)
    rw [hentity] at hencumbrance
    rw [Transaction.outputRef, ← hsource]
    exact hmatch.partner_mem e hmem _ hencumbrance
  · rw [← hmatch.refs_eq, List.mem_map]
    refine ⟨e, hmem, ?_⟩
    rw [Transaction.outputRef, ← hsource, ← hlock, UInt32.ofNat_toNat]

/-- An accepted transaction that carries the command of re-issuing follows that rule. -/
theorem exists_reissues_of_check [Cryptosystem] (h : check c inputs rAttachments = .ok ())
    (hreissue : ∃ command ∈ c.commands, command.kind = .acceptRequest) :
    c.WellFormed ∧ ∃ request copies lockEntity lock, soleRequest inputs = .ok request ∧
      Reissues c request copies lockEntity lock := by
  obtain ⟨hwell, -, step, hstep, hcheck⟩ := check_eq_ok_iff.mp h
  obtain ⟨command, hmem, hkind⟩ := hreissue
  have htaken : command.kind.step? = some .reissue := by rw [hkind]; rfl
  obtain rfl := eq_of_mem_of_stepOf hstep hmem htaken
  exact ⟨hwell, checkReissue_eq_ok_iff.mp hcheck⟩

/-- Whatever consumes an output of a re-issuance consumes exactly its outputs, the copies and the
lock, in some order, and unlocks or deletes. -/
theorem inputs_perm_located_of_check [Cryptosystem]
    (hr : check r.content rInputs rAttachments = .ok ())
    (hreissue : ∃ command ∈ r.content.commands, command.kind = .acceptRequest)
    (ht : check t tInputs tAttachments = .ok ())
    (hresolved : ∀ input ∈ tInputs, input.ref.transaction = r.id →
      r.content.outputs[input.ref.index.toNat]? = some input.entity)
    (hconsumes : ∃ input ∈ t.inputs, input.transaction = r.id) :
    ∃ copies lockEntity lock,
      r.content.outputs = copies ++ [lockEntity] ∧
      (∀ copy ∈ copies, copy.payload.isAsset = true) ∧ lockEntity.lock? = some lock ∧
      tInputs.Perm r.located ∧ t.inputs.Perm (r.located.map Located.ref) ∧ t.inputs.Nodup ∧
      ∃ command ∈ t.commands, command.kind = .deactivateLock ∨ command.kind = .deleteLock := by
  obtain ⟨hwell, request, copies, lockEntity, lock, -, hreissues⟩ :=
    exists_reissues_of_check hr hreissue
  obtain ⟨htwell, hmatch, -⟩ := check_eq_ok_iff.mp ht
  obtain ⟨ref, href, hsource⟩ := hconsumes
  rw [← hmatch.refs_eq, List.mem_map] at href
  obtain ⟨e, he, rfl⟩ := href
  have hlock := exists_lock_mem hreissues hwell hmatch hresolved he hsource
  obtain ⟨hconsumes, hstep⟩ := consumesLock_of_check ht hlock hreissues.lock_eq
  -- Every input is an output of the re-issuance: the lock is, and so is all that it governs.
  have hsubset : tInputs ⊆ r.located := by
    intro input hinput
    have htransaction : input.ref.transaction = r.id := by
      by_cases hself : input.ref = r.outputRef (.ofNat copies.length)
      · rw [hself, Transaction.outputRef]
      · have hgoverned := hconsumes.isGoverned input hinput hself
        rw [isGoverned, Bool.and_eq_true, beq_iff_eq] at hgoverned
        exact hgoverned.1
    exact Transaction.mem_located_of_getElem? htransaction (hresolved input hinput htransaction)
  have hnodup : tInputs.Nodup := by
    apply List.Nodup.of_map Located.ref
    rw [hmatch.refs_eq]
    exact htwell.inputs_nodup
  have hcount : r.located.length ≤ tInputs.length := by
    have hcopies : (tInputs.filter (·.ref != r.outputRef (.ofNat copies.length))).length =
        copies.length := by
      rw [hconsumes.count_eq, hreissues.isCopy.length_eq]
    have hless : (tInputs.filter (·.ref != r.outputRef (.ofNat copies.length))).length <
        tInputs.length := by
      rw [List.length_filter_lt_length_iff_exists]
      exact ⟨_, hlock, by simp⟩
    rw [Transaction.length_located, hreissues.length_outputs]
    omega
  have hperm : tInputs.Perm r.located := (hnodup.subperm hsubset).perm_of_length_le hcount
  refine ⟨copies, lockEntity, lock, hreissues.outputs_eq, ?_, hreissues.lock_eq, hperm,
    hmatch.refs_eq ▸ hperm.map Located.ref, htwell.inputs_nodup, ?_⟩
  · intro copy hcopy
    obtain ⟨_, hentry⟩ := hreissues.exists_isCopy hcopy
    exact hentry.isAsset
  · rcases hstep with hstep | hstep
    · obtain ⟨command, hmem, hkind⟩ := exists_command_of_stepOf hstep
      exact ⟨command, hmem, .inl (CommandKind.step?_eq_unlock_iff.mp hkind)⟩
    · obtain ⟨command, hmem, hkind⟩ := exists_command_of_stepOf hstep
      exact ⟨command, hmem, .inr (CommandKind.step?_eq_delete_iff.mp hkind)⟩

/-! ### A deletion -/

namespace Deletion

open Trial (key notary issuer)

/-- What is to be re-issued. -/
def original : Located :=
  ⟨⟨.asset ⟨"Bond", [7]⟩, [key 2], notary, none⟩, ⟨⟨.replicate 32 3⟩, 0⟩⟩

def request : Located :=
  ⟨⟨.request ⟨issuer, key 2, [original.ref], "Issue", []⟩, [key 2], notary, none⟩,
    ⟨⟨.replicate 32 4⟩, 0⟩⟩

/-- The re-issuance of the original. -/
def reissue : Transaction where
  id := ⟨.replicate 32 5⟩
  content := {
    inputs := [request.ref]
    outputs := [
      { original.entity with encumbrance := some 1 },
      ⟨.lock ⟨issuer, key 2, [original], .active, []⟩, [key 2, key 1], notary, some 0⟩]
    commands := [
      .signedBy .acceptRequest [key 1],
      .signedBy .createLock [key 1, key 2],
      .asset "Issue" [key 1, key 2]]
    notary := notary
    attachments := []
    salt := .replicate 32 0 }
  endorsements := []

/-- The deletion of the copy and its lock, lock first. -/
def content : Content where
  inputs := [reissue.outputRef 1, reissue.outputRef 0]
  outputs := []
  commands := [.signedBy .deleteLock [key 2]]
  notary := notary
  attachments := []
  salt := .replicate 32 0

end Deletion

open Deletion in
theorem deletion_inputs_perm_located :
    @check .standard reissue.content [request] ∅ = .ok () ∧
      @check .standard content reissue.located.reverse ∅ = .ok () ∧
      content.inputs.Perm (reissue.located.map Located.ref) := by
  have hr : @check .standard reissue.content [request] ∅ = .ok () := by decide +kernel
  have ht : @check .standard content reissue.located.reverse ∅ = .ok () := by decide +kernel
  obtain ⟨_, _, _, -, -, -, -, hinputs, -⟩ :=
    @inputs_perm_located_of_check reissue content _ _ _ _ .standard hr (by decide) ht
      (by decide +kernel) (by decide)
  exact ⟨hr, ht, hinputs⟩

end Rules

end Custody
