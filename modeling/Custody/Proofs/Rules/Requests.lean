import Custody.Proofs.Rules.LockOutputs

/-!
# Where requests come from and go

A request is the one output of a transaction that consumes nothing, and it is consumed alone, by
accepting or rejecting it. Nothing else gets hold of one as long as snapshots hold assets only:
what unlocking releases has the payload of an entry of the snapshot, and so has every copy that is
consumed with a lock. The lock that a re-issuance creates has such a snapshot, since its copies are
assets.
-/

namespace Custody

namespace Entity

variable {e : Entity} {request : Request}

/-- An asset is no request. -/
theorem isAsset_eq_false_of_request? (h : e.request? = some request) :
    e.payload.isAsset = false := by
  rw [request?_eq_some_iff.mp h]
  rfl

/-- A lock is no request. -/
theorem lock?_eq_none_of_request? (h : e.request? = some request) : e.lock? = none := by
  unfold lock?
  rw [request?_eq_some_iff.mp h]
  rfl

end Entity

namespace CommandKind

variable {kind : CommandKind}

theorem step?_eq_request_iff : kind.step? = some .request ↔ kind = .createRequest := by
  cases kind <;> simp [step?]

theorem step?_eq_reject_iff : kind.step? = some .reject ↔ kind = .rejectRequest := by
  cases kind <;> simp [step?]

end CommandKind

/-- A lock over assets only. -/
def Lock.HoldsAssets (lock : Lock) : Prop :=
  ∀ entry ∈ lock.snapshot, entry.entity.payload.isAsset = true

namespace Rules

open Outcome

variable {c : Content} {inputs : List Located} {attachments : Attachments}

/-- A new lock is over assets: each entry of its snapshot has the payload of a copy. -/
theorem Reissues.holdsAssets {request : Request} {copies : List Entity} {lockEntity : Entity}
    {lock : Lock} (h : Reissues c request copies lockEntity lock) : lock.HoldsAssets := by
  intro entry hentry
  obtain ⟨copy, -, hcopy⟩ := exists_of_mem_right h.isCopy hentry
  rw [← hcopy.payload_eq]
  exact hcopy.isAsset

namespace ConsumesLock

variable {lockRef : OutputRef} {lock : Lock} {input : Located}

/-- An active lock over assets and the copies under it may be consumed in any order. -/
theorem of_perm {held : Located} {copies : List Located} (hlock : held.entity.lock? = some lock)
    (hactive : lock.isActive = true) (hassets : lock.HoldsAssets)
    (hne : ∀ copy ∈ copies, copy.ref ≠ held.ref)
    (hgoverned : ∀ copy ∈ copies, Rules.isGoverned held.ref copy = true)
    (hcount : copies.length = lock.snapshot.length)
    (hpayload : ∀ copy ∈ copies, ∃ entry, lock.snapshot[copy.ref.index.toNat]? = some entry ∧
      entry.entity.payload = copy.entity.payload)
    (hperm : inputs.Perm (copies ++ [held])) : ConsumesLock inputs held.ref lock := by
  have hcopies : ∀ input ∈ inputs, input.ref ≠ held.ref → input ∈ copies := by
    intro input hmem hother
    rcases List.mem_append.mp (hperm.mem_iff.mp hmem) with hcopy | hself
    · exact hcopy
    · exact absurd (congrArg Located.ref (List.mem_singleton.mp hself)) hother
  have hnolock : copies.filterMap (fun i ↦ i.entity.lock?.map fun l ↦ (i.ref, l)) = [] := by
    rw [List.filterMap_eq_nil_iff]
    intro copy hcopy
    obtain ⟨entry, hentry, hsame⟩ := hpayload copy hcopy
    have hasset := hassets entry (List.mem_of_getElem? hentry)
    rw [Option.map_eq_none_iff, Option.eq_none_iff_forall_ne_some]
    intro other hother
    rw [hsame, Entity.isAsset_eq_false_of_lock? hother] at hasset
    cases hasset
  have hlocks := hperm.filterMap fun i ↦ i.entity.lock?.map fun l ↦ (i.ref, l)
  rw [List.filterMap_append, hnolock, List.filterMap_cons, hlock] at hlocks
  have hfilter : (copies ++ [held]).filter (·.ref != held.ref) = copies := by
    rw [List.filter_append, List.filter_eq_self.mpr (by simpa using hne)]
    simp
  exact {
    locks_eq := List.perm_singleton.mp hlocks
    isActive := hactive
    isGoverned := fun input hmem hother ↦ hgoverned input (hcopies input hmem hother)
    count_eq := by rw [(hperm.filter _).length_eq, hfilter, hcount]
    payload_eq := fun input hmem hother ↦ hpayload input (hcopies input hmem hother) }

/-- The consumed lock is among the inputs. -/
theorem exists_mem (h : ConsumesLock inputs lockRef lock) :
    ∃ input ∈ inputs, input.ref = lockRef ∧ input.entity.lock? = some lock := by
  have hmem : (lockRef, lock) ∈ [(lockRef, lock)] := List.mem_singleton_self _
  rw [← h.locks_eq, List.mem_filterMap] at hmem
  obtain ⟨input, hinput, hlock⟩ := hmem
  obtain ⟨held, hheld, heq⟩ := Option.map_eq_some_iff.mp hlock
  obtain ⟨rfl, rfl⟩ := Prod.mk.inj heq
  exact ⟨input, hinput, rfl, hheld⟩

/-- The lock aside, what is consumed with a lock over assets is an asset. -/
theorem isAsset (h : ConsumesLock inputs lockRef lock) (hassets : lock.HoldsAssets)
    (hmem : input ∈ inputs) (hcopy : input.ref ≠ lockRef) :
    input.entity.payload.isAsset = true := by
  obtain ⟨entry, hentry, hpayload⟩ := h.payload_eq input hmem hcopy
  rw [← hpayload]
  exact hassets entry (List.mem_of_getElem? hentry)

/-- No request is consumed with a lock over assets. -/
theorem request?_eq_none (h : ConsumesLock inputs lockRef lock) (hassets : lock.HoldsAssets)
    (hnodup : (inputs.map Located.ref).Nodup) (hmem : input ∈ inputs) :
    input.entity.request? = none := by
  rw [Option.eq_none_iff_forall_ne_some]
  intro request hrequest
  by_cases hself : input.ref = lockRef
  · obtain ⟨other, hother, href, hlock⟩ := h.exists_mem
    obtain rfl := List.inj_on_of_nodup_map hnodup hmem hother (hself.trans href.symm)
    rw [Entity.lock?_eq_none_of_request? hrequest] at hlock
    cases hlock
  · have hasset := h.isAsset hassets hmem hself
    rw [Entity.isAsset_eq_false_of_request? hrequest] at hasset
    cases hasset

end ConsumesLock

/-- The locks consumed by a transaction are over assets. -/
def ConsumesAssets (inputs : List Located) : Prop :=
  ∀ lockRef lock, ConsumesLock inputs lockRef lock → lock.HoldsAssets

variable [Cryptosystem]

/-- An accepted transaction with a request among its outputs creates it, or unlocks a lock whose
snapshot holds it. -/
theorem creates_or_releases_of_request? {e : Entity} {request : Request}
    (h : check c inputs attachments = .ok ()) (hmem : e ∈ c.outputs)
    (hrequest : e.request? = some request) :
    (stepOf c = .ok (some .request) ∧ inputs = [] ∧ c.outputs = [e] ∧
      SignedFor c .createRequest [request.requester]) ∨
    ∃ lockRef lock, stepOf c = .ok (some .unlock) ∧ ConsumesLock inputs lockRef lock ∧
      ∃ entry ∈ lock.snapshot, entry.entity.request? = some request := by
  have hasset := Entity.isAsset_eq_false_of_request? hrequest
  have hlock := Entity.lock?_eq_none_of_request? hrequest
  obtain ⟨-, -, step, hstep, h⟩ := check_eq_ok_iff.mp h
  cases step with
  | none =>
    cases hasset.symm.trans ((checkAssets_eq_ok_iff.mp h).1 e hmem)
  | some step =>
  cases step with
  | request =>
    obtain ⟨hempty, only, created, honly, hcreated, -, -, hsigned⟩ := checkRequest_eq_ok_iff.mp h
    obtain rfl : e = only := by rwa [honly, List.mem_singleton] at hmem
    obtain rfl := Option.some.inj (hcreated.symm.trans hrequest)
    exact .inl ⟨hstep, hempty, honly, hsigned⟩
  | reissue =>
    obtain ⟨_, copies, lockEntity, lock, -, hreissues⟩ := checkReissue_eq_ok_iff.mp h
    rw [hreissues.outputs_eq, List.mem_append, List.mem_singleton] at hmem
    rcases hmem with hcopy | rfl
    · obtain ⟨_, hentry⟩ := hreissues.exists_isCopy hcopy
      cases hasset.symm.trans hentry.isAsset
    · cases hlock.symm.trans hreissues.lock_eq
  | reject =>
    rw [(checkReject_eq_ok_iff.mp h).1] at hmem
    exact absurd hmem List.not_mem_nil
  | unlock =>
    obtain ⟨lock, released, lockOutput, _, _, hconsumed, hunlocks, -⟩ :=
      checkUnlock_eq_ok_iff.mp h
    obtain ⟨lockRef, hconsumes⟩ := consumedLock_eq_ok_iff.mp hconsumed
    rw [hunlocks.outputs_eq, List.mem_append, List.mem_singleton] at hmem
    rcases hmem with hreleased | rfl
    · obtain ⟨entry, hentry, hsame⟩ := exists_of_mem_left hunlocks.isReleased hreleased
      rw [Entity.request?_eq_some_iff, hsame.payload_eq, ← Entity.request?_eq_some_iff] at hrequest
      exact .inr ⟨lockRef, lock, hstep, hconsumes, entry, hentry, hrequest⟩
    · cases hlock.symm.trans hunlocks.lock_eq
  | delete =>
    rw [(checkDelete_eq_ok_iff.mp h).1] at hmem
    exact absurd hmem List.not_mem_nil

/-- A request comes out of a transaction alone and out of nothing. -/
theorem outputs_eq_of_request? {e : Entity} {request : Request}
    (h : check c inputs attachments = .ok ()) (hassets : ConsumesAssets inputs)
    (hmem : e ∈ c.outputs) (hrequest : e.request? = some request) :
    inputs = [] ∧ c.outputs = [e] ∧ ∃ command ∈ c.commands, command.kind = .createRequest := by
  rcases creates_or_releases_of_request? h hmem hrequest with
    ⟨hstep, hempty, honly, -⟩ | ⟨lockRef, lock, -, hconsumes, entry, hentry, hheld⟩
  · obtain ⟨command, hcommand, hkind⟩ := exists_command_of_stepOf hstep
    exact ⟨hempty, honly, command, hcommand, CommandKind.step?_eq_request_iff.mp hkind⟩
  · have hasset := hassets lockRef lock hconsumes entry hentry
    rw [Entity.isAsset_eq_false_of_request? hheld] at hasset
    cases hasset

/-- A request is for something, and nothing encumbers it. -/
theorem requested_of_request? {e : Entity} {request : Request}
    (h : check c inputs attachments = .ok ()) (hassets : ConsumesAssets inputs)
    (hmem : e ∈ c.outputs) (hrequest : e.request? = some request) :
    request.entities ≠ [] ∧ e.encumbrance = none := by
  obtain ⟨-, honly, command, hcommand, hkind⟩ := outputs_eq_of_request? h hassets hmem hrequest
  obtain ⟨hwell, -, step, hstep, hcheck⟩ := check_eq_ok_iff.mp h
  obtain rfl := eq_of_mem_of_stepOf hstep hcommand (CommandKind.step?_eq_request_iff.mpr hkind)
  obtain ⟨-, created, found, hcreated, hfound, hentities, -⟩ := checkRequest_eq_ok_iff.mp hcheck
  obtain rfl := List.singleton_inj.mp (honly.symm.trans hcreated)
  obtain rfl := Option.some.inj (hrequest.symm.trans hfound)
  exact ⟨hentities, hwell.encumbrance_eq_none honly⟩

/-- A request is consumed alone, by accepting or rejecting it, or it comes with a lock. -/
theorem answered_or_governed_of_request? {input : Located} {request : Request}
    (h : check c inputs attachments = .ok ()) (hmem : input ∈ inputs)
    (hrequest : input.entity.request? = some request) :
    (inputs = [input] ∧ request.issuer.key ∈ c.requiredKeys ∧
      (stepOf c = .ok (some .reissue) ∧ request.requester ∈ c.requiredKeys ∨
        stepOf c = .ok (some .reject))) ∨
    ∃ lockRef lock, ConsumesLock inputs lockRef lock ∧
      (stepOf c = .ok (some .unlock) ∨ stepOf c = .ok (some .delete)) := by
  cases consumption_of_mem h hmem with
  | asset hasset =>
    rw [Entity.isAsset_eq_false_of_request? hrequest] at hasset
    cases hasset
  | request hinputs hfound hissuer hstep =>
    obtain rfl := Option.some.inj (hfound.symm.trans hrequest)
    exact .inl ⟨hinputs, hissuer, hstep⟩
  | lock hconsumes _ hstep => exact .inr ⟨_, _, hconsumes, hstep.imp_left And.left⟩

/-- A request is consumed alone, by accepting or rejecting it. -/
theorem inputs_eq_of_request? {input : Located} {request : Request}
    (h : check c inputs attachments = .ok ()) (hassets : ConsumesAssets inputs)
    (hmem : input ∈ inputs) (hrequest : input.entity.request? = some request) :
    inputs = [input] ∧
      ∃ command ∈ c.commands, command.kind = .acceptRequest ∨ command.kind = .rejectRequest := by
  rcases answered_or_governed_of_request? h hmem hrequest with
    ⟨honly, -, hstep⟩ | ⟨_, _, hconsumes, -⟩
  · refine ⟨honly, ?_⟩
    rcases hstep with ⟨hstep, -⟩ | hstep
    · obtain ⟨command, hcommand, hkind⟩ := exists_command_of_stepOf hstep
      exact ⟨command, hcommand, .inl (CommandKind.step?_eq_reissue_iff.mp hkind)⟩
    · obtain ⟨command, hcommand, hkind⟩ := exists_command_of_stepOf hstep
      exact ⟨command, hcommand, .inr (CommandKind.step?_eq_reject_iff.mp hkind)⟩
  · have hnone := hconsumes.request?_eq_none (hassets _ _ hconsumes) (nodup_refs_of_check h) hmem
    cases hnone.symm.trans hrequest

end Rules

end Custody
