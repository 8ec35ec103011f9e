import Custody.Proofs.Rules.WellFormed
import Custody.Rules

/-!
# What each step of re-issuance demands

The rule of a step, read as a predicate. A transaction that is judged to re-issue produces copies
and an active lock over them; one that lets a lock go consumes it together with all its copies and
no other entity. The rules hold exactly when these predicates do.
-/

namespace Custody

/-! ### What an entity carries -/

namespace Entity

variable {e : Entity}

theorem lock?_eq_some_iff {lock : Lock} : e.lock? = some lock ↔ e.payload = .lock lock := by
  unfold lock? Payload.lock?
  cases e.payload with
  | asset _ => simp
  | request _ => simp
  | lock _ => simp

theorem request?_eq_some_iff {request : Request} :
    e.request? = some request ↔ e.payload = .request request := by
  unfold request? Payload.request?
  cases e.payload with
  | asset _ => simp
  | request _ => simp
  | lock _ => simp

end Entity

namespace CommandKind

variable {kind : CommandKind}

theorem step?_eq_reissue_iff : kind.step? = some .reissue ↔ kind = .acceptRequest := by
  cases kind <;> simp [step?]

theorem step?_eq_unlock_iff : kind.step? = some .unlock ↔ kind = .deactivateLock := by
  cases kind <;> simp [step?]

theorem step?_eq_delete_iff : kind.step? = some .delete ↔ kind = .deleteLock := by
  cases kind <;> simp [step?]

end CommandKind

namespace Rules

open Outcome

variable {c : Content} {inputs : List Located}

@[simp]
theorem refuse_eq_error {α : Type} {cause : Violation} :
    (refuse cause : Except RuleError α) = .error (.violation cause) := rfl

@[simp]
theorem require_eq_ok_iff {condition : Bool} {cause : Violation} {u : Unit} :
    require condition cause = .ok u ↔ condition = true := by
  unfold require
  cases condition with
  | false => simp
  | true => simp

/-! ### The step taken -/

/-- The steps that the commands of a content stand for. -/
def steps (c : Content) : List Step := c.commands.filterMap fun command ↦ command.kind.step?

theorem stepOf_eq_ok_iff {step : Option Step} :
    stepOf c = .ok step ↔ (steps c).length ≤ 1 ∧ (steps c).head? = step ∧
      (c.commands.any (·.kind == .createLock) = true → step = some .reissue) := by
  unfold stepOf
  simp only [bind_eq_ok_iff, require_eq_ok_iff, decide_eq_true_eq, pure_eq_ok_iff, Bool.or_eq_true,
    Bool.not_eq_true', beq_iff_eq, exists_const]
  change (steps c).length ≤ 1 ∧ (_ ∨ (steps c).head? = _) ∧ (steps c).head? = step ↔ _
  rw [and_congr_right_iff]
  intro _
  rw [and_comm, and_congr_right_iff]
  rintro rfl
  rw [← Bool.not_eq_true, imp_iff_not_or]

/-- A command that stands for a step makes it the step taken. -/
theorem eq_of_mem_of_stepOf {step : Option Step} {taken : Step} {command : Command}
    (h : stepOf c = .ok step) (hmem : command ∈ c.commands)
    (htaken : command.kind.step? = some taken) : step = some taken := by
  obtain ⟨hlength, hhead, _⟩ := stepOf_eq_ok_iff.mp h
  have hsteps : taken ∈ steps c := List.mem_filterMap.mpr ⟨command, hmem, htaken⟩
  obtain ⟨only, honly⟩ := List.length_eq_one_iff.mp <|
    Nat.le_antisymm hlength (List.length_pos_of_mem hsteps)
  rw [honly, List.mem_singleton] at hsteps
  rw [← hhead, honly, hsteps]
  rfl

/-- The step taken comes from a command. -/
theorem exists_command_of_stepOf {taken : Step} (h : stepOf c = .ok (some taken)) :
    ∃ command ∈ c.commands, command.kind.step? = some taken := by
  obtain ⟨_, hhead, _⟩ := stepOf_eq_ok_iff.mp h
  exact List.mem_filterMap.mp (List.mem_of_mem_head? hhead)

/-! ### Signers -/

/-- The first command of a kind is signed by some keys. -/
def SignedFor (c : Content) (kind : CommandKind) (keys : List PublicKey) : Prop :=
  ∃ command, c.commands.find? (·.kind == kind) = some command ∧ ∀ key ∈ keys, key ∈ command.signers

theorem command_eq_ok_iff {kind : CommandKind} {found : Command} :
    command c kind = .ok found ↔ c.commands.find? (·.kind == kind) = some found := by
  unfold command
  cases c.commands.find? (·.kind == kind) with
  | none => simp
  | some _ => simp

@[simp]
theorem requireSigner_eq_ok_iff {command : Command} {key : PublicKey} {role : Role} {u : Unit} :
    requireSigner command key role = .ok u ↔ key ∈ command.signers := by
  rw [requireSigner, require_eq_ok_iff, List.contains_iff_mem]

/-! ### Re-issuing -/

theorem soleRequest_eq_ok_iff {request : Request} :
    soleRequest inputs = .ok request ↔
      ∃ input, inputs = [input] ∧ input.entity.request? = some request := by
  unfold soleRequest
  split
  · rename_i only
    cases hrequest : only.entity.request? with
    | none => simp [hrequest]
    | some found => simp [hrequest]
  · rename_i hsole
    simp only [refuse_eq_error, reduceCtorEq, false_iff, not_exists, not_and]
    intro input hinput
    exact absurd hinput (hsole input)

/-- A copy of an entry of a snapshot, governed by the lock at an output. -/
structure IsCopy (lockIndex : UInt32) (copy : Entity) (entry : Located) : Prop where
  isAsset : copy.payload.isAsset = true
  payload_eq : copy.payload = entry.entity.payload
  participants_eq : copy.participants = entry.entity.participants
  encumbrance_eq : copy.encumbrance = some lockIndex

theorem checkCopy_eq_ok_iff {lockIndex : UInt32} {copy : Entity} {entry : Located} {u : Unit} :
    checkCopy lockIndex copy entry = .ok u ↔ IsCopy lockIndex copy entry := by
  unfold checkCopy
  simp only [bind_eq_ok_iff, require_eq_ok_iff, exists_const, Bool.and_eq_true, beq_iff_eq]
  constructor
  · rintro ⟨hasset, ⟨hpayload, hparticipants⟩, hencumbrance⟩
    exact ⟨hasset, hpayload, hparticipants, hencumbrance⟩
  · rintro ⟨hasset, hpayload, hparticipants, hencumbrance⟩
    exact ⟨hasset, ⟨hpayload, hparticipants⟩, hencumbrance⟩

/-- What re-issuing on a request demands of the outputs and the commands: copies of what the request
names, followed by the active lock over them. -/
structure Reissues (c : Content) (request : Request) (copies : List Entity) (lockEntity : Entity)
    (lock : Lock) : Prop where
  outputs_eq : c.outputs = copies ++ [lockEntity]
  lock_eq : lockEntity.lock? = some lock
  isActive : lock.isActive = true
  issuer_eq : lock.issuer = request.issuer
  requester_eq : lock.requester = request.requester
  snapshot_eq : lock.snapshotRefs = request.entities
  isCopy : List.Forall₂ (IsCopy (.ofNat copies.length)) copies lock.snapshot
  isEncumbered : lockEntity.isEncumbered = true
  accept_signed : SignedFor c .acceptRequest [request.issuer.key]
  create_signed : SignedFor c .createLock [request.issuer.key, request.requester]
  issuance_signed :
    SignedFor c (.asset request.issuanceCommand) [request.issuer.key, request.requester]

theorem checkReissue_eq_ok_iff :
    checkReissue c inputs = .ok () ↔
      ∃ request copies lockEntity lock, soleRequest inputs = .ok request ∧
        Reissues c request copies lockEntity lock := by
  unfold checkReissue
  rw [bind_eq_ok_iff]
  apply exists_congr
  intro request
  simp only [exists_and_left]
  rw [and_congr_right_iff]
  intro _
  constructor
  · intro h
    cases hlast : c.outputs.getLast? with
    | none => simp [hlast] at h
    | some lockEntity =>
    cases hlock : lockEntity.lock? with
    | none => simp [hlast, hlock] at h
    | some lock =>
    obtain ⟨copies, houtputs⟩ := List.getLast?_eq_some_iff.mp hlast
    have hcopies : c.outputs.dropLast = copies := by rw [houtputs, List.dropLast_concat]
    simp only [hlast, hlock, hcopies, bind_eq_ok_iff, require_eq_ok_iff, exists_const,
      requireSigner_eq_ok_iff, command_eq_ok_iff, forM_eq_ok_iff, checkCopy_eq_ok_iff,
      Bool.and_eq_true, beq_iff_eq, Prod.forall] at h
    obtain ⟨hactive, ⟨hissuer, hrequester⟩, hsnapshot, hcount, hcopy, hencumbered,
      accept, haccept, hacceptIssuer, create, hcreate, hcreateIssuer, hcreateRequester,
      issuance, hissuance, hissuanceIssuer, hissuanceRequester⟩ := h
    refine ⟨copies, lockEntity, lock, ?_⟩
    exact {
      outputs_eq := houtputs
      lock_eq := hlock
      isActive := hactive
      issuer_eq := hissuer
      requester_eq := hrequester
      snapshot_eq := hsnapshot
      isCopy := List.forall₂_iff_zip.mpr ⟨hcount, fun h ↦ hcopy _ _ h⟩
      isEncumbered := hencumbered
      accept_signed := ⟨accept, haccept, by simpa using hacceptIssuer⟩
      create_signed := ⟨create, hcreate, by simpa using ⟨hcreateIssuer, hcreateRequester⟩⟩
      issuance_signed :=
        ⟨issuance, hissuance, by simpa using ⟨hissuanceIssuer, hissuanceRequester⟩⟩ }
  · rintro ⟨copies, lockEntity, lock, h⟩
    have hlast : c.outputs.getLast? = some lockEntity := by
      rw [h.outputs_eq, List.getLast?_concat]
    have hcopies : c.outputs.dropLast = copies := by rw [h.outputs_eq, List.dropLast_concat]
    obtain ⟨hcount, hcopy⟩ := List.forall₂_iff_zip.mp h.isCopy
    obtain ⟨accept, haccept, hacceptSigners⟩ := h.accept_signed
    obtain ⟨create, hcreate, hcreateSigners⟩ := h.create_signed
    obtain ⟨issuance, hissuance, hissuanceSigners⟩ := h.issuance_signed
    simp only [hlast, h.lock_eq, hcopies, bind_eq_ok_iff, require_eq_ok_iff, exists_const,
      requireSigner_eq_ok_iff, command_eq_ok_iff, forM_eq_ok_iff, checkCopy_eq_ok_iff,
      Bool.and_eq_true, beq_iff_eq, Prod.forall]
    exact ⟨h.isActive, ⟨h.issuer_eq, h.requester_eq⟩, h.snapshot_eq, hcount, fun _ _ ↦ hcopy,
      h.isEncumbered, accept, haccept, hacceptSigners _ (by simp), create, hcreate,
      hcreateSigners _ (by simp), hcreateSigners _ (by simp), issuance, hissuance,
      hissuanceSigners _ (by simp), hissuanceSigners _ (by simp)⟩

/-! ### Letting a lock go -/

theorem isGoverned_eq_true_iff {lockRef : OutputRef} {input : Located} :
    isGoverned lockRef input = true ↔ input.ref.transaction = lockRef.transaction ∧
      input.entity.encumbrance = some lockRef.index := by
  rw [isGoverned, Bool.and_eq_true, beq_iff_eq, beq_iff_eq]

/-- What letting a lock go demands of the inputs: they are the active lock and its copies. -/
structure ConsumesLock (inputs : List Located) (lockRef : OutputRef) (lock : Lock) : Prop where
  locks_eq : (inputs.filterMap fun i ↦ i.entity.lock?.map fun l ↦ (i.ref, l)) = [(lockRef, lock)]
  isActive : lock.isActive = true
  isGoverned : ∀ input ∈ inputs, input.ref ≠ lockRef → isGoverned lockRef input = true
  count_eq : (inputs.filter (·.ref != lockRef)).length = lock.snapshot.length
  payload_eq : ∀ input ∈ inputs, input.ref ≠ lockRef →
    ∃ entry, lock.snapshot[input.ref.index.toNat]? = some entry ∧
      entry.entity.payload = input.entity.payload

theorem consumedLock_eq_ok_iff {lock : Lock} :
    consumedLock inputs = .ok lock ↔ ∃ lockRef, ConsumesLock inputs lockRef lock := by
  unfold consumedLock
  constructor
  · intro h
    split at h
    · rename_i located found hlocks
      obtain ⟨lockRef, held⟩ := found
      simp only [bind_eq_ok_iff, require_eq_ok_iff, exists_const, pure_eq_ok_iff] at h
      obtain ⟨_, rfl, hactive, h⟩ := h
      split at h
      · simp at h
      · rename_i hstray
        simp only [bind_eq_ok_iff, require_eq_ok_iff, exists_const, pure_eq_ok_iff, beq_iff_eq] at h
        obtain ⟨hcount, hpayload, rfl⟩ := h
        refine ⟨lockRef, hlocks, hactive, ?_, hcount, ?_⟩
        · have hnone := Option.eq_none_iff_forall_ne_some.mpr hstray
          simpa using hnone
        · simpa [Option.any_eq_true, or_iff_not_imp_left] using hpayload
    · simp at h
  · rintro ⟨lockRef, h⟩
    have hstray :
        (inputs.filter (·.ref != lockRef)).find? (!Rules.isGoverned lockRef ·) = none := by
      simpa using h.isGoverned
    have hpayload : (inputs.filter (·.ref != lockRef)).all (fun copy ↦
        lock.snapshot[copy.ref.index.toNat]?.any fun entry ↦
          entry.entity.payload == copy.entity.payload) = true := by
      simpa [Option.any_eq_true, or_iff_not_imp_left] using h.payload_eq
    simp only [h.locks_eq, pure_bind, h.isActive, hstray, h.count_eq, hpayload, bind_eq_ok_iff,
      require_eq_ok_iff, exists_const, beq_self_eq_true, pure_eq_ok_iff, and_self]

/-- A released entity: that of the snapshot but for the notary, and free. -/
structure IsReleased (output : Entity) (entry : Located) : Prop where
  payload_eq : output.payload = entry.entity.payload
  participants_eq : output.participants = entry.entity.participants
  isFree : output.isEncumbered = false

theorem checkReleased_eq_ok_iff {output : Entity} {entry : Located} {u : Unit} :
    checkReleased output entry = .ok u ↔ IsReleased output entry := by
  unfold checkReleased
  simp only [require_eq_ok_iff, Bool.and_eq_true, beq_iff_eq, Bool.not_eq_true']
  constructor
  · intro h
    exact ⟨h.1.1, h.1.2, h.2⟩
  · intro h
    exact ⟨⟨h.payload_eq, h.participants_eq⟩, h.isFree⟩

/-- What unlocking demands of the outputs, the commands and the attachments: the entities of the
snapshot, followed by the lock made inactive. -/
structure Unlocks (c : Content) (lock : Lock) (released : List Entity) (lockOutput : Entity) :
    Prop where
  outputs_eq : c.outputs = released ++ [lockOutput]
  lock_eq : lockOutput.lock? = some lock.deactivated
  isFree : lockOutput.isEncumbered = false
  isReleased : List.Forall₂ IsReleased released lock.snapshot
  deactivate_signed : SignedFor c .deactivateLock [lock.requester]
  unlockSigners_mem : ∀ key ∈ lock.unlockSigners, key ∈ c.requiredKeys
  attachments_ne_nil : c.attachments ≠ []

/-- The blobs at hand under some ids, each with its id. -/
def Holds (attachments : Attachments) (ids : List AttachmentId)
    (proofs : List (AttachmentId × Bytes)) : Prop :=
  List.Forall₂ (fun id proof ↦ proof.1 = id ∧ attachments[id]? = some proof.2) ids proofs

theorem fetch_eq_ok_iff {attachments : Attachments} {id : AttachmentId} {blob : Bytes} :
    attachments.fetch id = .ok blob ↔ attachments[id]? = some blob := by
  unfold Attachments.fetch
  cases attachments[id]? with
  | none => simp
  | some _ => simp

theorem mapM_fetch_eq_ok_iff {attachments : Attachments} {ids : List AttachmentId}
    {proofs : List (AttachmentId × Bytes)} :
    (ids.mapM fun id ↦ do
      let blob ← (attachments.fetch id).mapError RuleError.store
      return (id, blob)) = .ok proofs ↔ Holds attachments ids proofs := by
  rw [mapM_eq_ok_iff]
  apply iff_of_eq
  congr 1
  funext id proof
  apply propext
  simp only [bind_eq_ok_iff, mapError_eq_ok_iff, fetch_eq_ok_iff, pure_eq_ok_iff]
  constructor
  · rintro ⟨blob, hblob, rfl⟩
    exact ⟨rfl, hblob⟩
  · rintro ⟨rfl, hblob⟩
    exact ⟨proof.2, hblob, rfl⟩

theorem checkUnlock_eq_ok_iff [Cryptosystem] {attachments : Attachments} :
    checkUnlock c inputs attachments = .ok () ↔
      ∃ lock released lockOutput proofs verified, consumedLock inputs = .ok lock ∧
        Unlocks c lock released lockOutput ∧ Holds attachments c.attachments proofs ∧
        ExitProof.verifyRelease lock proofs = .ok verified := by
  unfold checkUnlock
  rw [bind_eq_ok_iff]
  apply exists_congr
  intro lock
  simp only [exists_and_left]
  rw [and_congr_right_iff]
  intro _
  constructor
  · intro h
    cases hlast : c.outputs.getLast? with
    | none => simp [hlast] at h
    | some lockOutput =>
    cases hmissing : lock.unlockSigners.find? (!c.requiredKeys.contains ·) with
    | some missing =>
      simp only [hlast, hmissing, refuse_eq_error, error_bind_eq, bind_eq_ok_iff, reduceCtorEq,
        and_false, exists_false] at h
    | none =>
    obtain ⟨released, houtputs⟩ := List.getLast?_eq_some_iff.mp hlast
    have hreleased : c.outputs.dropLast = released := by rw [houtputs, List.dropLast_concat]
    simp only [hlast, hmissing, hreleased, bind_eq_ok_iff, mapM_fetch_eq_ok_iff, require_eq_ok_iff,
      exists_const, Bool.and_eq_true, beq_iff_eq, Bool.not_eq_true', forM_eq_ok_iff,
      checkReleased_eq_ok_iff, Prod.forall, command_eq_ok_iff, requireSigner_eq_ok_iff,
      discard_eq_ok_iff, mapError_eq_ok_iff] at h
    obtain ⟨⟨hlock, hfree⟩, hcount, hall, command, hcommand, hsigner, hproofs, hrest⟩ := h
    refine ⟨released, lockOutput, ?_, hrest⟩
    exact {
      outputs_eq := houtputs
      lock_eq := hlock
      isFree := hfree
      isReleased := List.forall₂_iff_zip.mpr ⟨hcount, fun h ↦ hall _ _ h⟩
      deactivate_signed := ⟨command, hcommand, by simpa using hsigner⟩
      unlockSigners_mem := by simpa using hmissing
      attachments_ne_nil := by simpa using hproofs }
  · rintro ⟨released, lockOutput, h, hrest⟩
    have hlast : c.outputs.getLast? = some lockOutput := by
      rw [h.outputs_eq, List.getLast?_concat]
    have hreleased : c.outputs.dropLast = released := by rw [h.outputs_eq, List.dropLast_concat]
    have hmissing : lock.unlockSigners.find? (!c.requiredKeys.contains ·) = none := by
      simpa using h.unlockSigners_mem
    obtain ⟨hcount, hall⟩ := List.forall₂_iff_zip.mp h.isReleased
    obtain ⟨command, hcommand, hsigner⟩ := h.deactivate_signed
    simp only [hlast, hmissing, hreleased, bind_eq_ok_iff, mapM_fetch_eq_ok_iff, require_eq_ok_iff,
      exists_const, Bool.and_eq_true, beq_iff_eq, Bool.not_eq_true', forM_eq_ok_iff,
      checkReleased_eq_ok_iff, Prod.forall, command_eq_ok_iff, requireSigner_eq_ok_iff,
      discard_eq_ok_iff, mapError_eq_ok_iff]
    exact ⟨⟨h.lock_eq, h.isFree⟩, hcount, fun _ _ ↦ hall, command, hcommand,
      hsigner _ (by simp), by simpa using h.attachments_ne_nil, hrest⟩

/-! ### The other rules -/

theorem signedFor_singleton_iff {kind : CommandKind} {key : PublicKey} :
    SignedFor c kind [key] ↔ ∃ found, command c kind = .ok found ∧ key ∈ found.signers := by
  simp only [SignedFor, command_eq_ok_iff, List.forall_mem_singleton]

theorem checkRequest_eq_ok_iff :
    checkRequest c inputs = .ok () ↔ inputs = [] ∧ ∃ e request, c.outputs = [e] ∧
      e.request? = some request ∧ request.entities ≠ [] ∧
      request.issuer.key ∉ request.extraSigners ∧
      SignedFor c .createRequest [request.requester] := by
  unfold checkRequest
  simp only [bind_eq_ok_iff, require_eq_ok_iff, List.isEmpty_iff, exists_const]
  rw [and_congr_right_iff]
  intro _
  split
  · rename_i only honly
    cases hrequest : only.request? with
    | none => simp [honly, hrequest]
    | some request => simp [honly, hrequest, bind_eq_ok_iff, signedFor_singleton_iff]
  · rename_i hmany
    rw [refuse_eq_error, error_bind_eq]
    simp only [reduceCtorEq, false_iff, not_exists, not_and]
    exact fun e _ houtputs ↦ absurd houtputs (hmany e)

theorem checkReject_eq_ok_iff :
    checkReject c inputs = .ok () ↔ c.outputs = [] ∧ ∃ request, soleRequest inputs = .ok request ∧
      SignedFor c .rejectRequest [request.issuer.key] := by
  unfold checkReject
  simp only [bind_eq_ok_iff, require_eq_ok_iff, List.isEmpty_iff, exists_const,
    requireSigner_eq_ok_iff, ← signedFor_singleton_iff, and_left_comm, exists_and_left]

theorem checkDelete_eq_ok_iff :
    checkDelete c inputs = .ok () ↔ c.outputs = [] ∧ ∃ lock, consumedLock inputs = .ok lock ∧
      SignedFor c .deleteLock [lock.requester] := by
  unfold checkDelete
  simp only [bind_eq_ok_iff, require_eq_ok_iff, List.isEmpty_iff, exists_const,
    requireSigner_eq_ok_iff, ← signedFor_singleton_iff, and_left_comm, exists_and_left]

theorem checkAssets_eq_ok_iff :
    checkAssets c inputs = .ok () ↔ (∀ e ∈ c.outputs, e.payload.isAsset = true) ∧
      ∀ input ∈ inputs, input.entity.payload.isAsset = true ∧
        ∀ key ∈ input.entity.participants, key ∈ c.requiredKeys := by
  unfold checkAssets
  simp only [bind_eq_ok_iff, require_eq_ok_iff, List.all_eq_true, exists_const, forM_eq_ok_iff]
  rw [and_congr_right_iff]
  intro _
  apply forall₂_congr
  intro input _
  unfold checkAssetInput
  simp only [bind_eq_ok_iff, require_eq_ok_iff, exists_const]
  rw [and_congr_right_iff]
  intro _
  cases hmissing : input.entity.participants.find? (!c.requiredKeys.contains ·) with
  | none => simpa using hmissing
  | some missing =>
    have hunsigned := List.find?_some hmissing
    simp only [refuse_eq_error, reduceCtorEq, false_iff]
    intro hall
    simp [hall missing (List.mem_of_find?_eq_some hmissing)] at hunsigned

/-! ### All rules together -/

/-- The rule of the step taken, or that of asset transactions. -/
def checkStep [Cryptosystem] (c : Content) (inputs : List Located) (attachments : Attachments) :
    Option Step → Except RuleError Unit
  | some .request => checkRequest c inputs
  | some .reissue => checkReissue c inputs
  | some .reject => checkReject c inputs
  | some .unlock => checkUnlock c inputs attachments
  | some .delete => checkDelete c inputs
  | none => checkAssets c inputs

theorem check_eq_ok_iff [Cryptosystem] {attachments : Attachments} :
    check c inputs attachments = .ok () ↔ c.WellFormed ∧ c.Matches inputs ∧
      ∃ step, stepOf c = .ok step ∧ checkStep c inputs attachments step = .ok () := by
  unfold check
  rw [bind_eq_ok_iff]
  simp only [bind_eq_ok_iff, mapError_eq_ok_iff, Content.checkStructure_eq_ok_iff,
    Content.checkEncumbrances_eq_ok_iff, exists_const]
  rw [and_congr_right_iff]
  intro _
  rw [and_congr_right_iff]
  intro _
  apply exists_congr
  intro step
  rw [and_congr_right_iff]
  intro _
  cases step with
  | none => rfl
  | some step => cases step <;> rfl

end Rules

end Custody
