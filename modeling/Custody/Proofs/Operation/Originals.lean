import Mathlib.Data.Finset.Card
import Custody.Proofs.Operation.Drafts
import Custody.Proofs.Rules.RoundTrip

/-!
# Copies and originals

A re-issuance makes one copy for each reference that the request names, and an unlocking releases
one entity for each reference in the snapshot, while exit proofs are held against the references as
a set. The two counts agree exactly when no reference is named twice. The node that drafts a request
sees to that, but the rules do not: they accept a request for any references, whether or not they
repeat, and so a single exit may release two copies.
-/

namespace Custody

/-- The entity asking for other entities, if it is a request. -/
def Entity.asking (e : Entity) (entities : List OutputRef) : Entity :=
  match e.payload with
  | .request request => { e with payload := .request { request with entities } }
  | _ => e

/-- The content with every request it produces asking for other entities. -/
def Content.asking (c : Content) (entities : List OutputRef) : Content :=
  { c with outputs := c.outputs.map (·.asking entities) }

namespace Entity

variable {e : Entity} {entities : List OutputRef}

@[simp]
theorem encumbrance_asking : (e.asking entities).encumbrance = e.encumbrance := by
  unfold asking
  split <;> rfl

@[simp]
theorem notary_asking : (e.asking entities).notary = e.notary := by
  unfold asking
  split <;> rfl

theorem request?_asking {request : Request} (h : e.request? = some request) :
    (e.asking entities).request? = some { request with entities } := by
  unfold asking
  rw [request?_eq_some_iff.mp h]
  rfl

end Entity

/-- What a content must be like to be well formed does not depend on what is asked for. -/
theorem Content.WellFormed.asking {c : Content} (h : c.WellFormed) (entities : List OutputRef) :
    (c.asking entities).WellFormed := by
  refine ⟨h.commands_ne_nil, h.signers_ne_nil, h.inputs_nodup, h.attachments_nodup, ?_⟩
  intro index output houtput
  rw [Content.asking, List.getElem?_map, Option.map_eq_some_iff] at houtput
  obtain ⟨e, he, rfl⟩ := houtput
  have hwell := h.output index e he
  refine ⟨?_, ?_, ?_⟩
  · simpa [Content.asking] using hwell.partner_lt
  · simpa using hwell.partner_ne
  · simpa [Content.asking] using hwell.notary_eq

/-- As many references as there are different ones: none is named twice. -/
theorem length_eq_card_toFinset_iff {refs : List OutputRef} :
    refs.length = refs.toFinset.card ↔ refs.Nodup :=
  eq_comm.trans Multiset.toFinset_card_eq_card_iff_nodup

namespace Rules

section

variable [Cryptosystem] {c : Content} {inputs : List Located} {attachments : Attachments}

/-- A request that is accepted is accepted for any other entities, repeated or not. -/
theorem check_asking (h : check c inputs attachments = .ok ())
    (hcommand : ∃ command ∈ c.commands, command.kind = .createRequest)
    {entities : List OutputRef} (hentities : entities ≠ []) :
    check (c.asking entities) inputs attachments = .ok () := by
  obtain ⟨hwell, hmatch, step, hstep, hcheck⟩ := check_eq_ok_iff.mp h
  obtain ⟨command, hmem, hkind⟩ := hcommand
  obtain rfl := eq_of_mem_of_stepOf hstep hmem (CommandKind.step?_eq_request_iff.mpr hkind)
  obtain ⟨hempty, e, request, honly, hrequest, -, hissuer, hsigned⟩ :=
    checkRequest_eq_ok_iff.mp hcheck
  have hmatch' : (c.asking entities).Matches inputs := ⟨hmatch.refs_eq, hmatch.partner_mem⟩
  refine check_eq_ok_iff.mpr ⟨hwell.asking entities, hmatch', some .request, hstep, ?_⟩
  refine checkRequest_eq_ok_iff.mpr ⟨hempty, e.asking entities, { request with entities }, ?_,
    Entity.request?_asking hrequest, hentities, hissuer, hsigned⟩
  rw [Content.asking, honly, List.map_singleton]

omit [Cryptosystem] in
/-- A re-issuance makes as many copies as there are different originals exactly when the request
names none twice. -/
theorem Reissues.length_copies_eq_card_iff {request : Request} {copies : List Entity}
    {lockEntity : Entity} {lock : Lock} (h : Reissues c request copies lockEntity lock) :
    copies.length = lock.snapshotRefs.toFinset.card ↔ request.entities.Nodup := by
  have hlength : copies.length = request.entities.length := by
    rw [h.isCopy.length_eq, ← h.snapshot_eq, Lock.snapshotRefs, List.length_map]
  rw [hlength, h.snapshot_eq]
  exact length_eq_card_toFinset_iff

/-- What proofs for the release of a lock show to be consumed is its snapshot, each reference
counted once. -/
theorem toFinset_consumed_of_verifyRelease {lock : Lock} {proofs : List (AttachmentId × Bytes)}
    {verified : List ExitProof} (h : ExitProof.verifyRelease lock proofs = .ok verified) :
    (verified.flatMap ExitProof.consumed).toFinset = lock.snapshotRefs.toFinset := by
  rw [ExitProof.verifyRelease, Outcome.bind_eq_ok_iff] at h
  obtain ⟨snapshot, hsnapshot, h⟩ := h
  obtain rfl : lock.snapshot = snapshot := by
    unfold ExitProof.snapshotOf at hsnapshot
    split at hsnapshot
    · cases hsnapshot
    · exact Except.ok.inj hsnapshot
  obtain ⟨exits, -, hcovered, rfl⟩ := ExitProof.verifyAll_eq_ok_iff.mp h
  ext r
  rw [List.mem_toFinset, List.mem_toFinset, List.mem_flatMap]
  constructor
  · rintro ⟨proof, hproof, hr⟩
    obtain ⟨t, -, rfl⟩ := List.mem_map.mp hproof
    exact List.mem_map.mpr (ExitProof.mem_consumed_iff.mp hr).1
  · intro hr
    obtain ⟨t, ht, hinput⟩ := hcovered r hr
    exact ⟨_, List.mem_map_of_mem ht, ExitProof.mem_consumed_iff.mpr ⟨List.mem_map.mp hr, hinput⟩⟩

omit [Cryptosystem] in
/-- What a node drafts itself asks for each entity once. -/
theorem nodup_of_draftRequest {n : Node} {stamp : Stamp} {terms : RequestTerms}
    {sharesHistory : Bool} :
    Outcome.Ends (n.draftRequest stamp terms sharesHistory) fun p ↦
      ∀ e ∈ p.content.outputs, ∀ request, e.request? = some request → request.entities.Nodup := by
  unfold Node.draftRequest
  apply Outcome.ends_bind
  intro _ hcheck
  obtain ⟨-, hnodup, -⟩ := RequestTerms.check_eq_ok_iff.mp hcheck
  have hproduced : ∀ participants, ∀ e ∈ [(⟨.request ⟨terms.issuer, terms.requester, terms.entities,
      terms.issuanceCommand, terms.extraSigners⟩, participants, stamp.notary, none⟩ : Entity)],
      ∀ request, e.request? = some request → request.entities.Nodup := by
    intro participants e he request hrequest
    obtain rfl := List.mem_singleton.mp he
    obtain rfl := Option.some.inj hrequest
    exact hnodup
  apply Outcome.ends_when
  intro _
  apply Outcome.ends_when
  intro _
  simp only
  split
  · apply Outcome.ends_bind
    intro _ _
    exact Outcome.ends_pure (hproduced _)
  · apply Outcome.ends_bind
    intro _ _
    exact Outcome.ends_pure (hproduced _)

/-- Of an accepted transaction: if it is a request that a node drafted, it asks for no entity twice,
but any other references would be accepted as well. If it re-issues, the snapshot lists what the
request names, and there are as many copies as different originals exactly when nothing is named
twice. If it unlocks, the attached proofs show each reference of the snapshot to be consumed, and as
many entities are released as references are consumed exactly when none is in the snapshot twice. -/
theorem copies_of_check (h : check c inputs attachments = .ok ()) :
    ((∃ command ∈ c.commands, command.kind = .createRequest) →
      (∀ (n : Node) stamp terms sharesHistory p,
        n.draft stamp (.request terms sharesHistory) = .ok p → p.content = c →
          ∀ e ∈ c.outputs, ∀ request, e.request? = some request → request.entities.Nodup) ∧
      ∀ entities, entities ≠ [] → check (c.asking entities) inputs attachments = .ok ()) ∧
    ((∃ command ∈ c.commands, command.kind = .acceptRequest) →
      ∃ input request copies lockEntity lock, inputs = [input] ∧
        input.entity.payload = .request request ∧ c.outputs = copies ++ [lockEntity] ∧
        lockEntity.payload = .lock lock ∧ lock.snapshotRefs = request.entities ∧
        copies.length = lock.snapshotRefs.length ∧
        (copies.length = lock.snapshotRefs.toFinset.card ↔ request.entities.Nodup)) ∧
    ((∃ command ∈ c.commands, command.kind = .deactivateLock) →
      ∃ lockRef lock released lockOutput proofs verified, ConsumesLock inputs lockRef lock ∧
        c.outputs = released ++ [lockOutput] ∧ Holds attachments c.attachments proofs ∧
        ExitProof.verifyRelease lock proofs = .ok verified ∧
        released.length = lock.snapshotRefs.length ∧
        (released.length = (verified.flatMap ExitProof.consumed).toFinset.card ↔
          lock.snapshotRefs.Nodup)) := by
  refine ⟨fun hcommand ↦ ⟨?_, fun _ ↦ check_asking h hcommand⟩, ?_, ?_⟩
  · rintro n stamp terms sharesHistory p hdraft rfl
    exact nodup_of_draftRequest p hdraft
  · intro hcommand
    obtain ⟨-, request, copies, lockEntity, lock, hsole, hreissues⟩ :=
      exists_reissues_of_check h hcommand
    obtain ⟨input, rfl, hrequest⟩ := soleRequest_eq_ok_iff.mp hsole
    refine ⟨input, request, copies, lockEntity, lock, rfl, Entity.request?_eq_some_iff.mp hrequest,
      hreissues.outputs_eq, Entity.lock?_eq_some_iff.mp hreissues.lock_eq, hreissues.snapshot_eq,
      ?_, hreissues.length_copies_eq_card_iff⟩
    rw [hreissues.isCopy.length_eq, Lock.snapshotRefs, List.length_map]
  · rintro ⟨command, hmem, hkind⟩
    obtain ⟨-, -, step, hstep, hcheck⟩ := check_eq_ok_iff.mp h
    obtain rfl := eq_of_mem_of_stepOf hstep hmem (CommandKind.step?_eq_unlock_iff.mpr hkind)
    obtain ⟨lock, released, lockOutput, proofs, verified, hconsumed, hunlocks, hholds, hverified⟩ :=
      checkUnlock_eq_ok_iff.mp hcheck
    obtain ⟨lockRef, hconsumes⟩ := consumedLock_eq_ok_iff.mp hconsumed
    have hlength : released.length = lock.snapshotRefs.length := by
      rw [hunlocks.isReleased.length_eq, Lock.snapshotRefs, List.length_map]
    refine ⟨lockRef, lock, released, lockOutput, proofs, verified, hconsumes,
      hunlocks.outputs_eq, hholds, hverified, hlength, ?_⟩
    rw [hlength, toFinset_consumed_of_verifyRelease hverified]
    exact length_eq_card_toFinset_iff

end

/-! ### Named once, and named twice -/

open ExitProof.Pair
open Trial (key notary)

namespace Pair

theorem copies_of_reissue :
    @check .clear reissue.content [request] ∅ = .ok () ∧ lock.snapshotRefs.Nodup ∧
      ∃ copies, ∃ lockEntity : Entity, reissue.content.outputs = copies ++ [lockEntity] ∧
        lockEntity.payload = .lock lock ∧ copies.length = lock.snapshotRefs.toFinset.card := by
  have hcheck : @check .clear reissue.content [request] ∅ = .ok () := by decide +kernel
  have hnodup : lock.snapshotRefs.Nodup := by decide
  obtain ⟨-, hcopies, -⟩ := @copies_of_check .clear _ _ _ hcheck
  obtain ⟨_, _, copies, lockEntity, held, -, -, houtputs, hheld, hrefs, -, hcount⟩ :=
    hcopies (by decide)
  have hlast : lockEntity.payload = .lock lock := by
    have hlast := congrArg List.getLast? houtputs
    rw [List.getLast?_concat] at hlast
    rw [← Option.some.inj hlast]
    rfl
  obtain rfl := Payload.lock.inj (hheld.symm.trans hlast)
  exact ⟨hcheck, hnodup, copies, lockEntity, houtputs, hheld, hcount.mpr (hrefs ▸ hnodup)⟩

end Pair

namespace Twice

/-- A request that names the first entity twice. -/
def request : Located :=
  { Pair.request with entity := Pair.request.entity.asking [first.ref, first.ref] }

def ask : Content where
  inputs := []
  outputs := [request.entity]
  commands := [.signedBy .createRequest [key 2]]
  notary := notary
  attachments := []
  salt := .replicate 32 0

def lock : Lock := { ExitProof.Pair.lock with snapshot := [first, first] }

/-- Two copies of the one entity. -/
def reissue : Transaction where
  id := Pair.reissue.id
  content := { Pair.reissue.content with
    outputs := [{ first.entity with encumbrance := some 2 },
      { first.entity with encumbrance := some 2 }, ⟨.lock lock, [key 2, key 1], notary, some 0⟩] }
  endorsements := []

/-- Both are released for one exit. -/
def unlock : Content := { Pair.unlock with
  outputs := [first.entity, first.entity, ⟨.lock lock.deactivated, [key 2, key 1], notary, none⟩]
  attachments := [(stored (exit first)).1] }

def blobs : Attachments := @Attachments.addAll .clear ∅ [(stored (exit first)).2]

theorem check_ask : @check .clear ask [] ∅ = .ok () := by decide +kernel

theorem check_reissue : @check .clear reissue.content [request] ∅ = .ok () := by decide +kernel

theorem check_unlock : @check .clear unlock reissue.located.reverse blobs = .ok () := by
  decide +kernel

/-- Neither requests nor snapshots are free of repeats, and one exit releases two copies. -/
theorem not_nodup_of_check :
    (¬ ∀ (c : Content) (inputs : List Located) (attachments : Attachments),
      @check .clear c inputs attachments = .ok () →
        (∃ command ∈ c.commands, command.kind = .createRequest) →
        ∀ e ∈ c.outputs, ∀ request, e.request? = some request → request.entities.Nodup) ∧
    (¬ ∀ (c : Content) (inputs : List Located) (attachments : Attachments),
      @check .clear c inputs attachments = .ok () →
        (∃ command ∈ c.commands, command.kind = .acceptRequest) →
        ∀ e ∈ c.outputs, ∀ lock, e.lock? = some lock → lock.snapshotRefs.Nodup) ∧
    ¬ ∀ (c : Content) (inputs : List Located) (attachments : Attachments),
      @check .clear c inputs attachments = .ok () →
        (∃ command ∈ c.commands, command.kind = .deactivateLock) →
        ∀ t, c.attachments = [(stored t).1] → attachments[(stored t).1]? = some (encode t) →
          c.outputs.length ≤ t.content.inputs.length + 1 := by
  refine ⟨fun hall ↦ ?_, fun hall ↦ ?_, fun hall ↦ ?_⟩
  · have hnodup := hall ask [] ∅ check_ask (by decide) request.entity (List.mem_singleton_self _) _
      rfl
    exact absurd hnodup (by decide)
  · have hnodup := hall reissue.content [request] ∅ check_reissue (by decide) _
      (List.mem_of_getLast? rfl) lock rfl
    exact absurd hnodup (by decide)
  · have hcount := hall unlock _ blobs check_unlock (by decide) (exit first) rfl (by decide +kernel)
    exact absurd hcount (by decide)

end Twice

end Rules

end Custody
