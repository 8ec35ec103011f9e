import Custody.Proofs.Operation.Copies
import Custody.Proofs.Operation.Drafts

/-!
# Releases obey the rules

Unlocking and deleting take a live active lock and copies that the vault holds, checked by position
and encumbrance. In a coherent node the lock is the last output of a re-issuance, so the copies
gathered are its other outputs, all of them, in order. They are assets as the snapshot has them, and
the lock points at one of them; so they are what the rules want consumed with the lock.
-/

namespace Custody

namespace Node

open Outcome

variable {n : Node} {lock : Located} {state : Lock} {copies : List Located}

/-- A live active lock and live copies that it encumbers, each at its own position, as many as its
snapshot has entries. -/
structure Gathers (n : Node) (lock : Located) (state : Lock) (copies : List Located) : Prop where
  lock_live : n.ledger.vault.live? lock.ref = some lock
  lock_eq : lock.entity.lock? = some state
  isActive : state.isActive = true
  live : ∀ copy ∈ copies, n.ledger.vault.live? copy.ref = some copy
  length_eq : copies.length = state.snapshot.length
  governed : ∀ (position : Nat) (copy : Located), copies[position]? = some copy →
    copy.ref.transaction = lock.ref.transaction ∧ copy.ref.index.toNat = position ∧
      copy.entity.encumbrance = some lock.ref.index

/-- The checks of a release gather a lock with its copies. -/
theorem exists_gathers {given : Located} {givenCopies governed inputs : List Located}
    (hlock : n.requireOwnLock given = .ok (lock, state))
    (hgoverned : n.requireStored givenCopies = .ok governed)
    (hinputs : governedInputs lock state governed = .ok inputs) :
    ∃ copies, inputs = copies ++ [lock] ∧ n.Gathers lock state copies := by
  obtain ⟨hheld, hstate, hactive, -⟩ := requireOwnLock_eq_ok_iff.mp hlock
  obtain ⟨hlive, -⟩ := requireStoredOne_eq_ok_iff.mp hheld
  obtain ⟨hunder, hsplit⟩ := governedInputs_eq_ok_iff.mp hinputs
  have hperm : (Located.byPosition governed).Perm governed := Located.byPosition_perm
  refine ⟨_, hsplit, live_of_live hlive, hstate, hactive, ?_, ?_, ?_⟩
  · exact fun copy hcopy ↦ live_of_requireStored hgoverned copy (hperm.mem_iff.mp hcopy)
  · rw [hperm.length_eq, hunder.length_eq]
  · intro position copy hcopy
    have hmem := hperm.mem_iff.mp (List.mem_of_getElem? hcopy)
    exact ⟨hunder.transaction_eq copy hmem, hunder.position_eq hcopy,
      hunder.encumbrance_eq copy hmem⟩

variable [Cryptosystem]

namespace Gathers

/-- What is gathered is what a re-issuance produced: its copies in order and its lock. -/
theorem exists_reissues (hgathers : n.Gathers lock state copies) (h : n.Coherent) :
    ∃ (t : Transaction) (request : Request), t.content.WellFormed ∧
      Rules.Reissues t.content request (copies.map Located.entity) lock.entity state ∧
      lock.ref.index.toNat = copies.length := by
  obtain ⟨t, request, produced, ht, hwell, hreissues, hindex⟩ :=
    h.exists_reissues_of_live hgathers.lock_live hgathers.lock_eq hgathers.isActive
  have hcount : copies.length = produced.length := by
    rw [hgathers.length_eq, hreissues.isCopy.length_eq]
  have hentities : copies.map Located.entity = produced := by
    apply List.ext_getElem
    · rw [List.length_map, hcount]
    · intro position hposition hproduced
      rw [List.length_map] at hposition
      have hcopy := List.getElem?_eq_getElem hposition
      obtain ⟨htransaction, hsame, -⟩ := hgathers.governed position _ hcopy
      obtain ⟨source, hsource, houtput⟩ :=
        h.exists_source_of_live (hgathers.live _ (List.getElem_mem hposition))
      rw [htransaction, ht, Option.some.injEq] at hsource
      rw [← hsource, hsame, hreissues.getElem?_copy hproduced, Option.some.injEq] at houtput
      rw [List.getElem_map, houtput]
  exact ⟨t, request, hwell, hentities ▸ hreissues, hcount ▸ hindex⟩

omit [Cryptosystem] in
/-- The positions of what is gathered are those from the first to the lock's. -/
theorem positions_eq (hgathers : n.Gathers lock state copies)
    (hindex : lock.ref.index.toNat = copies.length) :
    (copies ++ [lock]).map (fun e ↦ e.ref.index.toNat) = List.range (copies.length + 1) := by
  rw [List.map_append, List.range_succ, List.map_singleton, hindex]
  congr 1
  exact map_eq_range_iff.mpr fun position copy hcopy ↦ (hgathers.governed position copy hcopy).2.1

omit [Cryptosystem] in
theorem nodup_refs (hgathers : n.Gathers lock state copies)
    (hindex : lock.ref.index.toNat = copies.length) :
    ((copies ++ [lock]).map Located.ref).Nodup := by
  apply List.Nodup.of_map fun r : OutputRef ↦ r.index.toNat
  rw [List.map_map]
  exact hgathers.positions_eq hindex ▸ List.nodup_range

omit [Cryptosystem] in
theorem ref_ne (hgathers : n.Gathers lock state copies)
    (hindex : lock.ref.index.toNat = copies.length) {copy : Located} (hcopy : copy ∈ copies) :
    copy.ref ≠ lock.ref := by
  obtain ⟨position, hposition⟩ := List.mem_iff_getElem?.mp hcopy
  obtain ⟨-, hsame, -⟩ := hgathers.governed position copy hposition
  have hlt := (List.getElem?_eq_some_iff.mp hposition).1
  intro href
  rw [href, hindex] at hsame
  omega

/-- The lock is consumed with what it governs and nothing else. -/
theorem consumesLock (hgathers : n.Gathers lock state copies) (h : n.Coherent) :
    Rules.ConsumesLock (copies ++ [lock]) lock.ref state := by
  obtain ⟨t, request, -, hreissues, hindex⟩ := hgathers.exists_reissues h
  apply Rules.ConsumesLock.of_perm hgathers.lock_eq hgathers.isActive hreissues.holdsAssets
    (fun _ ↦ hgathers.ref_ne hindex) ?_ hgathers.length_eq ?_ (List.Perm.refl _)
  · intro copy hcopy
    obtain ⟨position, hposition⟩ := List.mem_iff_getElem?.mp hcopy
    obtain ⟨htransaction, -, hencumbrance⟩ := hgathers.governed position copy hposition
    exact Rules.isGoverned_eq_true_iff.mpr ⟨htransaction, hencumbrance⟩
  · intro copy hcopy
    obtain ⟨position, hposition⟩ := List.mem_iff_getElem?.mp hcopy
    obtain ⟨-, hsame, -⟩ := hgathers.governed position copy hposition
    have hentity : (copies.map Located.entity)[position]? = some copy.entity := by
      rw [List.getElem?_map, hposition, Option.map_some]
    obtain ⟨entry, hentry, hisCopy⟩ := exists_of_getElem?_right hreissues.isCopy.flip hentity
    exact ⟨entry, hsame ▸ hentry, hisCopy.payload_eq.symm⟩

/-- No encumbered input is without its partner: copies point at the lock, and the lock at a copy. -/
theorem matches_of_inputs_eq (hgathers : n.Gathers lock state copies) (h : n.Coherent)
    {c : Content} (hinputs : c.inputs = (copies ++ [lock]).map Located.ref) :
    c.Matches (copies ++ [lock]) := by
  obtain ⟨t, request, hwell, hreissues, hindex⟩ := hgathers.exists_reissues h
  have hlength : t.content.outputs.length = copies.length + 1 := by
    rw [hreissues.length_outputs, List.length_map]
  have hsize := hreissues.length_outputs_lt hwell
  refine ⟨hinputs.symm, fun input hinput partner hpartner ↦ ?_⟩
  rw [hinputs]
  rcases List.mem_append.mp hinput with hcopy | hself
  · obtain ⟨position, hposition⟩ := List.mem_iff_getElem?.mp hcopy
    obtain ⟨htransaction, -, hencumbrance⟩ := hgathers.governed position input hposition
    rw [hpartner, Option.some.injEq] at hencumbrance
    rw [htransaction, hencumbrance]
    exact List.mem_map_of_mem (List.mem_append_right _ (List.mem_singleton_self lock))
  · rw [List.mem_singleton.mp hself] at hpartner ⊢
    have hlock := hreissues.getElem?_lock
    have houtput := hwell.output _ _ hlock
    have hlt := houtput.partner_lt partner hpartner
    have hne : partner ≠ .ofNat copies.length := by
      intro heq
      rw [List.length_map, ← heq] at houtput
      exact houtput.partner_ne hpartner
    rw [UInt32.lt_iff_toNat_lt, UInt32.toNat_ofNat_of_lt' hsize, hlength] at hlt
    rw [ne_eq, ← UInt32.toNat_inj,
      UInt32.toNat_ofNat_of_lt' (show copies.length < 2 ^ 32 by omega)] at hne
    have hposition : partner.toNat < copies.length := by omega
    obtain ⟨htransaction, hsame, -⟩ :=
      hgathers.governed _ _ (List.getElem?_eq_getElem hposition)
    have href : copies[partner.toNat].ref = ⟨lock.ref.transaction, partner⟩ :=
      congrArg₂ OutputRef.mk htransaction (UInt32.toNat_inj.mp hsame)
    rw [← href]
    exact List.mem_map_of_mem (List.mem_append_left _ (List.getElem_mem hposition))

/-- Consuming what is gathered obeys the rules, if nothing encumbers what is produced and the step
that is taken finds nothing to refuse. -/
theorem judge_eq_ok (hgathers : n.Gathers lock state copies) (h : n.Coherent) {c : Content}
    (step : Step) (hinputs : c.inputs = (copies ++ [lock]).map Located.ref)
    (hsigners : ∀ command ∈ c.commands, command.signers ≠ []) (hattachments : c.attachments.Nodup)
    (houtputs : ∀ e ∈ c.outputs, e.encumbrance = none ∧ e.notary = c.notary)
    (hsteps : Rules.steps c = [step]) (hlock : ∀ command ∈ c.commands, command.kind ≠ .createLock)
    (hcheck : Rules.checkStep c (copies ++ [lock]) n.attachments step = .ok ()) :
    n.judge c = .ok () := by
  obtain ⟨_, _, _, _, hindex⟩ := hgathers.exists_reissues h
  refine h.judge_eq_ok _ (hgathers.matches_of_inputs_eq h hinputs) ?_ ?_
    (Rules.stepOf_of_steps (some step) hsteps (.inr hlock)) hcheck
  · intro e he
    rcases List.mem_append.mp he with hcopy | hself
    · exact hgathers.live e hcopy
    · rw [List.mem_singleton.mp hself]
      exact hgathers.lock_live
  · refine Content.wellFormed_of_free ?_ hsigners ?_ hattachments houtputs
    · intro hnone
      rw [Rules.steps, hnone] at hsteps
      cases hsteps
    · rw [hinputs]
      exact hgathers.nodup_refs hindex

end Gathers

/-! ### Unlocking -/

omit [Cryptosystem] in
theorem proofs_ne_nil_of_check {terms : UnlockTerms} {u : Unit} (h : terms.check = .ok u) :
    terms.proofs ≠ [] := by
  unfold UnlockTerms.check invalidArgument at h
  simp only [error_bind_eq, ite_error_eq_ok_iff, List.isEmpty_iff] at h
  exact h.2.2.1

omit [Cryptosystem] in
theorem holds_of_requireProof {ids : List AttachmentId} {proofs : List (AttachmentId × Bytes)}
    (h : ids.mapM n.requireProof = .ok proofs) : Rules.Holds n.attachments ids proofs := by
  refine (mapM_eq_ok_iff.mp h).imp fun id proof hproof ↦ ?_
  unfold requireProof invalidArgument at hproof
  split at hproof
  · rename_i blob hfetch
    obtain rfl := Except.ok.inj hproof
    exact ⟨rfl, Rules.fetch_eq_ok_iff.mp hfetch⟩
  · cases hproof

/-- What is released comes from a re-issuance, so it can be counted in 32 bits with the lock. It
obeys the rules exactly if no proof is given twice. -/
theorem ends_draftUnlock_approves_iff (h : n.Coherent) {stamp : Stamp} {terms : UnlockTerms} :
    Ends (n.draftUnlock stamp terms) fun p ↦
      p.content.outputs.length < 2 ^ 32 ∧ (n.Approves p ↔ terms.proofs.Nodup) := by
  unfold draftUnlock
  apply ends_bind
  intro _ hcheck
  apply ends_bind
  intro (lock, state) hlock
  apply ends_bind
  intro governed hgoverned
  apply ends_bind
  intro inputs hinputs
  apply ends_bind
  intro proofs hheld
  apply ends_bind
  intro _ hverified
  simp only [discard_eq_ok_iff, mapError_eq_ok_iff] at hverified
  obtain ⟨verified, hverified⟩ := hverified
  obtain ⟨copies, rfl, hgathers⟩ := exists_gathers hlock hgoverned hinputs
  obtain ⟨_, _, hwell, hreissues, _⟩ := hgathers.exists_reissues h
  have hcount := hreissues.length_outputs_lt hwell
  rw [hreissues.length_outputs, List.length_map] at hcount
  rw [List.dropLast_concat]
  refine ends_pure ⟨by simpa [Stamp.content] using hcount, fun hjudge ↦ ?_, fun hproofs ↦
    hgathers.judge_eq_ok h .unlock rfl ?_ hproofs ?_ rfl ?_ ?_⟩
  · obtain ⟨_, -, hcheck⟩ := judge_eq_ok_iff.mp hjudge
    exact (Rules.check_eq_ok_iff.mp hcheck).1.attachments_nodup
  · simp [Stamp.content, Command.asset]
  · intro e he
    rcases List.mem_append.mp he with hreleased | hlast
    · obtain ⟨_, -, rfl⟩ := List.mem_map.mp hreleased
      exact ⟨rfl, rfl⟩
    · rw [List.mem_singleton.mp hlast]
      exact ⟨rfl, rfl⟩
  · simp [Stamp.content, Command.asset]
  · have hreleased := (List.forall₂_map_left_iff.mp hreissues.isCopy).imp
      fun (copy : Located) entry (hcopy : Rules.IsCopy _ copy.entity entry) ↦
        show Rules.IsReleased { copy.entity with notary := stamp.notary, encumbrance := none }
          entry from ⟨hcopy.payload_eq, hcopy.participants_eq, rfl⟩
    refine Rules.checkUnlock_eq_ok_iff.mpr ⟨state, _, _, proofs, verified,
      Rules.consumedLock_eq_ok_iff.mpr ⟨_, hgathers.consumesLock h⟩,
      ⟨rfl, rfl, rfl, List.forall₂_map_left_iff.mpr hreleased,
        ⟨.signedBy .deactivateLock [state.requester], rfl, by simp⟩, ?_,
        proofs_ne_nil_of_check hcheck⟩,
      holds_of_requireProof hheld, hverified⟩
    intro key hkey
    rw [Content.mem_requiredKeys_iff]
    simp [Stamp.content, Command.asset, hkey]

/-! ### Deleting -/

theorem ends_draftDelete_approves (h : n.Coherent) {stamp : Stamp} {terms : DeleteTerms} :
    Ends (n.draftDelete stamp terms) n.Approves := by
  unfold draftDelete
  apply ends_bind
  intro _ _
  apply ends_bind
  intro (lock, state) hlock
  apply ends_bind
  intro governed hgoverned
  apply ends_bind
  intro inputs hinputs
  obtain ⟨copies, rfl, hgathers⟩ := exists_gathers hlock hgoverned hinputs
  refine ends_pure (hgathers.judge_eq_ok h .delete rfl ?_ List.nodup_nil nofun rfl ?_ ?_)
  · by_cases hnobody : terms.signers = []
    · simp [Stamp.content, Command.asset, hnobody]
    · simp [Stamp.content, Command.asset, hnobody]
  · simp [Stamp.content, Command.asset]
  · exact Rules.checkDelete_eq_ok_iff.mpr ⟨rfl, state,
      Rules.consumedLock_eq_ok_iff.mpr ⟨_, hgathers.consumesLock h⟩,
      .signedBy .deleteLock [state.requester], rfl, by simp⟩

/-! ### Any operation -/

/-- Whatever a coherent node proposes, its outputs can be counted in 32 bits. -/
theorem Coherent.length_outputs_lt_of_propose (h : n.Coherent) {stamp : Stamp}
    {operation : Operation} {p : Proposal} (hp : n.propose stamp operation = .ok p) :
    p.content.outputs.length < 2 ^ 32 := by
  obtain ⟨hdraft, hjudge⟩ := propose_eq_ok_iff.mp hp
  have hsmall {step : Option Step} (hdrafted : Drafted step p) :
      p.content.outputs.length < 2 ^ 32 :=
    Nat.lt_of_le_of_lt hdrafted.length_outputs_le (by decide)
  cases operation with
  | issue asset holder =>
    rw [← pure_eq_ok_iff.mp hdraft] at hsmall ⊢
    exact hsmall drafted_draftIssue
  | move asset holder => exact hsmall (ends_draftMove p hdraft)
  | exit asset => exact hsmall (ends_draftExit p hdraft)
  | request terms sharesHistory => exact hsmall (ends_draftRequest p hdraft)
  | accept terms => exact (ends_draftAccept_approves_iff h p hdraft).mp hjudge
  | reject request => exact hsmall (ends_draftReject p hdraft)
  | unlock terms => exact (ends_draftUnlock_approves_iff h p hdraft).1
  | delete terms => exact hsmall (ends_draftDelete p hdraft)

end Node

/-- What an operation is meant for, beyond what it checks itself: only a spendable asset is moved or
exited, and copies are unlocked against each proof once. -/
def Operation.Suits : Operation → Prop
  | move asset _ | exit asset => Node.Spendable asset.entity
  | unlock terms => terms.proofs.Nodup
  | issue _ _ | request _ _ | accept _ | reject _ | delete _ => True

/-- What a coherent node drafts it finds to obey the rules, exactly if the operation is used as it
is meant; a re-issuance, exactly if its outputs can be counted in 32 bits. -/
theorem Node.Coherent.approves_iff_of_draft {n : Node} [Cryptosystem] (h : n.Coherent)
    {stamp : Stamp} {operation : Operation} {p : Proposal}
    (hp : n.draft stamp operation = .ok p) :
    n.Approves p ↔ operation.Suits ∧
      (operation.step? = some .reissue → p.content.outputs.length < 2 ^ 32) := by
  have hother (hne : operation.step? ≠ some .reissue) (hiff : n.Approves p ↔ operation.Suits) :
      n.Approves p ↔ operation.Suits ∧
        (operation.step? = some .reissue → p.content.outputs.length < 2 ^ 32) :=
    hiff.trans (and_iff_left fun hstep ↦ absurd hstep hne).symm
  cases operation with
  | issue asset holder =>
    rw [← Outcome.pure_eq_ok_iff.mp hp] at hother ⊢
    exact hother nofun (iff_true_intro (approves_draftIssue h))
  | move asset holder => exact hother nofun (ends_draftMove_approves_iff h p hp)
  | exit asset => exact hother nofun (ends_draftExit_approves_iff h p hp)
  | request terms sharesHistory =>
    exact hother nofun (iff_true_intro (ends_draftRequest_approves h p hp))
  | accept terms =>
    exact (ends_draftAccept_approves_iff h p hp).trans
      ⟨fun hsize ↦ ⟨trivial, fun _ ↦ hsize⟩, fun hsize ↦ hsize.2 rfl⟩
  | reject request => exact hother nofun (iff_true_intro (ends_draftReject_approves h p hp))
  | unlock terms => exact hother nofun (ends_draftUnlock_approves_iff h p hp).2
  | delete terms => exact hother nofun (iff_true_intro (ends_draftDelete_approves h p hp))

end Custody
