import Custody.Proofs.Node.Coherence
import Custody.Proofs.Operation

/-!
# Drafts obey the rules

What an operation of a coherent node drafts, the node finds to obey the rules: the checks an
operation makes of its arguments leave nothing for the rules to refuse. What is live resolves from
the archive as it is, so the inputs are as the vault shows them. Requests are consumed alone and are
free. The copies under a live lock are the outputs before it, so taking the lock with as many copies
as its snapshot has entries takes exactly what the re-issuance produced.
-/

namespace Custody

/-! ### Commands and contents -/

namespace Command

variable {kind : CommandKind} {signers : List PublicKey} {key : PublicKey}

@[simp]
theorem kind_signedBy : (signedBy kind signers).kind = kind := rfl

@[simp]
theorem mem_signers_signedBy : key ∈ (signedBy kind signers).signers ↔ key ∈ signers :=
  List.mem_eraseDups

@[simp]
theorem signers_signedBy_eq_nil_iff : (signedBy kind signers).signers = [] ↔ signers = [] := by
  simp only [List.eq_nil_iff_forall_not_mem, mem_signers_signedBy]

end Command

theorem RequestTerms.check_eq_ok_iff {terms : RequestTerms} {u : Unit} :
    terms.check = .ok u ↔ terms.entities ≠ [] ∧ terms.entities.Nodup ∧
      terms.issuanceCommand.isEmpty = false ∧ terms.issuer.key ∉ terms.extraSigners ∧
      terms.requester ∉ terms.extraSigners := by
  unfold check invalidArgument
  cases hrepeat : firstRepeat? terms.entities with
  | some entity =>
    have hnot : ¬ terms.entities.Nodup := by
      rw [← firstRepeat?_eq_none_iff, hrepeat]
      exact nofun
    simp [hnot]
  | none =>
    have hnodup := firstRepeat?_eq_none_iff.mp hrepeat
    simp [hnodup]

namespace Content

/-- Outputs that nothing encumbers are well formed wherever they stand. -/
theorem wellFormed_of_free {c : Content} (hcommands : c.commands ≠ [])
    (hsigners : ∀ command ∈ c.commands, command.signers ≠ []) (hinputs : c.inputs.Nodup)
    (hattachments : c.attachments.Nodup)
    (houtputs : ∀ e ∈ c.outputs, e.encumbrance = none ∧ e.notary = c.notary) : c.WellFormed := by
  refine ⟨hcommands, hsigners, hinputs, hattachments, fun index e he ↦ ?_⟩
  obtain ⟨hfree, hnotary⟩ := houtputs e (List.mem_of_getElem? he)
  refine ⟨?_, ?_, hnotary⟩
  · intro partner hpartner
    rw [hfree] at hpartner
    cases hpartner
  · rw [hfree]
    exact nofun

end Content

/-- The step that the commands stand for, if no lock is created in another step than re-issuing. -/
theorem Rules.stepOf_of_steps {c : Content} (step : Option Step) (hsteps : steps c = step.toList)
    (hlock : step = some .reissue ∨ ∀ command ∈ c.commands, command.kind ≠ .createLock) :
    stepOf c = .ok step := by
  refine stepOf_eq_ok_iff.mpr ⟨?_, ?_, ?_⟩
  · rw [hsteps]
    cases step with
    | none => exact Nat.zero_le 1
    | some _ => exact Nat.le_refl 1
  · rw [hsteps]
    exact step.head?_toList
  · intro hany
    obtain ⟨command, hmem, hkind⟩ := List.any_eq_true.mp hany
    rcases hlock with hlock | hnone
    · exact hlock
    · exact absurd (beq_iff_eq.mp hkind) (hnone command hmem)

namespace Node

open Outcome

variable {n : Node} {stamp : Stamp} {e held : Located}

/-! ### What the checks establish -/

theorem requireStoredOne_eq_ok_iff :
    n.requireStoredOne e = .ok held ↔
      n.ledger.vault.live? e.ref = some held ∧ e.entity = held.entity := by
  unfold requireStoredOne invalidArgument
  simp only [bind_eq_ok_iff, requireLive_eq_ok_iff, error_bind_eq, ite_error_eq_ok_iff, ne_eq,
    not_not, pure_eq_ok_iff]
  constructor
  · rintro ⟨_, hlive, hsame, rfl⟩
    exact ⟨hlive, hsame⟩
  · rintro ⟨hlive, hsame⟩
    exact ⟨held, hlive, hsame, rfl⟩

/-- What is found under a reference is located there. -/
theorem live_of_live {r : OutputRef} (h : n.ledger.vault.live? r = some e) :
    n.ledger.vault.live? e.ref = some e := by
  obtain ⟨-, -, rfl⟩ := Vault.live?_eq_some_iff.mp h
  exact h

theorem live_of_requireStored {given stored : List Located}
    (h : n.requireStored given = .ok stored) :
    ∀ e ∈ stored, n.ledger.vault.live? e.ref = some e := by
  obtain ⟨found, hfound, h⟩ := bind_eq_ok_iff.mp h
  split at h
  · cases h
  · obtain rfl := pure_eq_ok_iff.mp h
    intro e he
    obtain ⟨_, -, hlive⟩ := exists_of_mem_right (mapM_eq_ok_iff.mp hfound) he
    exact live_of_live (requireLive_eq_ok_iff.mp hlive)

theorem requireOwnLock_eq_ok_iff {lock : Lock} :
    n.requireOwnLock e = .ok (held, lock) ↔ n.requireStoredOne e = .ok held ∧
      held.entity.lock? = some lock ∧ lock.isActive = true ∧
      n.keyring.owns lock.requester = true := by
  unfold requireOwnLock
  rw [bind_eq_ok_iff]
  constructor
  · rintro ⟨found, hfound, h⟩
    split at h
    · rename_i state hstate
      simp only [invalidArgument, error_bind_eq, ite_error_eq_ok_iff, Bool.not_eq_true',
        Bool.not_eq_false, pure_eq_ok_iff, Prod.mk.injEq] at h
      obtain ⟨hactive, howns, rfl, rfl⟩ := h
      exact ⟨hfound, hstate, hactive, howns⟩
    · cases h
  · rintro ⟨hfound, hstate, hactive, howns⟩
    refine ⟨held, hfound, ?_⟩
    simp only [hstate, hactive, howns, Bool.not_true, Bool.false_eq_true, if_false]
    rfl

/-! ### Judging what is live -/

variable [Cryptosystem] {c : Content} {inputs : List Located} {step : Option Step}

namespace Coherent

theorem resolveInputs_eq (h : n.Coherent) (hrefs : inputs.map Located.ref = c.inputs)
    (hlive : ∀ e ∈ inputs, n.ledger.vault.live? e.ref = some e) :
    n.ledger.archive.resolveInputs c = .ok inputs := by
  rw [Archive.resolveInputs_eq_ok_iff, ← hrefs, List.forall₂_map_left_iff, List.forall₂_same]
  exact fun e he ↦ h.resolve_of_live (hlive e he)

/-- Content whose inputs are live is judged against them. -/
theorem judge_eq_ok_iff (h : n.Coherent) (hrefs : inputs.map Located.ref = c.inputs)
    (hlive : ∀ e ∈ inputs, n.ledger.vault.live? e.ref = some e) :
    n.judge c = .ok () ↔ Rules.check c inputs n.attachments = .ok () := by
  rw [Node.judge_eq_ok_iff, h.resolveInputs_eq hrefs hlive]
  simp only [Except.ok.injEq, exists_eq_left']

theorem judge_eq_ok (h : n.Coherent) (inputs : List Located) (hmatch : c.Matches inputs)
    (hlive : ∀ e ∈ inputs, n.ledger.vault.live? e.ref = some e) (hwell : c.WellFormed)
    (hstep : Rules.stepOf c = .ok step)
    (hcheck : Rules.checkStep c inputs n.attachments step = .ok ()) : n.judge c = .ok () := by
  rw [h.judge_eq_ok_iff hmatch.refs_eq hlive, Rules.check_eq_ok_iff]
  exact ⟨hwell, hmatch, step, hstep, hcheck⟩

end Coherent

/-- The node finds a proposal to obey the rules. -/
def Approves (n : Node) (p : Proposal) : Prop := n.judge p.content = .ok ()

/-! ### Holding assets -/

/-- An asset that nothing encumbers and in which somebody takes part. -/
structure Spendable (e : Entity) : Prop where
  isAsset : e.payload.isAsset = true
  isFree : e.encumbrance = none
  participants_ne_nil : e.participants ≠ []

omit [Cryptosystem] in
/-- What is live may be taken as the vault holds it. -/
theorem requireStoredOne_of_live (hlive : n.ledger.vault.live? e.ref = some e) :
    n.requireStoredOne e = .ok e := requireStoredOne_eq_ok_iff.mpr ⟨hlive, rfl⟩

omit [Cryptosystem] in
theorem exists_draftMove (hlive : n.ledger.vault.live? e.ref = some e) {holder : Party} :
    ∃ p, n.draftMove stamp e holder = .ok p := by
  unfold draftMove
  rw [requireStoredOne_of_live hlive]
  exact ⟨_, rfl⟩

omit [Cryptosystem] in
theorem exists_draftExit (hlive : n.ledger.vault.live? e.ref = some e) :
    ∃ p, n.draftExit stamp e = .ok p := by
  unfold draftExit
  rw [requireStoredOne_of_live hlive]
  exact ⟨_, rfl⟩

/-- Consuming a live asset under the signatures of its participants obeys the rules, whatever free
assets are produced. -/
theorem Coherent.judge_spend (h : n.Coherent) (hlive : n.ledger.vault.live? held.ref = some held)
    (hspendable : Spendable held.entity) {outputs : List Entity}
    (houtputs : ∀ e ∈ outputs, e.payload.isAsset = true ∧ e.encumbrance = none ∧
      e.notary = stamp.notary) {name : String} :
    n.judge (stamp.content [held.ref] outputs [.asset name held.entity.participants] []) =
      .ok () := by
  have hwell : (stamp.content [held.ref] outputs [.asset name held.entity.participants]
      []).WellFormed := by
    apply Content.wellFormed_of_free
    · exact List.cons_ne_nil _ _
    · simpa [Stamp.content, Command.asset] using hspendable.participants_ne_nil
    · exact List.nodup_singleton _
    · exact List.nodup_nil
    · exact fun e he ↦ (houtputs e he).2
  have hmatch : (stamp.content [held.ref] outputs [.asset name held.entity.participants]
      []).Matches [held] := by
    refine ⟨rfl, ?_⟩
    simp [hspendable.isFree]
  refine h.judge_eq_ok [held] hmatch ?_ hwell (Rules.stepOf_of_steps none rfl ?_) ?_
  · simpa using hlive
  · simp [Stamp.content, Command.asset]
  · refine Rules.checkAssets_eq_ok_iff.mpr ⟨fun e he ↦ (houtputs e he).1, ?_⟩
    simp [hspendable.isAsset, Content.mem_requiredKeys_iff, Stamp.content, Command.asset]

/-- Nothing else may be consumed so: an encumbered entity has a partner other than itself, which is
not consumed with it. -/
theorem Coherent.spendable_of_judge (h : n.Coherent)
    (hlive : n.ledger.vault.live? held.ref = some held) {outputs : List Entity} {name : String}
    (hjudge : n.judge (stamp.content [held.ref] outputs [.asset name held.entity.participants] []) =
      .ok ()) : Spendable held.entity := by
  have hlives : ∀ e ∈ [held], n.ledger.vault.live? e.ref = some e := by simpa using hlive
  obtain ⟨hwell, hmatch, step, hstep, hcheck⟩ :=
    Rules.check_eq_ok_iff.mp ((h.judge_eq_ok_iff rfl hlives).mp hjudge)
  obtain rfl : none = step := (Rules.stepOf_eq_ok_iff.mp hstep).2.1
  obtain ⟨-, hinputs⟩ := Rules.checkAssets_eq_ok_iff.mp hcheck
  have hmem : held ∈ [held] := List.mem_singleton_self held
  refine ⟨(hinputs held hmem).1, ?_, ?_⟩
  · rw [Option.eq_none_iff_forall_ne_some]
    intro partner hpartner
    have hself : (⟨held.ref.transaction, partner⟩ : OutputRef) = held.ref :=
      List.mem_singleton.mp (hmatch.partner_mem held hmem partner hpartner)
    have hindex : partner = .ofNat held.ref.index.toNat := by
      rw [UInt32.ofNat_toNat]
      exact congrArg OutputRef.index hself
    obtain ⟨t, ht, houtput⟩ := h.exists_source_of_live hlive
    obtain ⟨inputs, attachments, -, hsource⟩ := h.verified.admits ht
    rw [hindex] at hpartner
    exact ((Rules.check_eq_ok_iff.mp hsource).1.output _ _ houtput).partner_ne hpartner
  · intro hnobody
    have hsigned := hwell.signers_ne_nil (.asset name held.entity.participants)
      (List.mem_singleton_self _)
    rw [hnobody] at hsigned
    exact hsigned rfl

theorem approves_draftIssue (h : n.Coherent) {asset : Asset} {holder : Party} :
    n.Approves (n.draftIssue stamp asset holder) := by
  have hwell : (n.draftIssue stamp asset holder).content.WellFormed := by
    apply Content.wellFormed_of_free
    · exact List.cons_ne_nil _ _
    · simp [draftIssue, Stamp.content, Command.asset]
    · exact List.nodup_nil
    · exact List.nodup_nil
    · simp [draftIssue, Stamp.content]
  refine h.judge_eq_ok [] ⟨rfl, nofun⟩ nofun hwell
    (Rules.stepOf_of_steps none rfl ?_) ?_
  · simp [draftIssue, Stamp.content, Command.asset]
  · refine Rules.checkAssets_eq_ok_iff.mpr ⟨?_, nofun⟩
    simp [draftIssue, Stamp.content, Payload.isAsset, Payload.asset?]

theorem ends_draftMove_approves_iff (h : n.Coherent) {holder : Party} :
    Ends (n.draftMove stamp e holder) fun p ↦ n.Approves p ↔ Spendable e.entity := by
  unfold draftMove
  apply ends_bind
  intro held hheld
  obtain ⟨hlive, hsame⟩ := requireStoredOne_eq_ok_iff.mp hheld
  refine ends_pure ⟨fun hjudge ↦ hsame ▸ h.spendable_of_judge (live_of_live hlive) hjudge,
    fun hspendable ↦ ?_⟩
  rw [hsame] at hspendable
  refine h.judge_spend (live_of_live hlive) hspendable ?_
  simpa using hspendable.isAsset

theorem ends_draftExit_approves_iff (h : n.Coherent) :
    Ends (n.draftExit stamp e) fun p ↦ n.Approves p ↔ Spendable e.entity := by
  unfold draftExit
  apply ends_bind
  intro held hheld
  obtain ⟨hlive, hsame⟩ := requireStoredOne_eq_ok_iff.mp hheld
  refine ends_pure ⟨fun hjudge ↦ hsame ▸ h.spendable_of_judge (live_of_live hlive) hjudge,
    fun hspendable ↦ ?_⟩
  rw [hsame] at hspendable
  exact h.judge_spend (live_of_live hlive) hspendable (by simp)

/-! ### Requests -/

/-- A request for something, whose issuer is no extra signer, obeys the rules. -/
theorem Coherent.judge_request (h : n.Coherent) {request : Request}
    (hentities : request.entities ≠ []) (hissuer : request.issuer.key ∉ request.extraSigners)
    {participants : List PublicKey} :
    n.judge (stamp.content [] [⟨.request request, participants, stamp.notary, none⟩]
      [.signedBy .createRequest [request.requester]] []) = .ok () := by
  refine h.judge_eq_ok [] ⟨rfl, nofun⟩ nofun ?_
    (Rules.stepOf_of_steps (some .request) rfl ?_) ?_
  · apply Content.wellFormed_of_free
    · exact List.cons_ne_nil _ _
    · simp [Stamp.content]
    · exact List.nodup_nil
    · exact List.nodup_nil
    · simp [Stamp.content]
  · simp [Stamp.content]
  · have hsigned : Rules.SignedFor (stamp.content []
        [⟨.request request, participants, stamp.notary, none⟩]
        [.signedBy .createRequest [request.requester]] []) .createRequest [request.requester] :=
      ⟨.signedBy .createRequest [request.requester], rfl, by simp⟩
    exact Rules.checkRequest_eq_ok_iff.mpr
      ⟨rfl, _, request, rfl, rfl, hentities, hissuer, hsigned⟩

theorem ends_draftRequest_approves (h : n.Coherent) {terms : RequestTerms} {sharesHistory : Bool} :
    Ends (n.draftRequest stamp terms sharesHistory) n.Approves := by
  unfold draftRequest
  apply ends_bind
  intro _ hcheck
  obtain ⟨hentities, -, -, hissuer, -⟩ := RequestTerms.check_eq_ok_iff.mp hcheck
  apply ends_when
  intro _
  apply ends_when
  intro _
  simp only
  split
  · apply ends_bind
    intro _ _
    exact ends_pure (h.judge_request hentities hissuer)
  · apply ends_bind
    intro _ _
    exact ends_pure (h.judge_request hentities hissuer)

/-- Rejecting a live request obeys the rules. -/
theorem Coherent.judge_reject (h : n.Coherent) (hlive : n.ledger.vault.live? held.ref = some held)
    {request : Request} (hrequest : held.entity.request? = some request) :
    n.judge (stamp.content [held.ref] [] [.signedBy .rejectRequest [request.issuer.key]] []) =
      .ok () := by
  obtain ⟨-, hfree⟩ := h.requested_of_live hlive hrequest
  refine h.judge_eq_ok [held] ⟨rfl, ?_⟩ ?_ ?_
    (Rules.stepOf_of_steps (some .reject) rfl ?_) ?_
  · simp [hfree]
  · simpa using hlive
  · apply Content.wellFormed_of_free
    · exact List.cons_ne_nil _ _
    · simp [Stamp.content]
    · exact List.nodup_singleton _
    · exact List.nodup_nil
    · simp [Stamp.content]
  · simp [Stamp.content]
  · refine Rules.checkReject_eq_ok_iff.mpr ⟨rfl, request, ?_, _, rfl, by simp⟩
    exact Rules.soleRequest_eq_ok_iff.mpr ⟨held, rfl, hrequest⟩

theorem ends_draftReject_approves (h : n.Coherent) :
    Ends (n.draftReject stamp e) n.Approves := by
  unfold draftReject
  apply ends_bind
  intro held hheld
  obtain ⟨hlive, -⟩ := requireStoredOne_eq_ok_iff.mp hheld
  split
  · rename_i request hrequest
    apply ends_when
    intro _
    exact ends_pure (h.judge_reject (live_of_live hlive) hrequest)
  · exact ends_error

/-! ### Re-issuing -/

section Reissue

variable {request : Request} {copies : List Entity} {lockEntity : Entity} {lock : Lock}

omit [Cryptosystem] in
/-- The outputs of a re-issuance are well formed if they can be counted in 32 bits: the copies point
at the lock behind them, and the lock at the first copy. -/
theorem outputWellFormed_of_reissues (h : Rules.Reissues c request copies lockEntity lock)
    (hcopies : copies ≠ []) (hlock : lockEntity.encumbrance = some 0)
    (hnotary : ∀ e ∈ c.outputs, e.notary = c.notary) (hsize : c.outputs.length < 2 ^ 32)
    {index : Nat} {output : Entity} (houtput : c.outputs[index]? = some output) :
    c.OutputWellFormed output (.ofNat index) := by
  have hpos := List.length_pos_iff.mpr hcopies
  have hlength := h.length_outputs
  have hlast : (UInt32.ofNat copies.length).toNat = copies.length :=
    UInt32.toNat_ofNat_of_lt' (show copies.length < 2 ^ 32 by omega)
  have hcount : (UInt32.ofNat c.outputs.length).toNat = copies.length + 1 := by
    rw [UInt32.toNat_ofNat_of_lt' hsize, hlength]
  have hnotary := hnotary output (List.mem_of_getElem? houtput)
  have hcases := houtput
  rw [h.outputs_eq] at hcases
  rcases Rules.getElem?_concat_cases hcases with ⟨rfl, rfl⟩ | hcopy
  · refine ⟨?_, ?_, hnotary⟩
    · intro partner hpartner
      rw [hlock, Option.some.injEq] at hpartner
      rw [← hpartner, UInt32.lt_iff_toNat_lt, hcount]
      exact Nat.succ_pos _
    · rw [hlock, ne_eq, Option.some.injEq, ← UInt32.toNat_inj, hlast]
      exact (Nat.ne_of_gt hpos).symm
  · have hindex := (List.getElem?_eq_some_iff.mp hcopy).1
    have hencumbrance := h.encumbrance_eq (List.mem_of_getElem? hcopy)
    refine ⟨?_, ?_, hnotary⟩
    · intro partner hpartner
      rw [hencumbrance, Option.some.injEq] at hpartner
      rw [← hpartner, UInt32.lt_iff_toNat_lt, hcount, hlast]
      exact Nat.lt_succ_self _
    · rw [hencumbrance, ne_eq, Option.some.injEq, ← UInt32.toNat_inj, hlast,
        UInt32.toNat_ofNat_of_lt' (show index < 2 ^ 32 by omega)]
      omega

/-- Content that re-issues on a live request obeys the rules exactly if its outputs can be counted
in 32 bits. -/
theorem Coherent.judge_reissue_iff (h : n.Coherent)
    (hlive : n.ledger.vault.live? held.ref = some held)
    (hrequest : held.entity.request? = some request) (hinputs : c.inputs = [held.ref])
    (hattachments : c.attachments = []) (hsigners : ∀ command ∈ c.commands, command.signers ≠ [])
    (hsteps : Rules.steps c = [.reissue])
    (hreissues : Rules.Reissues c request copies lockEntity lock)
    (hlock : lockEntity.encumbrance = some 0) (hnotary : ∀ e ∈ c.outputs, e.notary = c.notary) :
    n.judge c = .ok () ↔ c.outputs.length < 2 ^ 32 := by
  obtain ⟨hentities, hfree⟩ := h.requested_of_live hlive hrequest
  have hmatch : c.Matches [held] := by
    refine ⟨hinputs.symm, ?_⟩
    simp [hfree]
  have hlives : ∀ e ∈ [held], n.ledger.vault.live? e.ref = some e := by simpa using hlive
  constructor
  · intro hjudge
    rw [h.judge_eq_ok_iff hmatch.refs_eq hlives, Rules.check_eq_ok_iff] at hjudge
    exact hreissues.length_outputs_lt hjudge.1
  · intro hsize
    have hcopies : copies ≠ [] := by
      rintro rfl
      have hsnapshot := List.forall₂_nil_left_iff.mp hreissues.isCopy
      rw [← hreissues.snapshot_eq, Lock.snapshotRefs, hsnapshot] at hentities
      exact hentities rfl
    have hwell : c.WellFormed := by
      refine ⟨?_, hsigners, ?_, ?_, fun _ _ ↦
        outputWellFormed_of_reissues hreissues hcopies hlock hnotary hsize⟩
      · intro hnone
        rw [Rules.steps, hnone] at hsteps
        cases hsteps
      · rw [hinputs]
        exact List.nodup_singleton _
      · rw [hattachments]
        exact List.nodup_nil
    refine h.judge_eq_ok [held] hmatch hlives hwell
      (Rules.stepOf_of_steps (some .reissue) hsteps (.inl rfl)) ?_
    exact Rules.checkReissue_eq_ok_iff.mpr ⟨request, copies, lockEntity, lock,
      Rules.soleRequest_eq_ok_iff.mpr ⟨held, rfl, hrequest⟩, hreissues⟩

omit [Cryptosystem] in
/-- What accepting a request drafts re-issues on it: the lock points at the first copy, and all
outputs name the notary of the content. -/
theorem ends_draftAccept_reissues {terms : AcceptTerms} :
    Ends (n.draftAccept stamp terms) fun p ↦ ∃ held request copies lockEntity lock,
      n.ledger.vault.live? held.ref = some held ∧ held.entity.request? = some request ∧
        p.content.inputs = [held.ref] ∧ p.content.attachments = [] ∧
        (∀ command ∈ p.content.commands, command.signers ≠ []) ∧
        Rules.Reissues p.content request copies lockEntity lock ∧
        lockEntity.encumbrance = some 0 ∧ ∀ e ∈ p.content.outputs, e.notary = p.content.notary := by
  unfold draftAccept
  apply ends_bind
  intro _ _
  apply ends_bind
  intro held hheld
  obtain ⟨hlive, -⟩ := requireStoredOne_eq_ok_iff.mp hheld
  split
  · rename_i request hrequest
    apply ends_when
    intro _
    apply ends_bind
    intro entities hentities
    apply ends_bind
    intro _ hreissuable
    have hassets := requireReissuable_eq_ok_iff.mp hreissuable
    have hrefs : entities.map Located.ref = request.entities := by
      rw [eq_comm, ← List.forall₂_eq_eq_eq, List.forall₂_map_right_iff]
      refine (mapM_eq_ok_iff.mp hentities).imp fun r e he ↦ ?_
      obtain ⟨-, -, href⟩ := Vault.live?_eq_some_iff.mp (requireLive_eq_ok_iff.mp he)
      exact href.symm
    refine ends_pure ⟨held, request, _, _, _, live_of_live hlive, hrequest, rfl, rfl, ?_,
      ⟨rfl, rfl, rfl, rfl, rfl, hrefs, ?_, rfl, ?_, ?_, ?_⟩, rfl, ?_⟩
    · simp [Stamp.content, Command.asset]
    · rw [List.length_map, List.forall₂_map_left_iff, List.forall₂_same]
      exact fun e he ↦ ⟨(hassets e he).1, rfl, rfl, rfl⟩
    · exact ⟨.signedBy .acceptRequest [request.issuer.key], rfl, by simp⟩
    · exact ⟨.signedBy .createLock [request.issuer.key, request.requester], rfl, by simp⟩
    · refine ⟨.asset request.issuanceCommand
        (request.issuer.key :: request.requester :: terms.issuanceSigners), ?_, ?_⟩
      · simp [Stamp.content, Command.asset]
      · simp [Command.asset]
    · intro e he
      rcases List.mem_append.mp he with hcopy | hlast
      · obtain ⟨_, -, rfl⟩ := List.mem_map.mp hcopy
        rfl
      · rw [List.mem_singleton.mp hlast]
        rfl
  · exact ends_error

/-- What accepting a request drafts obeys the rules exactly if its outputs can be counted in 32
bits. -/
theorem ends_draftAccept_approves_iff (h : n.Coherent) {terms : AcceptTerms} :
    Ends (n.draftAccept stamp terms) fun p ↦
      n.Approves p ↔ p.content.outputs.length < 2 ^ 32 := by
  intro p hp
  obtain ⟨held, request, _, _, _, hlive, hrequest, hinputs, hattachments, hsigners, hreissues,
    hlock, hnotary⟩ := ends_draftAccept_reissues p hp
  exact h.judge_reissue_iff hlive hrequest hinputs hattachments hsigners (ends_draftAccept p hp)
    hreissues hlock hnotary

end Reissue

end Node

end Custody
