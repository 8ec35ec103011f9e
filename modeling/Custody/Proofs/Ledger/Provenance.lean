import Custody.Proofs.Ledger.Ancestors
import Custody.Proofs.Ledger.Lifecycle
import Custody.Proofs.Ledger.Vault

/-!
# Where a released entity comes from

In a verified archive an unlocking consumes outputs of one re-issuance, the re-issuance consumes a
request alone, and the request was made out of nothing. So what an unlocking rests on ends there:
its ancestors are these three transactions, and none of those that the originals had.
-/

namespace Custody.Archive

section

variable {archive : Archive} {t u r q : Transaction} {id : TransactionId} {lock : Lock}

/-- A transaction is archived under its id and carries a command of a kind. -/
structure Carries (archive : Archive) (t : Transaction) (kind : CommandKind) : Prop where
  isHeld : archive[t.id]? = some t
  exists_command : ∃ command ∈ t.content.commands, command.kind = kind

/-- A transaction consumes something, and nothing but outputs of another. -/
structure ConsumesOnly (t source : Transaction) : Prop where
  inputs_ne_nil : t.content.inputs ≠ []
  subset : t.content.inputs ⊆ source.located.map Located.ref

/-- The ancestors of one transaction can be told, and are those listed. -/
def AncestorsAre (archive : Archive) (id : TransactionId) (ids : List TransactionId) : Prop :=
  ∃ found, archive.ancestors [id] = .ok found ∧ ∀ other, other ∈ found ↔ other ∈ ids

theorem ConsumesOnly.mem_sources_iff (h : ConsumesOnly t u) {source : TransactionId} :
    source ∈ t.sources ↔ source = u.id := by
  have hsource : ∀ input ∈ t.content.inputs, input.transaction = u.id := by
    intro input hinput
    obtain ⟨e, he, rfl⟩ := List.mem_map.mp (h.subset hinput)
    exact Transaction.transaction_eq_of_mem_located he
  constructor
  · intro hmem
    obtain ⟨input, hinput, rfl⟩ := List.mem_map.mp hmem
    exact hsource input hinput
  · rintro rfl
    obtain ⟨input, hinput⟩ := List.exists_mem_of_ne_nil _ h.inputs_ne_nil
    exact List.mem_map.mpr ⟨input, hinput, hsource input hinput⟩

theorem ConsumesOnly.reaches_iff (h : ConsumesOnly t u) (ht : archive[t.id]? = some t)
    {target : TransactionId} :
    archive.Reaches t.id target ↔ target = t.id ∨ archive.Reaches u.id target :=
  reaches_iff_of_consumes fun _ ↦ (consumes_iff ht).trans h.mem_sources_iff

variable [Cryptosystem]

namespace Verified

theorem keyed (h : archive.Verified) : archive.Keyed := fun _ _ ↦ h.id_eq

/-- What can be resolved is an output of an archived transaction. -/
theorem exists_source (h : archive.Verified) {e : Located} (he : archive.resolve e.ref = .ok e) :
    ∃ source : Transaction, archive[source.id]? = some source ∧ e.ref.transaction = source.id ∧
      source.content.outputs[e.ref.index.toNat]? = some e.entity := by
  obtain ⟨-, source, hsource, houtput⟩ := resolve_eq_ok_iff.mp he
  have hid := h.id_eq hsource
  rw [← hid] at hsource
  exact ⟨source, hsource, hid.symm, houtput⟩

/-- An unlocking consumes outputs of the re-issuance that created the lock. -/
theorem exists_reissue (h : archive.Verified) (hu : archive.Carries u .deactivateLock) :
    ∃ r lock, archive[r.id]? = some r ∧ archive.CreatesLock r lock ∧ ConsumesOnly u r := by
  obtain ⟨command, hcommand, hkind⟩ := hu.exists_command
  obtain ⟨inputs, attachments, hinputs, hcheck⟩ := h.admits hu.isHeld
  obtain ⟨-, hmatch, step, hstep, hunlock⟩ := Rules.check_eq_ok_iff.mp hcheck
  obtain rfl := Rules.eq_of_mem_of_stepOf hstep hcommand (CommandKind.step?_eq_unlock_iff.mpr hkind)
  obtain ⟨lock, _, _, _, _, hconsumed, -⟩ := Rules.checkUnlock_eq_ok_iff.mp hunlock
  obtain ⟨lockRef, hconsumes⟩ := Rules.consumedLock_eq_ok_iff.mp hconsumed
  obtain ⟨lockInput, hlockInput, rfl, hlock⟩ := hconsumes.exists_mem
  obtain ⟨r, hr, hid, houtput⟩ := h.exists_source (resolve_of_mem hinputs hlockInput)
  obtain ⟨-, hcreates | hreleases⟩ := h.createsLock_or_releasesLock hr houtput hlock
  · have hsubset : inputs ⊆ r.located := by
      intro input hinput
      have htransaction : input.ref.transaction = r.id := by
        by_cases hself : input.ref = lockInput.ref
        · rw [hself, hid]
        · rw [hconsumes.transaction_eq hinput hself, hid]
      obtain ⟨source, hsource, hsame, houtput⟩ := h.exists_source (resolve_of_mem hinputs hinput)
      rw [← hsame, htransaction, hr, Option.some.injEq] at hsource
      rw [← hsource] at houtput
      exact Transaction.mem_located_of_getElem? htransaction houtput
    refine ⟨r, lock, hr, hcreates, ?_, ?_⟩
    · rw [← hmatch.refs_eq]
      exact List.ne_nil_of_mem (List.mem_map_of_mem hlockInput)
    · rw [← hmatch.refs_eq]
      exact List.map_subset _ hsubset
  · cases hconsumes.isActive.symm.trans hreleases.isInactive

/-- A re-issuance consumes a request alone, which was made out of nothing. -/
theorem exists_request (h : archive.Verified) (hcreates : archive.CreatesLock r lock) :
    ∃ q input, archive.Carries q .createRequest ∧ r.content.inputs = [input] ∧ ConsumesOnly r q ∧
      q.content.inputs = [] := by
  obtain ⟨e, request, hinputs, hresolve, hrequest, -⟩ := hcreates.exists_request
  obtain ⟨q, hq, hid, houtput⟩ := h.exists_source hresolve
  obtain ⟨qInputs, attachments, hqInputs, hcheck⟩ := h.admits hq
  obtain ⟨rfl, -, hcommand⟩ := Rules.outputs_eq_of_request? hcheck (h.consumesAssets hqInputs)
    (List.mem_of_getElem? houtput) hrequest
  have hrefs := (Rules.check_eq_ok_iff.mp hcheck).2.1.refs_eq
  have hmem := Transaction.mem_located_of_getElem? hid houtput
  refine ⟨q, e.ref, ⟨hq, hcommand⟩, hinputs, ⟨?_, ?_⟩, hrefs.symm⟩
  · rw [hinputs]
    exact List.cons_ne_nil _ _
  · rw [hinputs, List.cons_subset]
    exact ⟨List.mem_map_of_mem hmem, List.nil_subset _⟩

theorem ancestorsAre (h : archive.Verified) (ht : archive[id]? = some t) {ids : List TransactionId}
    (hreaches : ∀ other, archive.Reaches id other ↔ other ∈ ids) : archive.AncestorsAre id ids := by
  have hheld : id ∈ archive := by
    rw [Std.TreeMap.mem_iff_isSome_getElem?, ht]
    rfl
  obtain ⟨found, hfound⟩ := exists_ancestors h.closed (List.forall_mem_singleton.mpr hheld)
  refine ⟨found, hfound, fun other ↦ ?_⟩
  rw [mem_ancestors_iff h.keyed hfound, reachedFrom_singleton]
  exact hreaches other

end Verified

/-- In a verified archive, an unlocking consumes outputs of one re-issuance, that consumes one
output of one request transaction, and that consumes nothing. The ancestors of the unlocking are
these three; and those of a transaction that consumes its outputs only are these three and
itself. -/
theorem provenance_of_verified (h : archive.Verified) (hu : archive.Carries u .deactivateLock) :
    ∃ r q input, archive.Carries r .acceptRequest ∧ archive.Carries q .createRequest ∧
      ConsumesOnly u r ∧ r.content.inputs = [input] ∧ ConsumesOnly r q ∧ q.content.inputs = [] ∧
      archive.AncestorsAre u.id [u.id, r.id, q.id] ∧
      ∀ t, archive[t.id]? = some t → ConsumesOnly t u →
        archive.AncestorsAre t.id [t.id, u.id, r.id, q.id] := by
  obtain ⟨r, lock, hr, hcreates, hconsumes⟩ := h.exists_reissue hu
  obtain ⟨q, input, hq, hinputs, hasks, hnone⟩ := h.exists_request hcreates
  have hreaches : ∀ other, archive.Reaches u.id other ↔ other ∈ [u.id, r.id, q.id] := by
    intro other
    have hend : archive.Reaches q.id other ↔ other = q.id := by
      apply reaches_iff_of_not_consumes
      intro source hsource
      rw [consumes_iff hq.isHeld, Transaction.sources, Content.sources, hnone] at hsource
      exact absurd hsource List.not_mem_nil
    rw [hconsumes.reaches_iff hu.isHeld, hasks.reaches_iff hr, hend]
    simp
  refine ⟨r, q, input, ⟨hr, hcreates.carries⟩, hq, hconsumes, hinputs, hasks, hnone,
    h.ancestorsAre hu.isHeld hreaches, ?_⟩
  intro t ht honly
  apply h.ancestorsAre ht
  intro other
  rw [honly.reaches_iff ht, hreaches, ← List.mem_cons]

end

/-! ### A released entity on its way -/

namespace Released

/-- The move of what was unlocked to another holder. -/
def move : Transaction where
  id := ⟨.replicate 32 7⟩
  content := {
    inputs := [unlock.outputRef 0]
    outputs := [{ Rules.Deletion.original.entity with participants := [Trial.key 3] }]
    commands := [.asset "Move" [Trial.key 2]]
    notary := Trial.notary
    attachments := []
    salt := .replicate 32 0 }
  endorsements := []

theorem verified_add_move : @Verified .clear (archive.add move) := by
  let _ : Cryptosystem := .clear
  refine .add verified ⟨[⟨Rules.Deletion.original.entity, unlock.outputRef 0⟩], ∅, ?_, ?_⟩
  all_goals decide +kernel

theorem ancestorsAre_move :
    ∃ r q : Transaction, (archive.add move).Carries r .acceptRequest ∧
      (archive.add move).AncestorsAre unlock.id [unlock.id, r.id, q.id] ∧
      (archive.add move).AncestorsAre move.id [move.id, unlock.id, r.id, q.id] := by
  have hu : (archive.add move).Carries unlock .deactivateLock :=
    ⟨by decide +kernel, by decide⟩
  obtain ⟨r, q, -, hr, -, -, -, -, -, hancestors, hfurther⟩ :=
    @provenance_of_verified _ unlock .clear verified_add_move hu
  exact ⟨r, q, hr, hancestors, hfurther move (by decide +kernel) ⟨by decide, by decide +kernel⟩⟩

end Released

end Custody.Archive
