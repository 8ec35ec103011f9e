import Custody.Proofs.Rules.Steps
import Custody.Proofs.Transaction.Endorsements

/-!
# What is consumed, and by whom

An input of an accepted transaction is consumed in one of three ways: as an asset, as a request,
alone, or with an active lock and all its copies. Which one it is decides on the keys that have to
sign.
-/

namespace Custody

namespace Rules

variable {c : Content} {inputs : List Located}

theorem SignedFor.mem_requiredKeys {kind : CommandKind} {keys : List PublicKey} {key : PublicKey}
    (h : SignedFor c kind keys) (hkey : key ∈ keys) : key ∈ c.requiredKeys := by
  obtain ⟨command, hcommand, hsigners⟩ := h
  exact Content.mem_requiredKeys_iff.mpr
    ⟨command, List.mem_of_find?_eq_some hcommand, hsigners key hkey⟩

/-- No input of an accepted transaction occurs twice. -/
theorem nodup_refs_of_check [Cryptosystem] {attachments : Attachments}
    (h : check c inputs attachments = .ok ()) : (inputs.map Located.ref).Nodup := by
  obtain ⟨hwell, hmatch, -⟩ := check_eq_ok_iff.mp h
  exact hmatch.refs_eq ▸ hwell.inputs_nodup

/-- What an input is, the step that consumes it and the keys that are required for this. -/
inductive Consumption (c : Content) (inputs : List Located) (e : Located) : Prop
  | asset (hasset : e.entity.payload.isAsset = true)
      (hparticipants : ∀ key ∈ e.entity.participants, key ∈ c.requiredKeys)
  | request {request : Request} (hinputs : inputs = [e])
      (hrequest : e.entity.request? = some request) (hissuer : request.issuer.key ∈ c.requiredKeys)
      (hstep : stepOf c = .ok (some .reissue) ∧ request.requester ∈ c.requiredKeys ∨
        stepOf c = .ok (some .reject))
  | lock {lockRef : OutputRef} {lock : Lock} (hconsumes : ConsumesLock inputs lockRef lock)
      (hrequester : lock.requester ∈ c.requiredKeys)
      (hstep : stepOf c = .ok (some .unlock) ∧ (∀ key ∈ lock.unlockSigners, key ∈ c.requiredKeys) ∨
        stepOf c = .ok (some .delete))

theorem consumption_of_mem [Cryptosystem] {attachments : Attachments} {e : Located}
    (h : check c inputs attachments = .ok ()) (hmem : e ∈ inputs) : Consumption c inputs e := by
  obtain ⟨-, -, step, hstep, h⟩ := check_eq_ok_iff.mp h
  cases step with
  | none =>
    obtain ⟨hasset, hparticipants⟩ := (checkAssets_eq_ok_iff.mp h).2 e hmem
    exact .asset hasset hparticipants
  | some step =>
  cases step with
  | request =>
    rw [(checkRequest_eq_ok_iff.mp h).1] at hmem
    exact absurd hmem List.not_mem_nil
  | reissue =>
    obtain ⟨request, _, _, _, hsole, hreissues⟩ := checkReissue_eq_ok_iff.mp h
    obtain ⟨input, rfl, hrequest⟩ := soleRequest_eq_ok_iff.mp hsole
    obtain rfl := List.mem_singleton.mp hmem
    have hsigned : ∀ key ∈ [request.issuer.key, request.requester], key ∈ c.requiredKeys :=
      fun _ ↦ hreissues.create_signed.mem_requiredKeys
    exact .request rfl hrequest (hsigned _ (by simp)) (.inl ⟨hstep, hsigned _ (by simp)⟩)
  | reject =>
    obtain ⟨-, request, hsole, hsigned⟩ := checkReject_eq_ok_iff.mp h
    obtain ⟨input, rfl, hrequest⟩ := soleRequest_eq_ok_iff.mp hsole
    obtain rfl := List.mem_singleton.mp hmem
    exact .request rfl hrequest (hsigned.mem_requiredKeys (List.mem_singleton_self _)) (.inr hstep)
  | unlock =>
    obtain ⟨lock, _, _, _, _, hconsumed, hunlocks, -⟩ := checkUnlock_eq_ok_iff.mp h
    obtain ⟨lockRef, hconsumes⟩ := consumedLock_eq_ok_iff.mp hconsumed
    have hrequester := hunlocks.deactivate_signed.mem_requiredKeys (List.mem_singleton_self _)
    exact .lock hconsumes hrequester (.inl ⟨hstep, hunlocks.unlockSigners_mem⟩)
  | delete =>
    obtain ⟨-, lock, hconsumed, hsigned⟩ := checkDelete_eq_ok_iff.mp h
    obtain ⟨lockRef, hconsumes⟩ := consumedLock_eq_ok_iff.mp hconsumed
    exact .lock hconsumes (hsigned.mem_requiredKeys (List.mem_singleton_self _)) (.inr hstep)

end Rules

end Custody
