import Custody.Proofs.Ledger.Lifecycle
import Custody.Proofs.Rules.RoundTrip
import Custody.Proofs.Transaction.Endorsements

/-!
# Who has to sign

Nothing is consumed without the parties that have a say in it. For a request this is the issuer,
and for accepting it the requester too; for a lock and all that comes with it the requester of the
lock, and for unlocking its further signers too; for any other asset its participants. Whatever
comes with a lock is the business of the lock's requester alone, whatever it is: that it is an asset
is seen to when the lock is created, and not again. So it takes an archive of verified transactions
to rule out that a request is consumed in this way.
-/

namespace Custody.Rules

/-- Comes with a consumed lock: is that lock, or is governed by it. -/
def Under (inputs : List Located) (lock : Lock) (e : Located) : Prop :=
  ∃ held ∈ inputs, held.entity.lock? = some lock ∧ (e = held ∨ isGoverned held.ref e = true)

/-- Who has a say in what becomes of an input. -/
inductive Entitled (c : Content) (inputs : List Located) (e : Located) : PublicKey → Prop
  | issuer {request : Request} (hrequest : e.entity.request? = some request)
      (hfree : ∀ lock, ¬Under inputs lock e) : Entitled c inputs e request.issuer.key
  | requester {request : Request} (hrequest : e.entity.request? = some request)
      (haccept : ∃ command ∈ c.commands, command.kind = .acceptRequest) :
      Entitled c inputs e request.requester
  | holder {lock : Lock} (hunder : Under inputs lock e) : Entitled c inputs e lock.requester
  | unlockSigner {lock : Lock} {key : PublicKey} (hunder : Under inputs lock e)
      (hunlock : ∃ command ∈ c.commands, command.kind = .deactivateLock)
      (hkey : key ∈ lock.unlockSigners) : Entitled c inputs e key
  | participant {key : PublicKey} (hasset : e.entity.payload.isAsset = true)
      (hfree : ∀ lock, ¬Under inputs lock e) (hkey : key ∈ e.entity.participants) :
      Entitled c inputs e key

section

variable {c : Content} {inputs : List Located} {attachments : Attachments} {e : Located}
  {lock : Lock} {key : PublicKey}

/-- Everything consumed with a lock is under it. -/
theorem ConsumesLock.under {lockRef : OutputRef} (h : ConsumesLock inputs lockRef lock)
    (hnodup : (inputs.map Located.ref).Nodup) (hmem : e ∈ inputs) : Under inputs lock e := by
  obtain ⟨held, hheld, rfl, hlock⟩ := h.exists_mem
  refine ⟨held, hheld, hlock, ?_⟩
  by_cases hself : e.ref = held.ref
  · exact .inl (List.inj_on_of_nodup_map hnodup hmem hheld hself)
  · exact .inr (h.isGoverned e hmem hself)

variable [Cryptosystem]

/-- What a consumed lock requires of those who consume it. -/
theorem mem_requiredKeys_of_under (h : check c inputs attachments = .ok ())
    (hunder : Under inputs lock e) :
    lock.requester ∈ c.requiredKeys ∧
      ((∃ command ∈ c.commands, command.kind = .deactivateLock) →
        ∀ key ∈ lock.unlockSigners, key ∈ c.requiredKeys) := by
  obtain ⟨held, hheld, hlock, -⟩ := hunder
  cases consumption_of_mem h hheld with
  | asset hasset =>
    rw [Entity.isAsset_eq_false_of_lock? hlock] at hasset
    cases hasset
  | request _ hrequest =>
    rw [Entity.lock?_eq_none_of_request? hrequest] at hlock
    cases hlock
  | lock hconsumes hrequester hstep =>
    obtain ⟨-, rfl⟩ := hconsumes.eq_of_mem hheld hlock
    refine ⟨hrequester, ?_⟩
    rintro ⟨command, hcommand, hkind⟩
    rcases hstep with ⟨-, hsigners⟩ | hstep
    · exact hsigners
    · have hunlock := CommandKind.step?_eq_unlock_iff.mpr hkind
      cases eq_of_mem_of_stepOf hstep hcommand hunlock

theorem Entitled.mem_requiredKeys (hkey : Entitled c inputs e key)
    (h : check c inputs attachments = .ok ()) (hmem : e ∈ inputs) : key ∈ c.requiredKeys := by
  have hnodup := nodup_refs_of_check h
  cases hkey with
  | issuer hrequest hfree =>
    rcases answered_or_governed_of_request? h hmem hrequest with
      ⟨-, hissuer, -⟩ | ⟨_, lock, hconsumes, -⟩
    · exact hissuer
    · exact absurd (hconsumes.under hnodup hmem) (hfree lock)
  | requester hrequest haccept =>
    obtain ⟨command, hcommand, hkind⟩ := haccept
    have htaken := CommandKind.step?_eq_reissue_iff.mpr hkind
    -- No other step is taken than accepting.
    rcases answered_or_governed_of_request? h hmem hrequest with
      ⟨-, -, ⟨-, hrequester⟩ | hstep⟩ | ⟨_, _, -, hstep | hstep⟩
    · exact hrequester
    · cases eq_of_mem_of_stepOf hstep hcommand htaken
    · cases eq_of_mem_of_stepOf hstep hcommand htaken
    · cases eq_of_mem_of_stepOf hstep hcommand htaken
  | holder hunder => exact (mem_requiredKeys_of_under h hunder).1
  | unlockSigner hunder hunlock hkey => exact (mem_requiredKeys_of_under h hunder).2 hunlock _ hkey
  | participant hasset hfree hkey =>
    cases consumption_of_mem h hmem with
    | asset _ hparticipants => exact hparticipants _ hkey
    | request _ hrequest =>
      rw [Entity.isAsset_eq_false_of_request? hrequest] at hasset
      cases hasset
    | lock hconsumes => exact absurd (hconsumes.under hnodup hmem) (hfree _)

/-- Somebody has a say in what becomes of an input, unless it is an asset of nobody. -/
theorem exists_entitled (h : check c inputs attachments = .ok ()) (hmem : e ∈ inputs)
    (hparticipants : e.entity.payload.isAsset = true → e.entity.participants ≠ []) :
    ∃ key, Entitled c inputs e key := by
  by_cases hunder : ∃ lock, Under inputs lock e
  · obtain ⟨lock, hunder⟩ := hunder
    exact ⟨lock.requester, .holder hunder⟩
  · have hfree := not_exists.mp hunder
    cases consumption_of_mem h hmem with
    | asset hasset =>
      obtain ⟨key, hkey⟩ := List.exists_mem_of_ne_nil _ (hparticipants hasset)
      exact ⟨key, .participant hasset hfree hkey⟩
    | request _ hrequest => exact ⟨_, .issuer hrequest hfree⟩
    | lock hconsumes => exact absurd (hconsumes.under (nodup_refs_of_check h) hmem) (hfree _)

/-- With locks over assets no request comes, so that its issuer has a say in it. -/
theorem entitled_issuer (h : check c inputs attachments = .ok ()) (hassets : ConsumesAssets inputs)
    (hmem : e ∈ inputs) {request : Request} (hrequest : e.entity.request? = some request) :
    Entitled c inputs e request.issuer.key := by
  refine .issuer hrequest ?_
  rintro lock ⟨held, hheld, hlock, -⟩
  have hconsumes := (consumesLock_of_check h hheld hlock).1
  have hnone := hconsumes.request?_eq_none (hassets _ _ hconsumes) (nodup_refs_of_check h) hmem
  cases hnone.symm.trans hrequest

/-- Whoever has a say in what becomes of an input of an accepted transaction is among those who must
sign it, and has signed it when the signatures are complete; and somebody has a say, unless the
input is an asset of nobody. The requester of a request that is created must sign as well, unless
the request is released from under a lock. With inputs from verified transactions only, no request
comes with a lock: the issuer has a say in each that is consumed, and the requester signs each that
is created. -/
theorem signed_of_check {t : Transaction} (h : check t.content inputs attachments = .ok ()) :
    (∀ e ∈ inputs,
      (∀ key, Entitled t.content inputs e key → key ∈ t.content.requiredKeys ∧
        (t.checkSignatures = .ok () → t.isSignedBy key = true)) ∧
      ((e.entity.payload.isAsset = true → e.entity.participants ≠ []) →
        ∃ key, Entitled t.content inputs e key)) ∧
    (∀ e ∈ t.content.outputs, ∀ request, e.request? = some request →
      request.requester ∈ t.content.requiredKeys ∨
      (∃ command ∈ t.content.commands, command.kind = .deactivateLock) ∧
        ∃ held ∈ inputs, ∃ lock, held.entity.lock? = some lock ∧
          ∃ entry ∈ lock.snapshot, entry.entity.request? = some request) ∧
    ∀ archive : Archive, archive.Verified → archive.resolveInputs t.content = .ok inputs →
      (∀ e ∈ inputs, ∀ request, e.entity.request? = some request →
        Entitled t.content inputs e request.issuer.key) ∧
      ∀ e ∈ t.content.outputs, ∀ request, e.request? = some request →
        request.requester ∈ t.content.requiredKeys := by
  refine ⟨?_, ?_, ?_⟩
  · intro e hmem
    refine ⟨?_, exists_entitled h hmem⟩
    intro key hkey
    have hrequired := hkey.mem_requiredKeys h hmem
    exact ⟨hrequired, fun hsigned ↦
      (Transaction.checkSignatures_eq_ok_iff.mp hsigned).2.2 key hrequired⟩
  · intro e hmem request hrequest
    rcases creates_or_releases_of_request? h hmem hrequest with
      ⟨-, -, -, hsigned⟩ | ⟨_, lock, hstep, hconsumes, entry, hentry, hheld⟩
    · exact .inl (hsigned.mem_requiredKeys (List.mem_singleton_self _))
    · obtain ⟨command, hcommand, hkind⟩ := exists_command_of_stepOf hstep
      obtain ⟨held, hinput, -, hlock⟩ := hconsumes.exists_mem
      exact .inr ⟨⟨command, hcommand, CommandKind.step?_eq_unlock_iff.mp hkind⟩,
        held, hinput, lock, hlock, entry, hentry, hheld⟩
  · intro archive hverified hinputs
    have hassets := hverified.consumesAssets hinputs
    refine ⟨fun e hmem _ hrequest ↦ entitled_issuer h hassets hmem hrequest, ?_⟩
    intro e hmem request hrequest
    rcases creates_or_releases_of_request? h hmem hrequest with
      ⟨-, -, -, hsigned⟩ | ⟨lockRef, lock, -, hconsumes, entry, hentry, hheld⟩
    · exact hsigned.mem_requiredKeys (List.mem_singleton_self _)
    · have hasset := hassets lockRef lock hconsumes entry hentry
      rw [Entity.isAsset_eq_false_of_request? hheld] at hasset
      cases hasset

end

/-! ### A re-issuance that is signed for -/

namespace Deletion

open Trial (key)

/-- The re-issuance, endorsed by the issuer and the requester. -/
def signed : Transaction := ExitProof.Pair.endorsed [key 1, key 2] reissue.content

/-- The archive with the request. -/
def archive : Archive := Archive.add ∅ Archive.Released.request

theorem verified : @Archive.Verified .clear archive := by
  let _ : Cryptosystem := .clear
  exact .add .empty ⟨[], ∅, by decide +kernel, by decide +kernel⟩

end Deletion

open Deletion Trial in
theorem signed_reissue :
    @check .clear signed.content [request] ∅ = .ok () ∧
      @Transaction.checkSignatures .clear signed = .ok () ∧
      @Transaction.isSignedBy .clear signed (key 1) = true ∧
      @Transaction.isSignedBy .clear signed (key 2) = true := by
  have h : @check .clear signed.content [request] ∅ = .ok () := by decide +kernel
  have hsigned : @Transaction.checkSignatures .clear signed = .ok () := by decide +kernel
  have hmem : request ∈ [request] := List.mem_singleton_self _
  obtain ⟨hinputs, -, hverified⟩ := @signed_of_check _ _ .clear signed h
  obtain ⟨hissuer, -⟩ := hverified archive verified (by decide +kernel)
  obtain ⟨hentitled, -⟩ := hinputs request hmem
  exact ⟨h, hsigned, (hentitled _ (hissuer request hmem _ rfl)).2 hsigned,
    (hentitled _ (.requester rfl (by decide))).2 hsigned⟩

/-! ### A request under a lock -/

namespace Pair

open ExitProof.Pair
open Trial (key notary)

/-- A lock over the request. -/
def requestLock : Located :=
  ⟨⟨.lock { lock with requester := key 5, snapshot := [request] }, [key 5], notary, some 0⟩,
    ⟨⟨.replicate 32 6⟩, 1⟩⟩

/-- What counts as a copy of the request under that lock. -/
def governedRequest : Located :=
  ⟨{ request.entity with encumbrance := some 1 }, ⟨⟨.replicate 32 6⟩, 0⟩⟩

/-- The unlocking of both, signed for by the requester of the lock. -/
def release : Content where
  inputs := [requestLock.ref, governedRequest.ref]
  outputs := [request.entity,
    ⟨.lock { lock with requester := key 5, snapshot := [request], status := .inactive }, [key 5],
      notary, none⟩]
  commands := [.signedBy .deactivateLock [key 5]]
  notary := notary
  attachments := [(stored (exit request)).1]
  salt := .replicate 32 0

/-- A request that comes with a lock is consumed without its issuer and created without its
requester. -/
theorem not_request_signed_of_check :
    (¬ ∀ (c : Content) (inputs : List Located) (attachments : Attachments),
      @check .clear c inputs attachments = .ok () →
        ∀ e ∈ inputs, ∀ request, e.entity.request? = some request →
          request.issuer.key ∈ c.requiredKeys) ∧
    ¬ ∀ (c : Content) (inputs : List Located) (attachments : Attachments),
      @check .clear c inputs attachments = .ok () →
        ∀ e ∈ c.outputs, ∀ request, e.request? = some request →
          request.requester ∈ c.requiredKeys := by
  have h : @check .clear release [requestLock, governedRequest]
      (@Attachments.add .clear ∅ (stored (exit request)).2) = .ok () := by decide +kernel
  constructor
  · intro hissuer
    exact absurd (hissuer _ _ _ h governedRequest (by simp) _ rfl) (by decide +kernel)
  · intro hrequester
    exact absurd (hrequester _ _ _ h request.entity (List.mem_cons_self ..) _ rfl)
      (by decide +kernel)

end Pair

end Custody.Rules
