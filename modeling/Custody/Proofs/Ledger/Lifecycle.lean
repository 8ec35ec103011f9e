import Custody.Proofs.Ledger.Verified
import Custody.Proofs.Rules.Requests
import Custody.Proofs.Trial

/-!
# The life of requests and locks

In a verified archive, requests come from transactions that consume nothing and go by being accepted
or rejected. A lock is created active by a re-issuance and passes on, in each transaction that
consumes it, to one lock that differs from it in the status only; what has become inactive is never
consumed. The invariant behind this is that active locks are over assets: an unlocking, which
produces what a snapshot holds, can then bring forth neither requests nor further locks. The rules
judge a transaction by its inputs alone and do not see what else consumes them. That a lock passes
on only once is therefore left to the notary, which signs for one consumer of an output.
-/

namespace Custody.Archive

section

variable {archive : Archive} {t : Transaction} {id : TransactionId} {r r' r'' : OutputRef}
  {e : Entity} {lock : Lock}

/-- The lock under a reference. -/
def lockAt? (archive : Archive) (r : OutputRef) : Option Lock :=
  match archive.resolve r with
  | .ok e => e.entity.lock?
  | .error _ => none

theorem lockAt?_eq_some_iff :
    archive.lockAt? r = some lock ↔
      ∃ e, archive.resolve r = .ok e ∧ e.entity.lock? = some lock := by
  unfold lockAt?
  cases archive.resolve r with
  | error e => simp
  | ok e => simp

/-- One transaction consumes the lock under a reference and produces the lock under another. -/
structure Passes (archive : Archive) (r r' : OutputRef) : Prop where
  consumed : (archive.lockAt? r).isSome = true
  produced : (archive.lockAt? r').isSome = true
  exists_transaction : ∃ t, archive[r'.transaction]? = some t ∧ r ∈ t.content.inputs

/-- At most one archived transaction consumes what is under a reference. -/
def ConsumedOnce (archive : Archive) (r : OutputRef) : Prop :=
  ∀ (id id' : TransactionId) (t t' : Transaction), archive[id]? = some t →
    archive[id']? = some t' → r ∈ t.content.inputs → r ∈ t'.content.inputs → id = id'

/-- Where there is one consumer at most, a lock passes on in one transaction. -/
theorem Passes.transaction_eq (h : archive.Passes r r') (h' : archive.Passes r r'')
    (honce : archive.ConsumedOnce r) : r'.transaction = r''.transaction := by
  obtain ⟨t, ht, hr⟩ := h.exists_transaction
  obtain ⟨t', ht', hr'⟩ := h'.exists_transaction
  exact honce _ _ t t' ht ht' hr hr'

/-- A re-issuance creates a lock: it consumes a request alone, and the lock is active, names the
parties of the request and is over assets. -/
structure CreatesLock (archive : Archive) (t : Transaction) (lock : Lock) : Prop where
  carries : ∃ command ∈ t.content.commands, command.kind = .acceptRequest
  isActive : lock.isActive = true
  exists_request : ∃ e request, t.content.inputs = [e.ref] ∧ archive.resolve e.ref = .ok e ∧
    e.entity.request? = some request ∧ lock.issuer = request.issuer ∧
    lock.requester = request.requester
  holdsAssets : lock.HoldsAssets

/-- An unlocking produces a lock: it consumes one lock, which is active, and the lock produced is
free and equal to that one but for the status, which is inactive. -/
structure ReleasesLock (archive : Archive) (t : Transaction) (e : Entity) (lock : Lock) : Prop where
  carries : ∃ command ∈ t.content.commands, command.kind = .deactivateLock
  isInactive : lock.isActive = false
  isFree : e.encumbrance = none
  exists_lock : ∃ r ∈ t.content.inputs, ∃ consumed, archive.lockAt? r = some consumed ∧
    consumed.isActive = true ∧ lock = { consumed with status := .inactive } ∧
    ∀ r' ∈ t.content.inputs, (archive.lockAt? r').isSome = true → r' = r

namespace Verified

variable [Cryptosystem]

/-- An active lock in a verified archive is over assets. -/
theorem holdsAssets (h : archive.Verified) (ht : archive[id]? = some t) {index : Nat}
    (houtput : t.content.outputs[index]? = some e) (hlock : e.lock? = some lock)
    (hactive : lock.isActive = true) : lock.HoldsAssets := by
  obtain ⟨inputs, attachments, -, hcheck⟩ := h.admits ht
  obtain ⟨_, _, -, -, hreissues, -⟩ := Rules.reissues_of_isActive hcheck houtput hlock hactive
  exact hreissues.holdsAssets

theorem consumesAssets (h : archive.Verified) {c : Content} {inputs : List Located}
    (hinputs : archive.resolveInputs c = .ok inputs) : Rules.ConsumesAssets inputs := by
  intro lockRef lock hconsumes
  obtain ⟨input, hmem, -, hlock⟩ := hconsumes.exists_mem
  obtain ⟨source, hsource, houtput⟩ := exists_source_of_mem hinputs hmem
  exact h.holdsAssets hsource houtput hlock hconsumes.isActive

/-- A lock is the last output of the re-issuance that creates it or the unlocking that releases
it. -/
theorem createsLock_or_releasesLock (h : archive.Verified) (ht : archive[id]? = some t)
    {index : Nat} (houtput : t.content.outputs[index]? = some e) (hlock : e.lock? = some lock) :
    index + 1 = t.content.outputs.length ∧
      (archive.CreatesLock t lock ∨ archive.ReleasesLock t e lock) := by
  obtain ⟨inputs, attachments, hinputs, hcheck⟩ := h.admits ht
  have hrefs := (Rules.check_eq_ok_iff.mp hcheck).2.1.refs_eq
  rcases Rules.reissues_or_unlocks_of_check hcheck houtput hlock with
    ⟨request, copies, hstep, hsole, hreissues, hindex⟩ |
    ⟨lockRef, consumed, released, hstep, hconsumes, hunlocks, rfl, hindex⟩
  · obtain ⟨command, hcommand, hkind⟩ := Rules.exists_command_of_stepOf hstep
    obtain ⟨input, rfl, hrequest⟩ := Rules.soleRequest_eq_ok_iff.mp hsole
    refine ⟨by rw [hindex, hreissues.length_outputs], .inl ?_⟩
    exact {
      carries := ⟨command, hcommand, CommandKind.step?_eq_reissue_iff.mp hkind⟩
      isActive := hreissues.isActive
      exists_request := ⟨input, request, hrefs.symm,
        resolve_of_mem hinputs (List.mem_singleton_self input), hrequest, hreissues.issuer_eq,
        hreissues.requester_eq⟩
      holdsAssets := hreissues.holdsAssets }
  · obtain ⟨command, hcommand, hkind⟩ := Rules.exists_command_of_stepOf hstep
    obtain ⟨input, hmem, href, hheld⟩ := hconsumes.exists_mem
    have hresolve := resolve_of_mem hinputs hmem
    refine ⟨?_, .inr ?_⟩
    · rw [hindex, hunlocks.outputs_eq, List.length_append, List.length_singleton]
    · refine {
        carries := ⟨command, hcommand, CommandKind.step?_eq_unlock_iff.mp hkind⟩
        isInactive := rfl
        isFree := by simpa [Entity.isEncumbered] using hunlocks.isFree
        exists_lock := ⟨input.ref, hrefs ▸ List.mem_map_of_mem hmem, consumed,
          lockAt?_eq_some_iff.mpr ⟨input, hresolve, hheld⟩, hconsumes.isActive, rfl, ?_⟩ }
      intro r hr hsome
      obtain ⟨other, hother⟩ := Option.isSome_iff_exists.mp hsome
      obtain ⟨found, hfound, hlocked⟩ := lockAt?_eq_some_iff.mp hother
      obtain ⟨held, hheld, hsame⟩ := exists_mem_of_mem hinputs hr
      obtain rfl := Except.ok.inj (hsame.symm.trans hfound)
      rw [href, ← (hconsumes.eq_of_mem hheld hlocked).1, (resolve_eq_ok_iff.mp hfound).1]

/-- A lock is consumed only while it is active. -/
theorem isActive_of_mem (h : archive.Verified) (ht : archive[id]? = some t)
    (hr : r ∈ t.content.inputs) (hlock : archive.lockAt? r = some lock) :
    lock.isActive = true := by
  obtain ⟨inputs, attachments, hinputs, hcheck⟩ := h.admits ht
  obtain ⟨e, he, hlocked⟩ := lockAt?_eq_some_iff.mp hlock
  obtain ⟨held, hmem, hheld⟩ := exists_mem_of_mem hinputs hr
  obtain rfl := Except.ok.inj (hheld.symm.trans he)
  exact (Rules.consumesLock_of_check hcheck hmem hlocked).1.isActive

/-- A lock passes on by being released. -/
theorem releasesLock_of_passes (h : archive.Verified) (hpasses : archive.Passes r r') :
    ∃ t e lock, archive[r'.transaction]? = some t ∧ archive.lockAt? r' = some lock ∧
      r'.index.toNat + 1 = t.content.outputs.length ∧ archive.ReleasesLock t e lock ∧
      r ∈ t.content.inputs := by
  obtain ⟨t, ht, hr⟩ := hpasses.exists_transaction
  obtain ⟨lock, hlock⟩ := Option.isSome_iff_exists.mp hpasses.produced
  obtain ⟨e, he, hlocked⟩ := lockAt?_eq_some_iff.mp hlock
  obtain ⟨-, source, hsource, houtput⟩ := resolve_eq_ok_iff.mp he
  obtain rfl := Option.some.inj (ht.symm.trans hsource)
  obtain ⟨hlast, hcreates | hreleases⟩ := h.createsLock_or_releasesLock ht houtput hlocked
  · -- A re-issuance consumes a request alone, and a request is no lock.
    obtain ⟨held, request, hinputs, hresolve, hrequest, -⟩ := hcreates.exists_request
    rw [hinputs, List.mem_singleton] at hr
    have hnone : archive.lockAt? r = none := by
      unfold lockAt?
      rw [hr, hresolve]
      exact Entity.lock?_eq_none_of_request? hrequest
    have hsome := hpasses.consumed
    rw [hnone] at hsome
    cases hsome
  · exact ⟨t, e.entity, lock, ht, hlock, hlast, hreleases, hr⟩

end Verified

variable [Cryptosystem]

/-- In a verified archive, every lock is the last output of the re-issuance that creates it or of
the unlocking that releases it; every request is the one output of a transaction that consumes
nothing; no inactive lock is consumed, and a request only alone, by accepting or rejecting it. So a
lock passes on from active to inactive and no further, to one place only in each transaction that
consumes it, and to one place altogether if the archive has one consumer of it at most. -/
theorem lifecycle_of_verified (h : archive.Verified) :
    (∀ (id : TransactionId) (t : Transaction), archive[id]? = some t →
      (∀ index e lock, t.content.outputs[index]? = some e → e.lock? = some lock →
        index + 1 = t.content.outputs.length ∧
          (archive.CreatesLock t lock ∨ archive.ReleasesLock t e lock)) ∧
      (∀ e ∈ t.content.outputs, ∀ request, e.request? = some request →
        t.content.outputs = [e] ∧ t.content.inputs = []) ∧
      ∀ r ∈ t.content.inputs, ∃ e, archive.resolve r = .ok e ∧
        (∀ lock, e.entity.lock? = some lock → lock.isActive = true) ∧
        ∀ request, e.entity.request? = some request → t.content.inputs = [r] ∧
          ∃ command ∈ t.content.commands,
            command.kind = .acceptRequest ∨ command.kind = .rejectRequest) ∧
    (∀ r r', archive.Passes r r' →
      (∃ lock, archive.lockAt? r = some lock ∧ lock.isActive = true ∧
        archive.lockAt? r' = some { lock with status := .inactive }) ∧
      ∀ r'', ¬ archive.Passes r' r'') ∧
    ∀ r r' r'', archive.Passes r r' → archive.Passes r r'' →
      r'.transaction = r''.transaction ∨ archive.ConsumedOnce r → r' = r'' := by
  have hpasses : ∀ r r', archive.Passes r r' → ∃ lock, archive.lockAt? r = some lock ∧
      lock.isActive = true ∧ archive.lockAt? r' = some { lock with status := .inactive } := by
    intro r r' hpasses
    obtain ⟨t, e, lock, ht, hlock, -, hreleases, hr⟩ := h.releasesLock_of_passes hpasses
    obtain ⟨lockRef, -, consumed, hconsumed, hactive, rfl, hunique⟩ := hreleases.exists_lock
    rw [← hunique r hr hpasses.consumed] at hconsumed
    exact ⟨consumed, hconsumed, hactive, hlock⟩
  refine ⟨?_, ?_, ?_⟩
  · intro id t ht
    obtain ⟨inputs, attachments, hinputs, hcheck⟩ := h.admits ht
    have hrefs := (Rules.check_eq_ok_iff.mp hcheck).2.1.refs_eq
    have hassets := h.consumesAssets hinputs
    refine ⟨fun _ _ _ houtput hlock ↦ h.createsLock_or_releasesLock ht houtput hlock, ?_, ?_⟩
    · intro e he request hrequest
      obtain ⟨rfl, houtputs, -⟩ := Rules.outputs_eq_of_request? hcheck hassets he hrequest
      exact ⟨houtputs, hrefs.symm⟩
    · intro r hr
      obtain ⟨e, hmem, he⟩ := exists_mem_of_mem hinputs hr
      refine ⟨e, he, ?_, ?_⟩
      · intro lock hlock
        exact h.isActive_of_mem ht hr (lockAt?_eq_some_iff.mpr ⟨e, he, hlock⟩)
      · intro request hrequest
        obtain ⟨rfl, hcommand⟩ := Rules.inputs_eq_of_request? hcheck hassets hmem hrequest
        exact ⟨hrefs.symm.trans (congrArg (· :: []) (resolve_eq_ok_iff.mp he).1), hcommand⟩
  · intro r r' hpass
    refine ⟨hpasses r r' hpass, ?_⟩
    intro r'' hnext
    obtain ⟨lock, -, -, hinactive⟩ := hpasses r r' hpass
    obtain ⟨next, hnext, hactive, -⟩ := hpasses r' r'' hnext
    rw [hinactive, Option.some.injEq] at hnext
    rw [← hnext] at hactive
    exact nomatch hactive
  · intro r r' r'' hpass hpass' hsame
    have htransaction : r'.transaction = r''.transaction :=
      hsame.elim id (hpass.transaction_eq hpass')
    obtain ⟨t, -, -, ht, -, hlast, -⟩ := h.releasesLock_of_passes hpass
    obtain ⟨t', -, -, ht', -, hlast', -⟩ := h.releasesLock_of_passes hpass'
    rw [htransaction] at ht
    obtain rfl := Option.some.inj (ht.symm.trans ht')
    have hindex : r'.index = r''.index := UInt32.toNat_inj.mp (by omega)
    calc
      r' = ⟨r'.transaction, r'.index⟩ := rfl
      _ = r'' := by rw [htransaction, hindex]

end

/-! ### A lock that is released -/

namespace Released

open Trial (key notary issuer)
open Rules.Deletion (original reissue)

/-- The request for the re-issuance of the original. -/
def request : Transaction where
  id := Rules.Deletion.request.ref.transaction
  content := {
    inputs := []
    outputs := [Rules.Deletion.request.entity]
    commands := [.signedBy .createRequest [key 2]]
    notary := notary
    attachments := []
    salt := .replicate 32 0 }
  endorsements := []

/-- The exit of the original. -/
def exit : Transaction :=
  let content : Content := {
    inputs := [original.ref]
    outputs := []
    commands := [.asset "Exit" [key 2]]
    notary := notary
    attachments := []
    salt := .replicate 32 1 }
  (@Transaction.ofContent .clear content).endorse
    (@Endorsement.make .clear ⟨notary.key.block⟩ notary.key (@Content.id .clear content))

def proof : Bytes := encode exit

/-- The unlocking of the copy, lock first. -/
def unlock : Transaction where
  id := ⟨.replicate 32 6⟩
  content := {
    inputs := [reissue.outputRef 1, reissue.outputRef 0]
    outputs := [
      original.entity,
      ⟨.lock ⟨issuer, key 2, [original], .inactive, []⟩, [key 2, key 1], notary, none⟩]
    commands := [.signedBy .deactivateLock [key 2]]
    notary := notary
    attachments := [@AttachmentId.ofBlob .clear proof]
    salt := .replicate 32 0 }
  endorsements := []

/-- The archive with all three. -/
def archive : Archive := ((add ∅ request).add reissue).add unlock

theorem verified : @Verified .clear archive := by
  let _ : Cryptosystem := .clear
  refine .add (.add (.add .empty ⟨[], ∅, ?_, ?_⟩) ⟨request.located, ∅, ?_, ?_⟩)
    ⟨reissue.located.reverse, Attachments.add ∅ proof, ?_, ?_⟩
  all_goals decide +kernel

end Released

open Released in
theorem released_passes :
    ∃ r r' : OutputRef, Released.archive.Passes r r' ∧
      ∃ lock, Released.archive.lockAt? r = some lock ∧ lock.isActive = true ∧
        Released.archive.lockAt? r' = some { lock with status := .inactive } := by
  have hpasses :
      Released.archive.Passes (Rules.Deletion.reissue.outputRef 1) (unlock.outputRef 1) :=
    ⟨by decide +kernel, by decide +kernel, unlock, by decide +kernel, by decide⟩
  obtain ⟨-, hpass, -⟩ := @lifecycle_of_verified Released.archive .clear verified
  exact ⟨_, _, hpasses, (hpass _ _ hpasses).1⟩

/-! ### A lock that is released twice -/

namespace Released

/-- The unlocking once more, under another salt. -/
def unlockAgain : Transaction where
  id := ⟨.replicate 32 7⟩
  content := { unlock.content with salt := .replicate 32 1 }
  endorsements := []

/-- The rules have nothing against it, as they do not see that the inputs are consumed already. -/
theorem verified_unlockAgain : @Verified .clear (archive.add unlockAgain) := by
  let _ : Cryptosystem := .clear
  refine verified.add ⟨Rules.Deletion.reissue.located.reverse, Attachments.add ∅ proof, ?_, ?_⟩
  all_goals decide +kernel

end Released

open Released in
/-- By the rules alone, an active lock may pass on to two inactive ones. -/
theorem not_passes_once :
    ¬ ∀ archive : Archive, @Verified .clear archive → ∀ r r' r'' : OutputRef,
      archive.Passes r r' → archive.Passes r r'' → r' = r'' := by
  intro honce
  have hfirst : (Released.archive.add unlockAgain).Passes (Rules.Deletion.reissue.outputRef 1)
      (unlock.outputRef 1) :=
    ⟨by decide +kernel, by decide +kernel, unlock, by decide +kernel, by decide⟩
  have hagain : (Released.archive.add unlockAgain).Passes (Rules.Deletion.reissue.outputRef 1)
      (unlockAgain.outputRef 1) :=
    ⟨by decide +kernel, by decide +kernel, unlockAgain, by decide +kernel, by decide⟩
  have hsame := honce _ verified_unlockAgain _ _ _ hfirst hagain
  exact absurd hsame (by decide)

end Custody.Archive
