import Custody.Proofs.Network.History
import Custody.Proofs.Rules.LockOutputs
import Custody.Proofs.Trial

/-!
# Releases

A lock over copies is released by unlocking it, once: whatever consumes it is unique. What an
unlocking releases comes from a re-issuance of its own, and no node re-issues what it knows to be
consumed, or to be under a lock that it has not seen consumed. A node knows only what it has
recorded, though. The holder of an original exits it without telling the issuer, in whose vault the
original stays live; once the first lock is gone the issuer re-issues the same original again, and
the proof of the one exit releases the second copy as it did the first.
-/

namespace Custody

/-- The output at a position is an active lock whose snapshot names a reference. -/
def Transaction.Locks (t : Transaction) (index : UInt32) (r : OutputRef) : Prop :=
  ∃ e lock, t.content.outputs[index.toNat]? = some e ∧ e.lock? = some lock ∧
    lock.isActive = true ∧ r ∈ lock.snapshotRefs

/-! ### What a node has archived -/

namespace Node

variable [Cryptosystem] {n : Node} {c : Content} {t : Transaction} {id : TransactionId}
  {r lockRef : OutputRef} {e : Located} {lock : Lock}

/-- A lock is consumed while it is active, by unlocking or deleting. -/
theorem isActive_of_judge (hjudge : n.judge c = .ok ()) (hinput : lockRef ∈ c.inputs)
    (hresolve : n.ledger.archive.resolve lockRef = .ok e) (hlock : e.entity.lock? = some lock) :
    lock.isActive = true ∧
      ∃ command ∈ c.commands, command.kind = .deactivateLock ∨ command.kind = .deleteLock := by
  obtain ⟨inputs, hinputs, hcheck⟩ := judge_eq_ok_iff.mp hjudge
  obtain ⟨held, hmem, hheld⟩ := Archive.exists_mem_of_mem hinputs hinput
  obtain rfl := Except.ok.inj (hheld.symm.trans hresolve)
  obtain ⟨hconsumes, hstep⟩ := Rules.consumesLock_of_check hcheck hmem hlock
  refine ⟨hconsumes.isActive, ?_⟩
  rcases hstep with hstep | hstep
  · obtain ⟨command, hcommand, hkind⟩ := Rules.exists_command_of_stepOf hstep
    exact ⟨command, hcommand, .inl (CommandKind.step?_eq_unlock_iff.mp hkind)⟩
  · obtain ⟨command, hcommand, hkind⟩ := Rules.exists_command_of_stepOf hstep
    exact ⟨command, hcommand, .inr (CommandKind.step?_eq_delete_iff.mp hkind)⟩

/-- An archived transaction with an active lock re-issues, and the lock is its last output. -/
theorem Sound.locks_last (h : n.Sound) (ht : n.ledger.archive[id]? = some t) {index : UInt32}
    (hlocks : t.Locks index r) :
    (∃ command ∈ t.content.commands, command.kind = .acceptRequest) ∧
      index.toNat + 1 = t.content.outputs.length := by
  have hjudge := (h id t ht).2.2
  obtain ⟨inputs, -, hcheck⟩ := judge_eq_ok_iff.mp hjudge
  obtain ⟨entity, held, houtput, hlock, hactive, -⟩ := hlocks
  obtain ⟨request, copies, hstep, -, hreissues, hindex⟩ :=
    Rules.reissues_of_isActive hcheck houtput hlock hactive
  obtain ⟨command, hcommand, hkind⟩ := Rules.exists_command_of_stepOf hstep
  refine ⟨⟨command, hcommand, CommandKind.step?_eq_reissue_iff.mp hkind⟩, ?_⟩
  rw [hindex, hreissues.length_outputs]

/-- As far as a node has archived, nothing consumes what is under a reference, and every lock over
it has been unlocked or deleted. -/
structure LeavesFree (n : Node) (r : OutputRef) : Prop where
  notMem_inputs : ∀ (id : TransactionId) (t : Transaction), n.ledger.archive[id]? = some t →
    r ∉ t.content.inputs
  exists_consumer : ∀ (id : TransactionId) (t : Transaction) (index : UInt32),
    n.ledger.archive[id]? = some t → t.Locks index r →
    ∃ (consumer : TransactionId) (u : Transaction), n.ledger.archive[consumer]? = some u ∧
      t.outputRef index ∈ u.content.inputs ∧
      ∃ command ∈ u.content.commands, command.kind = .deactivateLock ∨ command.kind = .deleteLock

/-- A node is ready to re-issue only what its archive leaves free. -/
theorem Orderly.leavesFree (h : n.Orderly) (hready : n.Reissuable r) : n.LeavesFree r := by
  constructor
  · intro id t ht hinput
    obtain ⟨held, hheld⟩ := Option.isSome_iff_exists.mp hready.isLive
    have hnone := (Vault.live?_eq_some_iff.mp hheld).1
    have hconsumed := h.faithful.consumed id t ht r hinput
    rw [hnone] at hconsumed
    cases hconsumed
  · intro id t index ht hlocks
    have hlast := (h.sound.locks_last ht hlocks).2
    obtain ⟨entity, held, houtput, hlock, hactive, hr⟩ := hlocks
    have hmem : (⟨entity, t.outputRef index⟩ : Located) ∈ t.located :=
      Transaction.mem_located_of_getElem? rfl houtput
    have hsize : t.content.outputs.length ≤ 2 ^ 32 := by
      have hlt := index.toNat_lt
      omega
    rcases h.faithful.mem_locksGoverning ht hsize hmem hlock hactive hr with hgoverning | hconsumed
    · rw [hready.locksGoverning_eq] at hgoverning
      exact absurd hgoverning List.not_mem_nil
    · obtain ⟨consumer, u, hu, hinput⟩ := hconsumed
      have hjudge := (h.sound consumer u hu).2.2
      have hresolve : n.ledger.archive.resolve (t.outputRef index) =
          .ok ⟨entity, t.outputRef index⟩ := by
        refine Archive.resolve_eq_ok_iff.mpr ⟨rfl, t, ?_, houtput⟩
        rw [← ht, ← (h.sound id t ht).1]
        rfl
      exact ⟨consumer, u, hu, hinput, (isActive_of_judge hjudge hinput hresolve hlock).2⟩

end Node

/-! ### What is released -/

/-- Whether the output under a reference, as an archive has it, is a lock whose snapshot names
another reference. -/
def Archive.isLockOver (archive : Archive) (lockRef r : OutputRef) : Bool :=
  match archive.resolve lockRef with
  | .ok e => e.entity.lock?.any (·.governs r)
  | .error _ => false

theorem Archive.isLockOver_eq_true_iff {archive : Archive} {lockRef r : OutputRef} :
    archive.isLockOver lockRef r = true ↔
      ∃ e, archive.resolve lockRef = .ok e ∧ Vault.Names e r := by
  unfold isLockOver Vault.Names
  cases archive.resolve lockRef with
  | error e => simp
  | ok e => simp [Lock.governs, Option.any_eq_true]

namespace History

/-- Every lock over a reference that was unlocked, with the transaction that did and the name of the
node that had it finalised. -/
def releases (h : History) (r : OutputRef) : List (String × Transaction × OutputRef) :=
  h.finalised.flatMap fun (name, u) ↦
    match h.net.nodes[name]? with
    | none => []
    | some node =>
      if u.content.commands.any (·.kind == .deactivateLock) then
        (u.content.inputs.filter (node.ledger.archive.isLockOver · r)).map fun lockRef ↦
          (name, u, lockRef)
      else []

/-- Whatever is released under a reference is released by one transaction. -/
def ReleasedOnce (h : History) (r : OutputRef) : Prop :=
  ∀ name name' u u' lockRef lockRef', (name, u, lockRef) ∈ h.releases r →
    (name', u', lockRef') ∈ h.releases r → u.id = u'.id

variable {h : History} {name name' : String} {t u u' : Transaction} {lockRef r : OutputRef}

theorem mem_releases_iff :
    (name, u, lockRef) ∈ h.releases r ↔ (name, u) ∈ h.finalised ∧
      (∃ command ∈ u.content.commands, command.kind = .deactivateLock) ∧
      lockRef ∈ u.content.inputs ∧
      ∃ node e, h.net.nodes[name]? = some node ∧ node.ledger.archive.resolve lockRef = .ok e ∧
        Vault.Names e r := by
  unfold releases
  rw [List.mem_flatMap]
  constructor
  · rintro ⟨⟨owner, v⟩, hmem, hreleased⟩
    simp only at hreleased
    split at hreleased
    · exact absurd hreleased List.not_mem_nil
    · rename_i node hnode
      split at hreleased
      · rename_i hunlocks
        obtain ⟨ref, href, heq⟩ := List.mem_map.mp hreleased
        obtain ⟨rfl, rfl, rfl⟩ : owner = name ∧ v = u ∧ ref = lockRef := by simpa using heq
        rw [List.mem_filter] at href
        obtain ⟨e, hresolve, hnames⟩ := Archive.isLockOver_eq_true_iff.mp href.2
        exact ⟨hmem, by simpa using hunlocks, href.1, node, e, hnode, hresolve, hnames⟩
      · exact absurd hreleased List.not_mem_nil
  · rintro ⟨hmem, hunlocks, hinput, node, e, hnode, hresolve, hnames⟩
    have hany : u.content.commands.any (·.kind == .deactivateLock) = true := by simpa using hunlocks
    have hover := Archive.isLockOver_eq_true_iff.mpr ⟨e, hresolve, hnames⟩
    refine ⟨(name, u), hmem, ?_⟩
    simp only [hnode, hany, if_true, List.mem_map, List.mem_filter]
    exact ⟨lockRef, ⟨hinput, hover⟩, rfl⟩

variable [Cryptosystem]

/-- One lock is released at most once. -/
theorem Sound.id_eq_of_mem_releases (hsound : h.Sound) (hu : (name, u, lockRef) ∈ h.releases r)
    (hu' : (name', u', lockRef) ∈ h.releases r) : u.id = u'.id := by
  obtain ⟨hmem, -, hinput, -⟩ := mem_releases_iff.mp hu
  obtain ⟨hmem', -, hinput', -⟩ := mem_releases_iff.mp hu'
  have hsame : some u.id = some u'.id :=
    calc
      some u.id = h.net.notary.consumedBy? lockRef :=
        (hsound.consumed name u hmem lockRef hinput).symm
      _ = some u'.id := hsound.consumed name' u' hmem' lockRef hinput'
  exact Option.some.inj hsame

/-- What is released was re-issued. -/
theorem Sound.exists_reissue_of_mem_releases (hsound : h.Sound)
    (hu : (name, u, lockRef) ∈ h.releases r) :
    ∃ owner t, (owner, t) ∈ h.finalised ∧ t.id = lockRef.transaction ∧
      (∃ command ∈ t.content.commands, command.kind = .acceptRequest) ∧
      t.Locks lockRef.index r ∧ lockRef.index.toNat + 1 = t.content.outputs.length := by
  obtain ⟨hmem, -, hinput, node, e, hnode, hresolve, lock, hlock, hr⟩ := mem_releases_iff.mp hu
  obtain ⟨judge, hjudge, -, hjudged⟩ := hsound.recorded name u hmem
  obtain rfl := Option.some.inj (hjudge.symm.trans hnode)
  have hactive := (Node.isActive_of_judge hjudged hinput hresolve hlock).1
  obtain ⟨-, t, ht, houtput⟩ := Archive.resolve_eq_ok_iff.mp hresolve
  have harchive := (hsound.orderly name judge hnode).sound
  have hlocks : t.Locks lockRef.index r := ⟨e.entity, lock, houtput, hlock, hactive, hr⟩
  obtain ⟨hreissue, hlast⟩ := harchive.locks_last ht hlocks
  obtain ⟨owner, howner⟩ := hsound.archived name judge hnode t ⟨_, ht⟩
  exact ⟨owner, t, howner, (harchive _ t ht).1, hreissue, hlocks, hlast⟩

/-- What is re-issued by one transaction only is released by one transaction only. -/
theorem Sound.releasedOnce (hsound : h.Sound)
    (hunique : ∀ owner owner' t t' index index', (owner, t) ∈ h.finalised → t.Locks index r →
      (owner', t') ∈ h.finalised → t'.Locks index' r → t = t') : h.ReleasedOnce r := by
  intro name name' u u' lockRef lockRef' hu hu'
  obtain ⟨owner, t, ht, hid, -, hlocks, hlast⟩ := hsound.exists_reissue_of_mem_releases hu
  obtain ⟨owner', t', ht', hid', -, hlocks', hlast'⟩ := hsound.exists_reissue_of_mem_releases hu'
  have hsame : t = t' := hunique owner owner' t t' _ _ ht hlocks ht' hlocks'
  rw [← hsame] at hid' hlast'
  have hindex : lockRef.index = lockRef'.index := UInt32.toNat_inj.mp (by omega)
  have href : lockRef = lockRef' :=
    calc
      lockRef = ⟨t.id, lockRef.index⟩ := by rw [hid]
      _ = lockRef' := by rw [hid', hindex]
  rw [← href] at hu'
  exact hsound.id_eq_of_mem_releases hu hu'

/-- A node has a re-issuance finalised only if it is ready for it. -/
theorem exists_reissuable_of_mem {action : Action} {index : UInt32}
    (ht : (name, t) ∈ h.net.finalisedBy action) (hlocks : t.Locks index r) :
    ∃ node, h.net.nodes[name]? = some node ∧ node.Reissuable r := by
  obtain ⟨salt, operation, node, p, rfl, hnode, hp, hcontent⟩ := exists_proposal_of_mem ht
  obtain ⟨entity, lock, houtput, hlock, hactive, hr⟩ := hlocks
  rw [hcontent] at houtput
  have hproposed := Node.reissuable_of_propose hp (List.mem_of_getElem? houtput) hlock hactive
  exact ⟨node, hnode, hproposed.2.2 r hr⟩

/-- However a history went on a new network, every lock over `r` is released by one transaction at
most, and it is the active lock at the end of a re-issuance that was finalised in the history; so
what was re-issued once is released once. A node has a re-issuance of `r` finalised only while its
archive leaves `r` free, and it archives what it has finalised; so its re-issuances of one original
follow upon each other, each after the release or deletion of the one before. -/
theorem releases_of_new [Cryptosystem.SignsVerifiably] {settings : NotarySettings} {net : Network}
    (hnew : Network.new settings = .ok net) (actions : List Action) (r : OutputRef) :
    let h := (start net).run actions
    (∀ name name' u u' lockRef, (name, u, lockRef) ∈ h.releases r →
      (name', u', lockRef) ∈ h.releases r → u.id = u'.id) ∧
    (∀ name u lockRef, (name, u, lockRef) ∈ h.releases r →
      ∃ owner t, (owner, t) ∈ h.finalised ∧ t.id = lockRef.transaction ∧
        (∃ command ∈ t.content.commands, command.kind = .acceptRequest) ∧
        t.Locks lockRef.index r ∧ lockRef.index.toNat + 1 = t.content.outputs.length) ∧
    ((∀ owner owner' t t' index index', (owner, t) ∈ h.finalised → t.Locks index r →
      (owner', t') ∈ h.finalised → t'.Locks index' r → t = t') → h.ReleasedOnce r) ∧
    (∀ action name t index, (name, t) ∈ h.net.finalisedBy action → t.Locks index r →
      ∃ node, h.net.nodes[name]? = some node ∧ node.LeavesFree r) ∧
    ∀ name t, (name, t) ∈ h.finalised →
      ∃ node, h.net.nodes[name]? = some node ∧ t.id ∈ node.ledger.archive := by
  intro h
  have hsound : h.Sound := (sound_start hnew).run actions
  refine ⟨fun _ _ _ _ _ hu hu' ↦ hsound.id_eq_of_mem_releases hu hu',
    fun _ _ _ hu ↦ hsound.exists_reissue_of_mem_releases hu, hsound.releasedOnce, ?_, ?_⟩
  · intro action name t index ht hlocks
    obtain ⟨node, hnode, hready⟩ := exists_reissuable_of_mem ht hlocks
    exact ⟨node, hnode, (hsound.orderly name node hnode).leavesFree hready⟩
  · intro name t ht
    obtain ⟨node, hnode, hmem, -⟩ := hsound.recorded name t ht
    exact ⟨node, hnode, hmem⟩

/-! ### One exit, two releases -/

/-- What is to happen next, in view of the history so far. -/
abbrev Plan := History → List Action

/-- What happens when plans are carried out one after the other. -/
def planned (h : History) : List Plan → List Action
  | [] => []
  | plan :: plans => plan h ++ (h.run (plan h)).planned plans

theorem run_planned {plans : List Plan} :
    h.run (h.planned plans) = plans.foldl (fun h plan ↦ h.run (plan h)) h := by
  induction plans generalizing h with
  | nil => rfl
  | cons plan plans ih =>
    unfold planned
    rw [run_append, ih, List.foldl_cons]

omit [Cryptosystem]

namespace Twice

def salt (n : Nat) : Block 32 := .ofNatLE 32 n

/-- The node of a name, by the key derived from the name. -/
def party (name : String) : Party := ⟨name, ⟨Cryptosystem.digest (Utf8.encode name)⟩⟩

def notary : Notary := @Notary.new .clear "Notary" ⟨(party "Notary").key.block⟩

def net : Network := ⟨notary, Directory.register ∅ notary.party, ∅, ∅⟩

theorem new_eq : @Network.new .clear {} = .ok net := rfl

/-- An output of a finalised transaction, if there is one. -/
def output (h : History) (transaction index : Nat) : List Located :=
  match h.finalised[transaction]? with
  | some (_, t) => t.located[index]?.toList
  | none => []

/-- The proof of the exit, which is the fourth transaction. -/
def proof (h : History) : List Bytes := (h.finalised[3]?.map fun (_, t) ↦ encode t).toList

/-- The holder asks for the original to be re-issued. -/
def request (n : Nat) : Plan := fun h ↦
  (output h 0 0).map fun original ↦
    .operate "Holder" (salt n) <|
      .request ⟨party "Issuer", (party "Holder").key, [original.ref], "Issue", [], false⟩ false

/-- The issuer accepts the request that a transaction made. -/
def accept (n : Nat) : Plan := fun h ↦
  (output h n 0).map fun request ↦ .operate "Issuer" (salt n) (.accept ⟨request, none, []⟩)

/-- The holder unlocks what a transaction re-issued. -/
def unlock (n : Nat) : Plan := fun h ↦
  (output h n 1).flatMap fun lock ↦ (output h n 0).flatMap fun copy ↦ (proof h).map fun blob ↦
    .operate "Holder" (salt n) <|
      .unlock ⟨lock, [copy], [@AttachmentId.ofBlob .clear blob], "Unlock", [], .observe⟩

/-- The original is issued, re-issued and exited, and the copy is unlocked; then the original is
re-issued once more, and the second copy is unlocked by the same proof. -/
def plans : List Plan := [
  fun _ ↦ [
    .start { legalName := "Issuer" } [],
    .start { legalName := "Holder" } [],
    .operate "Issuer" (salt 0) (.issue ⟨"Bond", [7]⟩ (party "Holder"))],
  request 0, accept 1,
  fun h ↦ (output h 0 0).map fun original ↦ .operate "Holder" (salt 3) (.exit original),
  fun h ↦ (proof h).map (.attach "Holder"),
  unlock 2, request 4, accept 5, unlock 6]

def actions : List Action := @planned .clear (start net) plans

/-- Whether there are two entries, of different transactions. -/
def areTwo : List (String × Transaction × OutputRef) → Bool
  | [(_, u, _), (_, u', _)] => u.id != u'.id
  | _ => false

theorem exists_of_areTwo {releases : List (String × Transaction × OutputRef)}
    (h : areTwo releases = true) :
    ∃ name name' u u' lockRef lockRef', (name, u, lockRef) ∈ releases ∧
      (name', u', lockRef') ∈ releases ∧ u.id ≠ u'.id := by
  unfold areTwo at h
  split at h
  · exact ⟨_, _, _, _, _, _, List.mem_cons_self, List.mem_cons_of_mem _ List.mem_cons_self,
      bne_iff_ne.mp h⟩
  · cases h

theorem exists_releases :
    ∃ r name name' u u' lockRef lockRef',
      (name, u, lockRef) ∈ (@run .clear (start net) actions).releases r ∧
      (name', u', lockRef') ∈ (@run .clear (start net) actions).releases r ∧ u.id ≠ u'.id := by
  rw [actions, @run_planned (start net) .clear plans]
  generalize hfinal : plans.foldl (fun h plan ↦ @run .clear h (plan h)) (start net) = final
  have htwo :
      ((output final 0 0).any fun original ↦ areTwo (final.releases original.ref)) = true := by
    rw [← hfinal]
    decide +kernel
  obtain ⟨original, -, hreleases⟩ := List.any_eq_true.mp htwo
  exact ⟨original.ref, exists_of_areTwo hreleases⟩

/-- The one exit releases two copies. -/
theorem not_releasedOnce :
    ¬ ∀ settings net actions r, @Network.new .clear settings = .ok net →
      (@run .clear (start net) actions).ReleasedOnce r := by
  intro honce
  obtain ⟨r, name, name', u, u', lockRef, lockRef', hu, hu', hne⟩ := exists_releases
  exact hne (honce {} net actions r new_eq name name' u u' lockRef lockRef' hu hu')

/-- Each of the two copies comes from a re-issuance. -/
theorem reissued_before_release :
    ∃ r name u lockRef owner t,
      (name, u, lockRef) ∈ (@run .clear (start net) actions).releases r ∧
      (owner, t) ∈ (@run .clear (start net) actions).finalised ∧
      t.id = lockRef.transaction ∧ t.Locks lockRef.index r := by
  obtain ⟨r, name, -, u, -, lockRef, -, hu, -⟩ := exists_releases
  obtain ⟨-, hreissued, -⟩ :=
    @releases_of_new .clear Cryptosystem.clear_signsVerifiably {} net new_eq actions r
  obtain ⟨owner, t, hfinalised, hid, -, hlocks, -⟩ := hreissued name u lockRef hu
  exact ⟨r, name, u, lockRef, owner, t, hu, hfinalised, hid, hlocks⟩

end Twice

end History

end Custody
