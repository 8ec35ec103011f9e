import Custody.Operation
import Custody.Proofs.Ledger.Vault
import Custody.Proofs.Node.Growth
import Custody.Proofs.Rules.LockOutputs

/-!
# What is proposed

Every operation takes a step of its own, or none, and the node has judged what it proposes by the
rules against its own stores. A node that accepts a request finds all that is asked for live in its
vault, and under no active lock there; what others have done with it since is unknown to it.
-/

namespace Custody

/-- The step of re-issuance that an operation takes. -/
def Operation.step? : Operation → Option Step
  | issue _ _ | move _ _ | exit _ => none
  | request _ _ => some .request
  | accept _ => some .reissue
  | reject _ => some .reject
  | unlock _ => some .unlock
  | delete _ => some .delete

namespace Node

open Outcome

variable {n : Node}

/-! ### What a node is ready to re-issue -/

theorem requireLive_eq_ok_iff {r : OutputRef} {e : Located} :
    n.requireLive r = .ok e ↔ n.ledger.vault.live? r = some e := by
  unfold requireLive invalidArgument
  cases n.ledger.vault.live? r with
  | none => simp
  | some held => simp

theorem requireReissuable_eq_ok_iff {entities : List Located} {u : Unit} :
    n.requireReissuable entities = .ok u ↔ ∀ e ∈ entities,
      e.entity.payload.isAsset = true ∧ n.ledger.vault.locksGoverning e.ref = [] := by
  unfold requireReissuable
  cases hother : entities.find? (!·.entity.payload.isAsset) with
  | some other =>
    have hmem := List.mem_of_find?_eq_some hother
    have hasset := List.find?_some hother
    simp only [invalidArgument, error_bind_eq, reduceCtorEq, false_iff]
    intro h
    rw [(h other hmem).1] at hasset
    cases hasset
  | none =>
    rw [List.find?_eq_none] at hother
    rw [forM_eq_ok_iff]
    apply forall₂_congr
    intro e he
    have hasset : e.entity.payload.isAsset = true := by simpa using hother e he
    rw [hasset, ← List.head?_eq_none_iff]
    cases (n.ledger.vault.locksGoverning e.ref).head? with
    | none => simp
    | some lock => simp

/-- An entity that a node is ready to re-issue. -/
structure Reissuable (n : Node) (r : OutputRef) : Prop where
  isLive : (n.ledger.vault.live? r).isSome = true
  locksGoverning_eq : n.ledger.vault.locksGoverning r = []

/-! ### Judged for a step -/

/-- A proposal whose commands take a step and which produces one entity at most. -/
structure Drafted (step : Option Step) (p : Proposal) : Prop where
  steps_eq : Rules.steps p.content = step.toList
  length_outputs_le : p.content.outputs.length ≤ 1

section

variable {stamp : Stamp}

theorem drafted_draftIssue {asset : Asset} {holder : Party} :
    Drafted none (n.draftIssue stamp asset holder) :=
  ⟨rfl, Nat.le_refl 1⟩

theorem ends_draftMove {asset : Located} {holder : Party} :
    Ends (n.draftMove stamp asset holder) (Drafted none) := by
  unfold draftMove
  apply ends_bind
  intro _ _
  exact ends_pure ⟨rfl, Nat.le_refl 1⟩

theorem ends_draftExit {asset : Located} :
    Ends (n.draftExit stamp asset) (Drafted none) := by
  unfold draftExit
  apply ends_bind
  intro _ _
  exact ends_pure ⟨rfl, Nat.zero_le 1⟩

theorem ends_draftRequest {terms : RequestTerms} {sharesHistory : Bool} :
    Ends (n.draftRequest stamp terms sharesHistory) (Drafted (some .request)) := by
  unfold draftRequest
  apply ends_bind
  intro _ _
  apply ends_when
  intro _
  apply ends_when
  intro _
  simp only
  split
  · apply ends_bind
    intro _ _
    exact ends_pure ⟨rfl, Nat.le_refl 1⟩
  · apply ends_bind
    intro _ _
    exact ends_pure ⟨rfl, Nat.le_refl 1⟩

theorem ends_draftAccept {terms : AcceptTerms} :
    Ends (n.draftAccept stamp terms) fun p ↦ Rules.steps p.content = [.reissue] := by
  unfold draftAccept
  apply ends_bind
  intro _ _
  apply ends_bind
  intro held _
  split
  · apply ends_when
    intro _
    apply ends_bind
    intro _ _
    apply ends_bind
    intro _ _
    exact ends_pure rfl
  · exact ends_error

theorem ends_draftReject {request : Located} :
    Ends (n.draftReject stamp request) (Drafted (some .reject)) := by
  unfold draftReject
  apply ends_bind
  intro held _
  split
  · apply ends_when
    intro _
    exact ends_pure ⟨rfl, Nat.zero_le 1⟩
  · exact ends_error

theorem ends_draftDelete {terms : DeleteTerms} :
    Ends (n.draftDelete stamp terms) (Drafted (some .delete)) := by
  unfold draftDelete
  apply ends_bind
  intro _ _
  apply ends_bind
  intro (lock, state) _
  apply ends_bind
  intro _ _
  apply ends_bind
  intro _ _
  exact ends_pure ⟨rfl, Nat.zero_le 1⟩

end

variable [Cryptosystem] {stamp : Stamp}

theorem ends_draftUnlock {terms : UnlockTerms} :
    Ends (n.draftUnlock stamp terms) fun p ↦ Rules.steps p.content = [.unlock] := by
  unfold draftUnlock
  apply ends_bind
  intro _ _
  apply ends_bind
  intro (lock, state) _
  apply ends_bind
  intro _ _
  apply ends_bind
  intro _ _
  apply ends_bind
  intro _ _
  apply ends_bind
  intro _ _
  exact ends_pure rfl

/-- The commands of a draft take the step of the operation. -/
theorem steps_of_draft {operation : Operation} {p : Proposal}
    (h : n.draft stamp operation = .ok p) :
    Rules.steps p.content = operation.step?.toList := by
  cases operation with
  | issue asset holder =>
    rw [← pure_eq_ok_iff.mp h]
    exact drafted_draftIssue.steps_eq
  | move asset holder => exact (ends_draftMove p h).steps_eq
  | exit asset => exact (ends_draftExit p h).steps_eq
  | request terms sharesHistory => exact (ends_draftRequest p h).steps_eq
  | accept terms => exact ends_draftAccept p h
  | reject request => exact (ends_draftReject p h).steps_eq
  | unlock terms => exact ends_draftUnlock p h
  | delete terms => exact (ends_draftDelete p h).steps_eq

/-- What is proposed is what is drafted, if the node finds it to obey the rules. -/
theorem propose_eq_ok_iff {operation : Operation} {p : Proposal} :
    n.propose stamp operation = .ok p ↔
      n.draft stamp operation = .ok p ∧ n.judge p.content = .ok () := by
  unfold propose
  simp only [bind_eq_ok_iff, pure_eq_ok_iff]
  constructor
  · rintro ⟨_, hdraft, _, hjudge, rfl⟩
    exact ⟨hdraft, hjudge⟩
  · rintro ⟨hdraft, hjudge⟩
    exact ⟨p, hdraft, (), hjudge, rfl⟩

/-- A proposal whose commands take a step, of a content that the node has found to obey the
rules. -/
structure Takes (n : Node) (step : Option Step) (p : Proposal) : Prop where
  judge_eq : n.judge p.content = .ok ()
  steps_eq : Rules.steps p.content = step.toList

theorem takes_of_propose {operation : Operation} {p : Proposal}
    (h : n.propose stamp operation = .ok p) : n.Takes operation.step? p := by
  obtain ⟨hdraft, hjudge⟩ := propose_eq_ok_iff.mp h
  exact ⟨hjudge, steps_of_draft hdraft⟩

/-- Only accepting proposes a content that re-issues. -/
theorem exists_accept_of_propose {operation : Operation} {p : Proposal}
    (h : n.propose stamp operation = .ok p)
    (hstep : Rules.stepOf p.content = .ok (some .reissue)) :
    ∃ terms, operation = .accept terms := by
  have htakes := (takes_of_propose h).steps_eq
  have hhead := (Rules.stepOf_eq_ok_iff.mp hstep).2.1
  rw [htakes] at hhead
  cases operation with
  | accept terms => exact ⟨terms, rfl⟩
  | _ => exact nomatch hhead

/-! ### Accepting -/

omit [Cryptosystem] in
/-- A node accepts only what is asked of it, and only what it is ready to re-issue. -/
theorem ends_draftAccept_reissuable {terms : AcceptTerms} :
    Ends (n.draftAccept stamp terms) fun p ↦ ∃ copies lockEntity lock,
      p.content.outputs = copies ++ [lockEntity] ∧ lockEntity.lock? = some lock ∧
        lock.issuer = n.party ∧ ∀ r ∈ lock.snapshotRefs, n.Reissuable r := by
  unfold draftAccept
  apply ends_bind
  intro _ _
  apply ends_bind
  intro held _
  split
  · refine ends_unless ?_ fun hissuer ↦ ?_
    · exact nofun
    apply ends_bind
    intro entities hentities
    apply ends_bind
    intro _ hreissuable
    refine ends_pure ⟨_, _, _, rfl, rfl, not_not.mp hissuer, ?_⟩
    intro r hr
    obtain ⟨e, he, rfl⟩ := List.mem_map.mp hr
    obtain ⟨ref, -, hrequired⟩ := exists_of_mem_right (mapM_eq_ok_iff.mp hentities) he
    have hlive := requireLive_eq_ok_iff.mp hrequired
    obtain ⟨-, -, rfl⟩ := Vault.live?_eq_some_iff.mp hlive
    exact ⟨by rw [hlive]; rfl, (requireReissuable_eq_ok_iff.mp hreissuable e he).2⟩
  · exact ends_error

/-- Active locks are proposed by accepting alone, each over what the node is ready to re-issue. -/
theorem reissuable_of_propose {operation : Operation} {p : Proposal}
    (h : n.propose stamp operation = .ok p) {e : Entity} {lock : Lock}
    (hmem : e ∈ p.content.outputs) (hlock : e.lock? = some lock) (hactive : lock.isActive = true) :
    operation.step? = some .reissue ∧ lock.issuer = n.party ∧
      ∀ r ∈ lock.snapshotRefs, n.Reissuable r := by
  obtain ⟨index, houtput⟩ := List.mem_iff_getElem?.mp hmem
  obtain ⟨inputs, -, hcheck⟩ := judge_eq_ok_iff.mp (takes_of_propose h).judge_eq
  obtain ⟨request, copies, hstep, -, hreissues, -⟩ :=
    Rules.reissues_of_isActive hcheck houtput hlock hactive
  obtain ⟨terms, rfl⟩ := exists_accept_of_propose h hstep
  obtain ⟨_, last, held, houtputs, hheld, hissuer, hready⟩ :=
    ends_draftAccept_reissuable p (propose_eq_ok_iff.mp h).1
  rw [hreissues.outputs_eq] at houtputs
  obtain rfl := (List.append_singleton_inj.mp houtputs).2
  obtain rfl := Option.some.inj (hheld.symm.trans hlock)
  exact ⟨rfl, hissuer, hready⟩

end Node

end Custody
