import Custody.Proofs.Ledger.LockIndex
import Custody.Proofs.Operation.Arguments

/-!
# Requests that can be accepted

The checks that a node makes before it accepts a request, put together: the request is live and
addressed to the node, and everything it names is a live asset that no active lock names. What is
acceptable is drafted, with an output for each entity asked for and one for the lock, and the node
finds the draft to obey the rules if these can be counted in 32 bits.
-/

namespace Custody

open Outcome

/-- In step with an archive, the index leads nowhere exactly if no active lock names the
reference. -/
theorem Ledger.Mirrors.locksGoverning_eq_nil_iff {l : Ledger} (h : l.Mirrors) {r : OutputRef} :
    l.vault.locksGoverning r = [] ↔ ∀ lock ∈ l.vault.activeLocks, ¬ Vault.Names lock r := by
  rw [List.eq_nil_iff_forall_not_mem]
  apply forall_congr'
  intro lock
  rw [(h.governing r).mem_iff, Vault.activeLocks, (h.locks .active).mem_iff]
  constructor
  · rintro hnone ⟨hunspent, state, hstate, hactive⟩ ⟨state', hstate', hr⟩
    obtain rfl := Option.some.inj (hstate.symm.trans hstate')
    exact hnone ⟨hunspent, state, hstate, beq_iff_eq.mpr hactive, hr⟩
  · rintro hnone ⟨hunspent, state, hstate, hactive, hr⟩
    exact hnone ⟨hunspent, state, hstate, beq_iff_eq.mp hactive⟩ ⟨state, hstate, hr⟩

namespace Node

variable {n : Node} {stamp : Stamp} {terms : AcceptTerms}

/-- The terms are in order, the request is live and addressed to the node, and all that it names are
live assets that no active lock names. -/
structure Acceptable (n : Node) (notary : Party) (terms : AcceptTerms) (request : Request) :
    Prop where
  check_eq : terms.check notary = .ok ()
  isLive : n.ledger.vault.live? terms.request.ref = some terms.request
  request?_eq : terms.request.entity.request? = some request
  issuer_eq : request.issuer = n.party
  isAsset : ∀ r ∈ request.entities, ∃ e, n.ledger.vault.live? r = some e ∧
    e.entity.payload.isAsset = true
  not_names : ∀ r ∈ request.entities, ∀ lock ∈ n.ledger.vault.activeLocks, ¬ Vault.Names lock r

/-- What is drafted is acceptable, and it has an output for each entity asked for and one for the
lock. -/
theorem ends_draftAccept_acceptable (h : n.ledger.Mirrors) :
    Ends (n.draftAccept stamp terms) fun p ↦ ∃ request, n.Acceptable stamp.notary terms request ∧
      p.content.outputs.length = request.entities.length + 1 := by
  unfold draftAccept
  apply ends_bind
  intro _ hcheck
  apply ends_bind
  intro held hheld
  have hsame := (requireStoredOne_eq_ok_iff.mp hheld).2
  split
  · rename_i request hrequest
    refine ends_unless nofun fun hissuer ↦ ?_
    apply ends_bind
    intro entities hentities
    apply ends_bind
    intro _ hreissuable
    have hrequired := requireReissuable_eq_ok_iff.mp hreissuable
    have hfound : ∀ r ∈ request.entities, ∃ e ∈ entities, n.ledger.vault.live? r = some e := by
      intro r hr
      obtain ⟨e, he, hlive⟩ := exists_of_mem_left (mapM_eq_ok_iff.mp hentities) hr
      exact ⟨e, he, requireLive_eq_ok_iff.mp hlive⟩
    have hlength := (mapM_eq_ok_iff.mp hentities).length_eq
    refine ends_pure ⟨request, ⟨hcheck, live?_of_requireStoredOne hheld, hsame ▸ hrequest,
      not_not.mp hissuer, fun r hr ↦ ?_, fun r hr ↦ ?_⟩, ?_⟩
    · obtain ⟨e, he, hlive⟩ := hfound r hr
      exact ⟨e, hlive, (hrequired e he).1⟩
    · obtain ⟨e, he, hlive⟩ := hfound r hr
      obtain ⟨-, -, rfl⟩ := Vault.live?_eq_some_iff.mp hlive
      exact h.locksGoverning_eq_nil_iff.mp (hrequired e he).2
    · simp [Stamp.content, hlength]
  · exact ends_error

/-- What is acceptable is drafted. -/
theorem Acceptable.exists_draftAccept (h : n.ledger.Mirrors) {request : Request}
    (hacceptable : n.Acceptable stamp.notary terms request) :
    ∃ p, n.draftAccept stamp terms = .ok p := by
  have hentities : ∃ entities, request.entities.mapM n.requireLive = .ok entities := by
    cases hfound : request.entities.mapM n.requireLive with
    | ok entities => exact ⟨entities, rfl⟩
    | error e =>
      obtain ⟨r, hr, hfails⟩ := exists_of_mapM_eq_error hfound
      obtain ⟨held, hlive, -⟩ := hacceptable.isAsset r hr
      rw [requireLive_eq_ok_iff.mpr hlive] at hfails
      cases hfails
  obtain ⟨entities, hentities⟩ := hentities
  have hreissuable : n.requireReissuable entities = .ok () := by
    refine requireReissuable_eq_ok_iff.mpr fun e he ↦ ?_
    obtain ⟨r, hr, hrequired⟩ := exists_of_mem_right (mapM_eq_ok_iff.mp hentities) he
    have hlive := requireLive_eq_ok_iff.mp hrequired
    obtain ⟨-, -, rfl⟩ := Vault.live?_eq_some_iff.mp hlive
    obtain ⟨held, hheld, hasset⟩ := hacceptable.isAsset e.ref hr
    obtain rfl := Option.some.inj (hlive.symm.trans hheld)
    exact ⟨hasset, h.locksGoverning_eq_nil_iff.mpr (hacceptable.not_names e.ref hr)⟩
  unfold draftAccept
  rw [hacceptable.check_eq, requireStoredOne_of_live hacceptable.isLive]
  simp only [bind, Except.bind, hacceptable.request?_eq, hacceptable.issuer_eq, ne_eq,
    not_true_eq_false, if_false, hentities, hreissuable]
  exact ⟨_, rfl⟩

variable [Cryptosystem]

/-- A node proposes to accept what is acceptable, if copies and lock can be counted in 32 bits. -/
theorem Coherent.exists_propose_accept_iff (h : n.Coherent) (hmirrors : n.ledger.Mirrors) :
    (∃ p, n.propose stamp (.accept terms) = .ok p) ↔
      ∃ request, n.Acceptable stamp.notary terms request ∧
        request.entities.length + 1 < 2 ^ 32 := by
  simp only [propose_eq_ok_iff]
  constructor
  · rintro ⟨p, hdraft, hjudge⟩
    obtain ⟨request, hacceptable, hlength⟩ := ends_draftAccept_acceptable hmirrors p hdraft
    refine ⟨request, hacceptable, ?_⟩
    rw [← hlength]
    exact (ends_draftAccept_approves_iff h p hdraft).mp hjudge
  · rintro ⟨request, hacceptable, hsize⟩
    obtain ⟨p, hdraft⟩ := hacceptable.exists_draftAccept hmirrors
    obtain ⟨request', hacceptable', hlength⟩ := ends_draftAccept_acceptable hmirrors p hdraft
    obtain rfl := Option.some.inj (hacceptable.request?_eq.symm.trans hacceptable'.request?_eq)
    refine ⟨p, hdraft, (ends_draftAccept_approves_iff h p hdraft).mpr ?_⟩
    rwa [hlength]

end Node

end Custody
