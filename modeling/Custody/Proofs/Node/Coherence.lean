import Custody.Proofs.Ledger.Lifecycle
import Custody.Proofs.Ledger.Recorded
import Custody.Proofs.Node.Integrity

/-!
# Coherent nodes

A node is coherent when each transaction it has archived obeyed the rules when it came, its vault
knows nothing but outputs of archived transactions, and these can be counted in 32 bits. Recording
what the node has judged keeps it coherent. What is live then resolves from the archive to the same
entity; a live request is for something and free, and a live active lock is the last output of the
re-issuance that created it.
-/

namespace Custody

namespace Ledger

variable {l : Ledger} {t : Transaction}

theorem archive_record_of_notMem (h : t.id ∉ l.archive) :
    (l.record t).1.archive = l.archive.add t := by
  unfold record
  rw [if_neg h]

end Ledger

namespace Node

variable [Cryptosystem] {n n' : Node} {t : Transaction} {r : OutputRef} {e : Located}

/-- What a node has recorded obeyed the rules, and its vault follows. -/
structure Coherent (n : Node) : Prop where
  verified : n.ledger.archive.Verified
  grounded : n.ledger.Grounded
  countable : n.ledger.Countable

/-! ### Staying coherent -/

theorem coherent_new {settings : NodeSettings} {identity : Seed} {further : List Seed} :
    (new settings identity further).Coherent :=
  ⟨.empty, Ledger.grounded_empty, Ledger.countable_empty⟩

/-- Recording what the node has judged leaves its archive verified. -/
theorem verified_record (h : n.ledger.archive.Verified) (hjudge : n.judge t.content = .ok ()) :
    (n.record t).ledger.archive.Verified := by
  by_cases hheld : t.id ∈ n.ledger.archive
  · have hsame : (n.record t).ledger = n.ledger := Ledger.record_of_mem hheld
    rwa [hsame]
  · have hadd : (n.record t).ledger.archive = n.ledger.archive.add t :=
      Ledger.archive_record_of_notMem hheld
    obtain ⟨inputs, hinputs, hcheck⟩ := judge_eq_ok_iff.mp hjudge
    rw [hadd]
    exact h.add ⟨inputs, n.attachments, hinputs, hcheck⟩

theorem Coherent.record (h : n.Coherent) (hjudge : n.judge t.content = .ok ())
    (hsize : t.content.outputs.length ≤ 2 ^ 32) : (n.record t).Coherent :=
  ⟨verified_record h.verified hjudge, h.grounded.record, h.countable.record hsize⟩

/-! ### What is live -/

namespace Coherent

/-- What is live resolves to the same entity. -/
theorem resolve_of_live (h : n.Coherent) (hlive : n.ledger.vault.live? r = some e) :
    n.ledger.archive.resolve r = .ok e := by
  obtain ⟨-, hentity, rfl⟩ := Vault.live?_eq_some_iff.mp hlive
  obtain ⟨t, ht, hlocated⟩ := h.grounded.produced e.ref e.entity hentity
  have houtput := Transaction.getElem?_of_mem_located (h.countable _ t ht) hlocated
  exact Archive.resolve_eq_ok_iff.mpr ⟨rfl, t, ht, houtput⟩

theorem exists_source_of_live (h : n.Coherent) (hlive : n.ledger.vault.live? r = some e) :
    ∃ t : Transaction, n.ledger.archive[r.transaction]? = some t ∧
      t.content.outputs[r.index.toNat]? = some e.entity :=
  (Archive.resolve_eq_ok_iff.mp (h.resolve_of_live hlive)).2

/-- A live request is for something, and nothing encumbers it. -/
theorem requested_of_live (h : n.Coherent) (hlive : n.ledger.vault.live? r = some e)
    {request : Request} (hrequest : e.entity.request? = some request) :
    request.entities ≠ [] ∧ e.entity.encumbrance = none := by
  obtain ⟨t, ht, houtput⟩ := h.exists_source_of_live hlive
  obtain ⟨inputs, attachments, hinputs, hcheck⟩ := h.verified.admits ht
  exact Rules.requested_of_request? hcheck (h.verified.consumesAssets hinputs)
    (List.mem_of_getElem? houtput) hrequest

/-- A live active lock is the last output of the re-issuance that created it. -/
theorem exists_reissues_of_live (h : n.Coherent) (hlive : n.ledger.vault.live? r = some e)
    {lock : Lock} (hlock : e.entity.lock? = some lock) (hactive : lock.isActive = true) :
    ∃ t request copies, n.ledger.archive[r.transaction]? = some t ∧ t.content.WellFormed ∧
      Rules.Reissues t.content request copies e.entity lock ∧
      r.index.toNat = copies.length := by
  obtain ⟨t, ht, houtput⟩ := h.exists_source_of_live hlive
  obtain ⟨inputs, attachments, -, hcheck⟩ := h.verified.admits ht
  obtain ⟨request, copies, -, -, hreissues, hindex⟩ :=
    Rules.reissues_of_isActive hcheck houtput hlock hactive
  exact ⟨t, request, copies, ht, (Rules.check_eq_ok_iff.mp hcheck).1, hreissues, hindex⟩

end Coherent

end Node

end Custody
