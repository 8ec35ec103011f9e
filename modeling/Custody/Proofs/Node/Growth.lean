import Custody.Proofs.Ledger.Growth
import Custody.Proofs.Rules.Steps
import Custody.Respondent

/-!
# Judgements stand

A node never lets go of a transaction or a blob, nor replaces one. Inputs keep resolving to the same
entities, and a content that obeys the rules keeps obeying them when blobs are added. So a
judgement, once passed, stands.
-/

namespace Custody

/-! ### The rules -/

namespace Rules

variable {c : Content} {inputs : List Located} {attachments attachments' : Attachments}

theorem Holds.of_held {ids : List AttachmentId} {proofs : List (AttachmentId × Bytes)}
    (hle : ∀ id ∈ ids, ∀ blob, attachments[id]? = some blob → attachments'[id]? = some blob)
    (h : Holds attachments ids proofs) : Holds attachments' ids proofs :=
  Outcome.forall₂_of_mem h fun id hid _ hproof ↦ ⟨hproof.1, hle id hid _ hproof.2⟩

/-- Of the blobs at hand only those count that a transaction refers to. -/
theorem check_of_held [Cryptosystem]
    (hle : ∀ id ∈ c.attachments, ∀ blob, attachments[id]? = some blob →
      attachments'[id]? = some blob)
    (h : check c inputs attachments = .ok ()) : check c inputs attachments' = .ok () := by
  rw [check_eq_ok_iff] at h ⊢
  obtain ⟨hwell, hmatch, step, hstep, hcheck⟩ := h
  refine ⟨hwell, hmatch, step, hstep, ?_⟩
  cases step with
  | none => exact hcheck
  | some step =>
  cases step with
  | unlock =>
    obtain ⟨lock, released, lockOutput, proofs, verified, hlock, hunlocks, hproofs, hverified⟩ :=
      checkUnlock_eq_ok_iff.mp hcheck
    exact checkUnlock_eq_ok_iff.mpr ⟨lock, released, lockOutput, proofs, verified, hlock, hunlocks,
      hproofs.of_held hle, hverified⟩
  | request => exact hcheck
  | reissue => exact hcheck
  | reject => exact hcheck
  | delete => exact hcheck

/-- Further blobs do not stand in the way of a transaction. -/
theorem check_mono [Cryptosystem] (hle : Extends attachments attachments')
    (h : check c inputs attachments = .ok ()) : check c inputs attachments' = .ok () :=
  check_of_held (fun id _ ↦ hle id) h

end Rules

namespace Node

variable {n n' n'' : Node} {c : Content}

/-! ### Growing -/

/-- The stores of the second node hold all that those of the first hold. -/
structure Grows (n n' : Node) : Prop where
  archive : Extends n.ledger.archive n'.ledger.archive
  attachments : Extends n.attachments n'.attachments

theorem Grows.refl : n.Grows n := ⟨.refl, .refl⟩

theorem Grows.trans (h : n.Grows n') (h' : n'.Grows n'') : n.Grows n'' :=
  ⟨h.archive.trans h'.archive, h.attachments.trans h'.attachments⟩

theorem grows_record {t : Transaction} : n.Grows (n.record t) := by
  refine ⟨?_, .refl⟩
  unfold record Ledger.record
  split
  · exact .refl
  · exact .insertIfNew

theorem mem_archive_record {t : Transaction} : t.id ∈ (n.record t).ledger.archive :=
  Ledger.mem_archive_record

variable [Cryptosystem]

theorem grows_attach {blob : Bytes} : n.Grows (n.attach blob) := ⟨.refl, .insertIfNew⟩

/-! ### Judging -/

theorem judge_eq_ok_iff {u : Unit} :
    n.judge c = .ok u ↔ ∃ inputs, n.ledger.archive.resolveInputs c = .ok inputs ∧
      Rules.check c inputs n.attachments = .ok () := by
  unfold judge
  simp only [Outcome.bind_eq_ok_iff, Outcome.mapError_eq_ok_iff]

theorem judge_mono (hgrows : n.Grows n') (h : n.judge c = .ok ()) : n'.judge c = .ok () := by
  obtain ⟨inputs, hinputs, hcheck⟩ := judge_eq_ok_iff.mp h
  exact judge_eq_ok_iff.mpr ⟨inputs, Archive.resolveInputs_mono hgrows.archive hinputs,
    Rules.check_mono hgrows.attachments hcheck⟩

end Node

end Custody
