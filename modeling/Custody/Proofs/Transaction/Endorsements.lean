import Custody.Proofs.Maps
import Custody.Proofs.Outcome
import Custody.Transaction.Checks

/-!
# Endorsements of a transaction

What the check of endorsements establishes, and what adding an endorsement changes. A transaction is
finalised when it declares its own id, carries only valid endorsements, and is endorsed by every
required key and by its notary.
-/

namespace Custody

/-! ### Keys that must sign -/

theorem mem_ascending_iff {keys : List PublicKey} {key : PublicKey} :
    key ∈ ascending keys ↔ key ∈ keys := by
  rw [ascending, Std.TreeSet.mem_toList, Std.TreeSet.mem_ofList, List.contains_iff_mem]

theorem nodup_ascending {keys : List PublicKey} : (ascending keys).Nodup := nodup_toList

theorem pairwise_ascending {keys : List PublicKey} :
    (ascending keys).Pairwise fun a b ↦ compare a b = .lt :=
  Std.TreeSet.ordered_toList

theorem Content.mem_requiredKeys_iff {c : Content} {key : PublicKey} :
    key ∈ c.requiredKeys ↔ ∃ command ∈ c.commands, key ∈ command.signers := by
  rw [requiredKeys, mem_ascending_iff, List.mem_flatMap]

namespace Transaction

variable {t : Transaction} {e : Endorsement} {es : List Endorsement}

/-! ### Adding endorsements -/

theorem content_endorse : (t.endorse e).content = t.content := by
  unfold endorse
  split
  · rfl
  · rfl

theorem id_endorse : (t.endorse e).id = t.id := by
  unfold endorse
  split
  · rfl
  · rfl

theorem content_endorseAll : (t.endorseAll es).content = t.content := by
  unfold endorseAll
  induction es generalizing t with
  | nil => rfl
  | cons e es ih =>
    rw [List.foldl_cons, ih, content_endorse]

/-- Endorsements are those there were, and the new one unless its key had endorsed. -/
theorem mem_endorsements_endorse {e' : Endorsement} :
    e' ∈ (t.endorse e).endorsements ↔ e' ∈ t.endorsements ∨
      e' = e ∧ ∀ old ∈ t.endorsements, old.signer ≠ e.signer := by
  unfold endorse
  by_cases hany : t.endorsements.any (·.signer == e.signer) = true
  · rw [if_pos hany]
    obtain ⟨old, hold, hsigner⟩ := List.any_eq_true.mp hany
    constructor
    · exact .inl
    · intro h
      rcases h with hmem | ⟨-, hnone⟩
      · exact hmem
      · exact absurd (beq_iff_eq.mp hsigner) (hnone old hold)
  · rw [if_neg hany, List.mem_append, List.mem_singleton]
    apply or_congr_right
    rw [Bool.not_eq_true, List.any_eq_false] at hany
    exact (and_iff_left fun old hold ↦ by simpa using hany old hold).symm

/-- After endorsing with a key there is an endorsement by it. -/
theorem exists_signer_endorse : ∃ e' ∈ (t.endorse e).endorsements, e'.signer = e.signer := by
  by_cases hold : ∃ old ∈ t.endorsements, old.signer = e.signer
  · obtain ⟨old, hmem, hsigner⟩ := hold
    exact ⟨old, mem_endorsements_endorse.mpr (.inl hmem), hsigner⟩
  · push Not at hold
    exact ⟨e, mem_endorsements_endorse.mpr (.inr ⟨rfl, hold⟩), rfl⟩

end Transaction

/-! ### Checking endorsements -/

variable [Cryptosystem]

theorem Endorsement.isValidFor_make [Cryptosystem.SignsVerifiably] {seed : Seed}
    {id : TransactionId} : (make seed (Cryptosystem.publicKey seed) id).isValidFor id = true :=
  Cryptosystem.SignsVerifiably.verify_sign seed _

/-- Declares its own id, and lacks no endorsement. -/
structure Transaction.Finalised (t : Transaction) : Prop where
  id_eq : t.content.id = t.id
  isValid : ∀ e ∈ t.endorsements, e.isValidFor t.id = true
  isSigned : ∀ key ∈ t.content.requiredKeys, t.isSignedBy key = true
  isNotarised : t.isNotarisedBy t.content.notary = true

namespace Transaction

variable {t : Transaction} {excused : List PublicKey}

theorem checkId_eq_ok_iff {u : Unit} : t.checkId = .ok u ↔ t.content.id = t.id := by
  unfold checkId
  rw [Outcome.ite_else_error_eq_ok_iff]
  exact and_iff_left rfl

omit [Cryptosystem] in
theorem missingKeys_eq_nil_iff :
    t.missingKeys excused = [] ↔ ∀ key ∈ t.content.requiredKeys, key ∉ excused →
      ∃ e ∈ t.endorsements, e.signer = key := by
  unfold missingKeys
  rw [List.filter_eq_nil_iff]
  apply forall₂_congr
  intro key _
  simp only [Bool.and_eq_true, Bool.not_eq_true', not_and, Bool.not_eq_false, List.any_eq_false,
    List.contains_iff_mem, beq_iff_eq]
  constructor
  · intro h hkey
    by_contra hnone
    push Not at hnone
    exact hkey (h hnone)
  · intro h hnone
    by_contra hkey
    obtain ⟨e, he, hsigner⟩ := h hkey
    exact hnone e he hsigner

theorem checkSignaturesExcept_eq_ok_iff {u : Unit} :
    t.checkSignaturesExcept excused = .ok u ↔ t.content.id = t.id ∧
      (∀ e ∈ t.endorsements, e.isValidFor t.id = true) ∧
      ∀ key ∈ t.content.requiredKeys, key ∉ excused → ∃ e ∈ t.endorsements, e.signer = key := by
  unfold checkSignaturesExcept
  simp only [Outcome.bind_eq_ok_iff, checkId_eq_ok_iff, exists_const]
  rw [and_congr_right_iff]
  intro _
  cases hbad : t.endorsements.find? (!·.isValidFor t.id) with
  | some bad =>
    have hmem := List.mem_of_find?_eq_some hbad
    have hinvalid := List.find?_some hbad
    simp only [Outcome.throw_eq_error, Outcome.error_bind_eq, reduceCtorEq, false_iff, not_and]
    intro hvalid
    rw [hvalid bad hmem] at hinvalid
    cases hinvalid
  | none =>
    have hvalid : ∀ e ∈ t.endorsements, e.isValidFor t.id = true := by simpa using hbad
    simp only [Outcome.throw_eq_error, Outcome.ite_error_eq_ok_iff, Outcome.pure_eq_ok_iff,
      and_true, Bool.not_eq_true', Bool.not_eq_false, List.isEmpty_iff, missingKeys_eq_nil_iff]
    exact ⟨fun h ↦ ⟨hvalid, h⟩, And.right⟩

theorem isSignedBy_eq_true_iff {key : PublicKey} :
    t.isSignedBy key = true ↔ ∃ e ∈ t.endorsements, e.signer = key ∧ e.isValidFor t.id = true := by
  unfold isSignedBy
  simp only [List.any_eq_true, Bool.and_eq_true, beq_iff_eq]

theorem checkSignatures_eq_ok_iff {u : Unit} :
    t.checkSignatures = .ok u ↔ t.content.id = t.id ∧
      (∀ e ∈ t.endorsements, e.isValidFor t.id = true) ∧
      ∀ key ∈ t.content.requiredKeys, t.isSignedBy key = true := by
  rw [checkSignatures, checkSignaturesExcept_eq_ok_iff, and_congr_right_iff]
  intro _
  rw [and_congr_right_iff]
  intro hvalid
  apply forall₂_congr
  intro key _
  rw [isSignedBy_eq_true_iff]
  constructor
  · intro h
    obtain ⟨e, he, hsigner⟩ := h List.not_mem_nil
    exact ⟨e, he, hsigner, hvalid e he⟩
  · rintro ⟨e, he, hsigner, _⟩ _
    exact ⟨e, he, hsigner⟩

end Transaction

end Custody
