import Mathlib.Data.List.Perm.Basic
import Custody.ExitProof
import Custody.Proofs.Transaction.Endorsements
import Custody.Proofs.Trial
import Custody.Proofs.Wire.Reader

/-!
# What exit proofs establish

A proof is accepted exactly when the blob holds a transaction that consumes something of the
snapshot under the notary that the snapshot names, endorsed by that notary. What the transaction
produces is not looked at, so that what is accepted shows an entity to be consumed, but not to be
gone: a move to another holder is as good as an exit. Several proofs are accepted when each is and
nothing of the snapshot is left, whatever their order.
-/

namespace Custody.ExitProof

open Outcome

section OneProof

variable [Cryptosystem] {snapshot : List Located} {id : AttachmentId} {blob : Bytes}
  {t : Transaction} {proof : ExitProof}

/-- What makes a blob, stored under an id, a proof against a snapshot: it hashes to the id and spells
a transaction and nothing more, one that declares its own id, consumes something of the snapshot,
names the notary of all that it consumes of it, and is validly endorsed by that notary and by
whoever else endorsed it. -/
structure Proves (snapshot : List Located) (id : AttachmentId) (blob : Bytes) (t : Transaction) :
    Prop where
  hash_eq : AttachmentId.ofBlob blob = id
  read_eq : Wire.read blob = .ok (t, [])
  id_eq : t.content.id = t.id
  consumes : ∃ entry ∈ snapshot, entry.ref ∈ t.content.inputs
  notary_eq : ∀ entry ∈ snapshot, entry.ref ∈ t.content.inputs →
    entry.entity.notary = t.content.notary
  isValid : ∀ e ∈ t.endorsements, e.isValidFor t.id = true
  isNotarised : ∃ e ∈ t.endorsements, e.signer = t.content.notary.key ∧ e.isValidFor t.id = true

/-- What a transaction proves against a snapshot. -/
def ofTransaction (snapshot : List Located) (t : Transaction) : ExitProof :=
  ⟨t.id, (snapshot.map Located.ref).filter (· ∈ t.content.inputs)⟩

omit [Cryptosystem] in
theorem mem_consumed_iff {r : OutputRef} :
    r ∈ (ofTransaction snapshot t).consumed ↔
      (∃ entry ∈ snapshot, entry.ref = r) ∧ r ∈ t.content.inputs := by
  simp only [ofTransaction, List.mem_filter, List.mem_map, decide_eq_true_eq]

theorem transactionOf_eq_ok_iff :
    transactionOf id blob = .ok t ↔
      AttachmentId.ofBlob blob = id ∧ Wire.read blob = .ok (t, []) ∧ t.content.id = t.id := by
  unfold transactionOf decodeLedger decode
  simp only [throw_eq_error, error_bind_eq, ite_error_eq_ok_iff, bind_eq_ok_iff,
    mapError_eq_ok_iff, Reader.decode_eq_ok_iff, pure_eq_ok_iff, ne_eq, not_not]
  rw [and_congr_right_iff]
  intro _
  constructor
  · rintro ⟨_, hread, hid, rfl⟩
    exact ⟨hread, hid⟩
  · rintro ⟨hread, hid⟩
    exact ⟨t, hread, hid, rfl⟩

/-- What a transaction consumes of a snapshot. -/
def governed (snapshot : List Located) (t : Transaction) : List Located :=
  snapshot.filter fun entry ↦ t.content.inputs.contains entry.ref

section Governed

omit [Cryptosystem]

theorem mem_governed_iff {entry : Located} :
    entry ∈ governed snapshot t ↔ entry ∈ snapshot ∧ entry.ref ∈ t.content.inputs := by
  rw [governed, List.mem_filter, List.contains_iff_mem]

theorem governed_ne_nil_iff :
    ¬(governed snapshot t).isEmpty = true ↔ ∃ entry ∈ snapshot, entry.ref ∈ t.content.inputs := by
  rw [List.isEmpty_iff, List.eq_nil_iff_forall_not_mem]
  push Not
  exact exists_congr fun _ ↦ mem_governed_iff

theorem find?_governed_eq_none_iff :
    (governed snapshot t).find? (·.entity.notary != t.content.notary) = none ↔
      ∀ entry ∈ snapshot, entry.ref ∈ t.content.inputs →
        entry.entity.notary = t.content.notary := by
  simp only [List.find?_eq_none, mem_governed_iff, bne_iff_ne, ne_eq, not_not, and_imp]

theorem map_ref_governed : (governed snapshot t).map Located.ref =
    (snapshot.map Located.ref).filter (· ∈ t.content.inputs) := by
  rw [governed, List.filter_map]
  congr 2
  funext entry
  exact List.contains_eq_mem ..

end Governed

theorem find?_endorsements_eq_none_iff :
    t.endorsements.find? (!·.isValidFor t.id) = none ↔
      ∀ e ∈ t.endorsements, e.isValidFor t.id = true := by
  simp only [List.find?_eq_none, Bool.not_eq_true', Bool.not_eq_false]

/-- A blob is accepted exactly when it holds a transaction that proves something, and for what it
proves. -/
theorem verify_eq_ok_iff :
    verify snapshot id blob = .ok proof ↔
      ∃ t, Proves snapshot id blob t ∧ proof = ofTransaction snapshot t := by
  unfold verify
  rw [bind_eq_ok_iff]
  apply exists_congr
  intro t
  change _ ∧ (if (governed snapshot t).isEmpty = true then _ else _) = _ ↔ _
  simp only [transactionOf_eq_ok_iff, throw_eq_error, error_bind_eq, ite_error_eq_ok_iff,
    governed_ne_nil_iff]
  constructor
  · rintro ⟨⟨hhash, hread, hid⟩, hconsumes, h⟩
    split at h
    · cases h
    rename_i hforeign
    split at h
    · cases h
    rename_i hbad
    simp only [ite_error_eq_ok_iff, Bool.not_eq_true', Bool.not_eq_false, pure_eq_ok_iff] at h
    obtain ⟨hnotarised, rfl⟩ := h
    refine ⟨?_, congrArg (mk t.id) map_ref_governed⟩
    exact {
      hash_eq := hhash
      read_eq := hread
      id_eq := hid
      consumes := hconsumes
      notary_eq := find?_governed_eq_none_iff.mp (Option.eq_none_iff_forall_ne_some.mpr hforeign)
      isValid := find?_endorsements_eq_none_iff.mp (Option.eq_none_iff_forall_ne_some.mpr hbad)
      isNotarised := Transaction.isSignedBy_eq_true_iff.mp hnotarised }
  · rintro ⟨h, rfl⟩
    have hforeign := find?_governed_eq_none_iff.mpr h.notary_eq
    have hbad := find?_endorsements_eq_none_iff.mpr h.isValid
    have hnotarised : t.isNotarisedBy t.content.notary = true :=
      Transaction.isSignedBy_eq_true_iff.mpr h.isNotarised
    rw [governed] at hforeign
    simp only [hforeign, hbad, hnotarised, Bool.not_true, Bool.false_eq_true, if_false,
      pure_eq_ok_iff]
    exact ⟨⟨h.hash_eq, h.read_eq, h.id_eq⟩, h.consumes, congrArg (mk t.id) map_ref_governed⟩

/-- An accepted blob holds a transaction that consumes all that is read off it, each entry under a
notary that has endorsed the transaction. No more is asked of a finalised transaction: if all that
it consumes of the snapshot is under its notary, it is accepted whatever it produces, a move to
another holder as well as an exit. -/
theorem verify_consumption :
    (∀ id blob proof, verify snapshot id blob = .ok proof →
      ∃ t : Transaction, Wire.read blob = .ok (t, []) ∧ t.content.id = t.id ∧
        proof.transaction = t.id ∧ proof.consumed ≠ [] ∧
        ∀ r ∈ proof.consumed, r ∈ t.content.inputs ∧
          (∃ entry ∈ snapshot, entry.ref = r) ∧
          ∀ entry ∈ snapshot, entry.ref = r → t.isNotarisedBy entry.entity.notary = true) ∧
    ∀ (blob : Bytes) (t : Transaction), Wire.read blob = .ok (t, []) → t.Finalised →
      ((∃ proof, verify snapshot (.ofBlob blob) blob = .ok proof) ↔
        (∃ entry ∈ snapshot, entry.ref ∈ t.content.inputs) ∧
          ∀ entry ∈ snapshot, entry.ref ∈ t.content.inputs →
            entry.entity.notary = t.content.notary) := by
  constructor
  · intro id blob proof h
    obtain ⟨t, ht, rfl⟩ := verify_eq_ok_iff.mp h
    refine ⟨t, ht.read_eq, ht.id_eq, rfl, ?_, ?_⟩
    · obtain ⟨entry, hentry, hinput⟩ := ht.consumes
      exact List.ne_nil_of_mem (mem_consumed_iff.mpr ⟨⟨entry, hentry, rfl⟩, hinput⟩)
    · intro r hr
      obtain ⟨hnamed, hinput⟩ := mem_consumed_iff.mp hr
      refine ⟨hinput, hnamed, ?_⟩
      rintro entry hentry rfl
      rw [ht.notary_eq entry hentry hinput]
      exact Transaction.isSignedBy_eq_true_iff.mpr ht.isNotarised
  · intro blob t hread ht
    constructor
    · rintro ⟨proof, h⟩
      obtain ⟨held, hheld, -⟩ := verify_eq_ok_iff.mp h
      obtain rfl : t = held := by
        have hsame := hread.symm.trans hheld.read_eq
        rw [Except.ok.injEq, Prod.mk.injEq] at hsame
        exact hsame.1
      exact ⟨hheld.consumes, hheld.notary_eq⟩
    · rintro ⟨hconsumes, hnotary⟩
      refine ⟨_, verify_eq_ok_iff.mpr ⟨t, ?_, rfl⟩⟩
      exact ⟨rfl, hread, ht.id_eq, hconsumes, hnotary, ht.isValid,
        Transaction.isSignedBy_eq_true_iff.mp ht.isNotarised⟩

end OneProof

/-! ### A move in the place of an exit -/

namespace Pair

open Trial (key notary issuer)

/-- Two entities of one holder, outputs of one transaction. -/
def first : Located :=
  ⟨⟨.asset ⟨"Bond", [7]⟩, [key 2], notary, none⟩, ⟨⟨.replicate 32 3⟩, 0⟩⟩

def second : Located :=
  ⟨⟨.asset ⟨"Share", [5]⟩, [key 2], notary, none⟩, ⟨⟨.replicate 32 3⟩, 1⟩⟩

def lock : Lock := ⟨issuer, key 2, [first, second], .active, []⟩

/-- A content, endorsed by some keys. -/
def endorsed (signers : List PublicKey) (content : Content) : Transaction :=
  (@Transaction.ofContent .clear content).endorseAll <| signers.map fun signer ↦
    @Endorsement.make .clear ⟨signer.block⟩ signer (@Content.id .clear content)

/-- The holder consumes an entity under a command and produces something; the holder and the notary
endorse. -/
def spend (entry : Located) (name : String) (outputs : List Entity) : Transaction :=
  endorsed [key 2, notary.key] {
    inputs := [entry.ref]
    outputs := outputs
    commands := [.asset name [key 2]]
    notary := notary
    attachments := []
    salt := .replicate 32 0 }

def move : Transaction := spend first "Move" [{ first.entity with participants := [key 5] }]

/-- The wire form of a transaction, stored under its hash. -/
def stored (t : Transaction) : AttachmentId × Bytes :=
  (@AttachmentId.ofBlob .clear (encode t), encode t)

theorem read_encode_move : Wire.read (encode move) = .ok (move, []) := by decide +kernel

theorem finalised_move : @Transaction.Finalised .clear move :=
  @Transaction.Finalised.mk .clear move (by decide +kernel) (by decide +kernel)
    (by decide +kernel) (by decide +kernel)

/-- The first entity is accepted as gone while its new holder has it. -/
theorem move_proves :
    ∃ proof, @verify .clear lock.snapshot (stored move).1 (stored move).2 = .ok proof ∧
      ∃ output ∈ move.content.outputs, output.payload = first.entity.payload := by
  obtain ⟨proof, hproof⟩ :=
    ((@verify_consumption .clear lock.snapshot).2 _ move read_encode_move finalised_move).mpr
      (by decide +kernel)
  exact ⟨proof, hproof, by decide +kernel⟩

/-- Not every accepted proof is an exit. -/
theorem not_isExit_of_verify :
    ¬ ∀ (lock : Lock) (id : AttachmentId) (blob : Bytes) (proof : ExitProof) (t : Transaction),
      @verify .clear lock.snapshot id blob = .ok proof → Wire.read blob = .ok (t, []) →
        ∀ output ∈ t.content.outputs, ∀ entry ∈ lock.snapshot,
          entry.ref ∈ t.content.inputs → output.payload ≠ entry.entity.payload := by
  intro hall
  have hproof : @verify .clear lock.snapshot (stored move).1 (stored move).2 =
      .ok ⟨move.id, [first.ref]⟩ := by decide +kernel
  exact absurd (hall lock _ _ _ move hproof read_encode_move) (by decide +kernel)

end Pair

/-! ### Several proofs -/

section SeveralProofs

variable [Cryptosystem] {snapshot : List Located} {proofs : List (AttachmentId × Bytes)}

/-- Results correspond to the transactions that the blobs hold. -/
theorem forall₂_verify_iff {verified : List ExitProof} :
    List.Forall₂ (fun p proof ↦ verify snapshot p.1 p.2 = .ok proof) proofs verified ↔
      ∃ ts, List.Forall₂ (fun p t ↦ Proves snapshot p.1 p.2 t) proofs ts ∧
        verified = ts.map (ofTransaction snapshot) := by
  induction proofs generalizing verified with
  | nil => simp
  | cons p proofs ih =>
    rw [List.forall₂_cons_left_iff]
    constructor
    · rintro ⟨proof, rest, hproof, hrest, rfl⟩
      obtain ⟨t, ht, rfl⟩ := verify_eq_ok_iff.mp hproof
      obtain ⟨ts, hts, rfl⟩ := ih.mp hrest
      exact ⟨t :: ts, .cons ht hts, rfl⟩
    · rintro ⟨ts, hts, rfl⟩
      obtain ⟨t, rest, ht, hrest, rfl⟩ := List.forall₂_cons_left_iff.mp hts
      exact ⟨_, _, verify_eq_ok_iff.mpr ⟨t, ht, rfl⟩, ih.mpr ⟨rest, hrest, rfl⟩, rfl⟩

omit [Cryptosystem] in
/-- Results cover a snapshot when the transactions consume all of it. -/
theorem find?_uncovered_eq_none_iff {ts : List Transaction} :
    (snapshot.map Located.ref).find?
        (!((ts.map (ofTransaction snapshot)).flatMap consumed).contains ·) = none ↔
      ∀ r ∈ snapshot.map Located.ref, ∃ t ∈ ts, r ∈ t.content.inputs := by
  rw [List.find?_eq_none]
  apply forall₂_congr
  intro r hr
  simp only [Bool.not_eq_true', Bool.not_eq_false, List.contains_iff_mem, List.mem_flatMap,
    List.mem_map, exists_exists_and_eq_and, ofTransaction, List.mem_filter, decide_eq_true_eq]
  apply exists_congr
  intro t
  rw [and_congr_right_iff]
  intro _
  exact and_iff_right (List.mem_map.mp hr)

theorem verifyAll_eq_ok_iff {verified : List ExitProof} :
    verifyAll snapshot proofs = .ok verified ↔
      ∃ ts, List.Forall₂ (fun p t ↦ Proves snapshot p.1 p.2 t) proofs ts ∧
        (∀ r ∈ snapshot.map Located.ref, ∃ t ∈ ts, r ∈ t.content.inputs) ∧
        verified = ts.map (ofTransaction snapshot) := by
  unfold verifyAll
  simp only [bind_eq_ok_iff, mapM_eq_ok_iff, forall₂_verify_iff]
  constructor
  · rintro ⟨_, ⟨ts, hts, rfl⟩, h⟩
    split at h
    · cases h
    rename_i hmissing
    have hcovered := find?_uncovered_eq_none_iff.mp (Option.eq_none_iff_forall_ne_some.mpr hmissing)
    exact ⟨ts, hts, hcovered, (pure_eq_ok_iff.mp h).symm⟩
  · rintro ⟨ts, hts, hcovered, rfl⟩
    refine ⟨_, ⟨ts, hts, rfl⟩, ?_⟩
    simp only [find?_uncovered_eq_none_iff.mpr hcovered, pure_eq_ok_iff]

/-- Proofs are accepted for a lock exactly when every blob proves something against its snapshot and
the transactions they hold consume all of it; each result is the id of the transaction with what it
consumes of the snapshot, in the order of the snapshot. In whatever order they are presented, the
same proofs are accepted. -/
theorem verifyRelease_eq_ok_iff {lock : Lock} (hlock : lock.snapshot ≠ []) :
    (∀ verified, verifyRelease lock proofs = .ok verified ↔
      ∃ ts : List Transaction,
        List.Forall₂ (fun p t ↦ Proves lock.snapshot p.1 p.2 t) proofs ts ∧
        (∀ r ∈ lock.snapshotRefs, ∃ t ∈ ts, r ∈ t.content.inputs) ∧
        verified = ts.map fun t ↦ ⟨t.id, lock.snapshotRefs.filter (· ∈ t.content.inputs)⟩) ∧
    ∀ proofs', proofs.Perm proofs' →
      ((∃ verified, verifyRelease lock proofs = .ok verified) ↔
        ∃ verified, verifyRelease lock proofs' = .ok verified) := by
  have hrelease : ∀ ps, verifyRelease lock ps = verifyAll lock.snapshot ps := by
    intro ps
    rw [verifyRelease, snapshotOf, if_neg (by simpa using hlock)]
    rfl
  have hmono : ∀ ps ps', ps.Perm ps' → (∃ verified, verifyRelease lock ps = .ok verified) →
      ∃ verified, verifyRelease lock ps' = .ok verified := by
    rintro ps ps' hperm ⟨_, h⟩
    rw [hrelease] at h
    obtain ⟨ts, hproves, hcovered, -⟩ := verifyAll_eq_ok_iff.mp h
    -- The transactions are reordered as the blobs are.
    obtain ⟨ts', hproves', hts⟩ := List.perm_comp_forall₂ hperm.symm hproves
    refine ⟨_, (hrelease ps').trans (verifyAll_eq_ok_iff.mpr ⟨ts', hproves', ?_, rfl⟩)⟩
    intro r hr
    obtain ⟨t, ht, hinput⟩ := hcovered r hr
    exact ⟨t, hts.mem_iff.mpr ht, hinput⟩
  constructor
  · intro verified
    rw [hrelease]
    exact verifyAll_eq_ok_iff
  · intro proofs' hperm
    exact ⟨hmono _ _ hperm, hmono _ _ hperm.symm⟩

end SeveralProofs

namespace Pair

def exit (entry : Located) : Transaction := spend entry "Exit" []

/-- The exits of both entities, the last one first. -/
def exits : List Transaction := [exit second, exit first]

theorem proves_exits : List.Forall₂
    (fun p t ↦ @Proves .clear lock.snapshot p.1 p.2 t) (exits.map stored) exits := by
  let _ : Cryptosystem := .clear
  refine .cons ⟨?_, ?_, ?_, ?_, ?_, ?_, ?_⟩ (.cons ⟨?_, ?_, ?_, ?_, ?_, ?_, ?_⟩ .nil)
  all_goals decide +kernel

theorem exits_release :
    lock.snapshot ≠ [] ∧
      (∃ verified, @verifyRelease .clear lock (exits.map stored) = .ok verified ∧
        verified.map consumed = [[second.ref], [first.ref]]) ∧
      ∃ verified, @verifyRelease .clear lock (exits.map stored).reverse = .ok verified := by
  have hlock : lock.snapshot ≠ [] := by decide
  obtain ⟨hexact, horder⟩ := @verifyRelease_eq_ok_iff .clear (exits.map stored) lock hlock
  have h := (hexact _).mpr ⟨exits, proves_exits, by decide, rfl⟩
  exact ⟨hlock, ⟨_, h, by decide⟩, (horder _ (List.reverse_perm _).symm).mp ⟨_, h⟩⟩

end Pair

end Custody.ExitProof
