import Custody.Proofs.Ledger.Lineage
import Custody.Proofs.Ledger.Vault
import Custody.Proofs.Node.Growth
import Custody.Proofs.Notary.Uniqueness
import Custody.Proofs.Session.Message
import Custody.Proofs.Transaction.Endorsements

/-!
# Integrity of an archive

An archive is sound when it holds only finalised
transactions that obey the rules, each under its id. There are two ways into an archive, and both
check: what comes from others is checked on arrival, and what the notary has signed for a content
that this node judged is finalised by that signature. Since judgements stand, soundness lasts while
the stores grow.
-/

namespace Custody

variable [Cryptosystem]

/-! ### What the notary signs -/

namespace Notary

variable {n n' : Notary} {t : Transaction} {e : Endorsement}

theorem admits_eq_ok_iff {u : Unit} :
    n.admits t = .ok u ↔ t.content.notary = n.party ∧ t.content.WellFormed ∧ t.content.id = t.id ∧
      (∀ e ∈ t.endorsements, e.isValidFor t.id = true) ∧
      ∀ key ∈ t.content.requiredKeys, key ∉ [n.party.key] →
        ∃ e ∈ t.endorsements, e.signer = key := by
  unfold admits
  simp only [Outcome.throw_eq_error, Outcome.error_bind_eq, Outcome.ite_error_eq_ok_iff, ne_eq,
    not_not, Outcome.bind_eq_ok_iff, Outcome.mapError_eq_ok_iff, Content.checkStructure_eq_ok_iff,
    Transaction.checkSignaturesExcept_eq_ok_iff, exists_const]

theorem id_eq_of_notarise (h : n.notarise t = .ok (n', e)) : t.content.id = t.id := by
  obtain ⟨hadmits, -⟩ := notarise_eq_ok_iff.mp h
  exact (admits_eq_ok_iff.mp hadmits).2.2.1

/-- With the endorsement of its notary a transaction is finalised. -/
theorem finalised_endorse_of_notarise [Cryptosystem.SignsVerifiably]
    (hkey : n.party.key = Cryptosystem.publicKey n.seed) (h : n.notarise t = .ok (n', e)) :
    (t.endorse e).Finalised := by
  obtain ⟨hadmits, -, -, rfl⟩ := notarise_eq_ok_iff.mp h
  obtain ⟨hnotary, -, hid, hvalid, hrequired⟩ := admits_eq_ok_iff.mp hadmits
  have hown : (Endorsement.make n.seed n.party.key t.id).isValidFor t.id = true := by
    rw [hkey]
    exact Endorsement.isValidFor_make
  have hall : ∀ e ∈ (t.endorse (.make n.seed n.party.key t.id)).endorsements,
      e.isValidFor (t.endorse (.make n.seed n.party.key t.id)).id = true := by
    intro e he
    rw [Transaction.id_endorse]
    rcases Transaction.mem_endorsements_endorse.mp he with hold | ⟨rfl, -⟩
    · exact hvalid e hold
    · exact hown
  have hsigned : ∀ key, (∃ e ∈ (t.endorse (.make n.seed n.party.key t.id)).endorsements,
      e.signer = key) → (t.endorse (.make n.seed n.party.key t.id)).isSignedBy key = true := by
    rintro key ⟨e, he, hsigner⟩
    exact Transaction.isSignedBy_eq_true_iff.mpr ⟨e, he, hsigner, hall e he⟩
  refine ⟨?_, hall, ?_, ?_⟩
  · rw [Transaction.content_endorse, Transaction.id_endorse, hid]
  · intro key hkey'
    rw [Transaction.content_endorse] at hkey'
    apply hsigned
    by_cases hself : key ∈ [n.party.key]
    · rw [List.mem_singleton.mp hself]
      exact Transaction.exists_signer_endorse
    · obtain ⟨e, he, hsigner⟩ := hrequired key hkey' hself
      exact ⟨e, Transaction.mem_endorsements_endorse.mpr (.inl he), hsigner⟩
  · rw [Transaction.content_endorse, hnotary]
    exact hsigned _ Transaction.exists_signer_endorse

end Notary

/-! ### Ways into the stores -/

namespace Node

variable {n n' n'' : Node} {t : Transaction} {known : Transaction → Prop}

/-- The ways a node's stores change: a finalised transaction that obeys the rules is recorded, or a
blob is kept. What is recorded is among the known transactions. -/
inductive Advances (known : Transaction → Prop) (n : Node) : Node → Prop
  | refl : Advances known n n
  | record {n' : Node} {t : Transaction} (h : Advances known n n') (hknown : known t)
      (hfinalised : t.Finalised) (hjudge : n'.judge t.content = .ok ()) :
      Advances known n (n'.record t)
  | attach {n' : Node} {blob : Bytes} (h : Advances known n n') : Advances known n (n'.attach blob)

theorem Advances.trans (h : n.Advances known n') (h' : n'.Advances known n'') :
    n.Advances known n'' := by
  induction h' with
  | refl => exact h
  | record _ hknown hfinalised hjudge ih => exact ih.record hknown hfinalised hjudge
  | attach _ ih => exact ih.attach

theorem Advances.grows (h : n.Advances known n') : n.Grows n' := by
  induction h with
  | refl => exact .refl
  | record _ _ _ _ ih => exact ih.trans grows_record
  | attach _ ih => exact ih.trans grows_attach

/-- Whatever is archived in the end was archived before or is known. -/
theorem Advances.stores (h : n.Advances known n') (ht : n'.ledger.archive.Stores t) :
    n.ledger.archive.Stores t ∨ known t := by
  induction h with
  | refl => exact .inl ht
  | record _ hknown _ _ ih =>
    obtain ⟨id, ht⟩ := ht
    rcases Ledger.getElem?_archive_record.mp ht with hold | ⟨-, -, rfl⟩
    · exact ih ⟨id, hold⟩
    · exact .inr hknown
  | attach _ ih => exact ih ht

theorem Advances.party_eq (h : n.Advances known n') : n'.party = n.party := by
  induction h with
  | refl => rfl
  | record _ _ _ _ ih => exact ih
  | attach _ ih => exact ih

theorem requireFinalised_eq_ok_iff {t : Transaction} {u : Unit} :
    requireFinalised t = .ok u ↔ t.Finalised := by
  unfold requireFinalised
  simp only [Outcome.bind_eq_ok_iff, Outcome.mapError_eq_ok_iff,
    Transaction.checkSignatures_eq_ok_iff, exists_const, Outcome.throw_eq_error,
    Outcome.ite_error_eq_ok_iff, Outcome.pure_eq_ok_iff, and_true, Bool.not_eq_true',
    Bool.not_eq_false]
  constructor
  · rintro ⟨⟨hid, hvalid, hsigned⟩, hnotarised⟩
    exact ⟨hid, hvalid, hsigned, hnotarised⟩
  · intro h
    exact ⟨⟨h.id_eq, h.isValid, h.isSigned⟩, h.isNotarised⟩

theorem receive_eq_ok_iff :
    n.receive t = .ok n' ↔ t.Finalised ∧ (t.id ∈ n.ledger.archive ∧ n = n' ∨
      t.id ∉ n.ledger.archive ∧ n.judge t.content = .ok () ∧ n.record t = n') := by
  unfold receive
  simp only [Outcome.bind_eq_ok_iff, requireFinalised_eq_ok_iff, exists_const]
  rw [and_congr_right_iff]
  intro _
  split
  · rename_i hheld
    simp only [Outcome.pure_eq_ok_iff, hheld, true_and, not_true_eq_false, false_and, or_false]
  · rename_i hnew
    simp only [Outcome.bind_eq_ok_iff, Outcome.pure_eq_ok_iff, hnew, false_and, not_false_eq_true,
      true_and, false_or]
    constructor
    · rintro ⟨_, h⟩
      exact h
    · intro h
      exact ⟨(), h⟩

theorem advances_receive (hknown : known t) (h : n.receive t = .ok n') : n.Advances known n' := by
  obtain ⟨hfinalised, ⟨-, rfl⟩ | ⟨-, hjudge, rfl⟩⟩ := receive_eq_ok_iff.mp h
  · exact .refl
  · exact Advances.refl.record hknown hfinalised hjudge

theorem advances_receiveAll {ts : List Transaction} (hknown : ∀ t ∈ ts, known t) :
    n.Advances known (n.receiveAll ts).1 := by
  induction ts generalizing n with
  | nil => exact .refl
  | cons t ts ih =>
    obtain ⟨hfirst, hrest⟩ := List.forall_mem_cons.mp hknown
    unfold receiveAll
    cases hreceive : n.receive t with
    | error e => exact .refl
    | ok n' => exact (advances_receive hfirst hreceive).trans (ih hrest)

theorem advances_addAll {blobs : List Bytes} :
    n.Advances known { n with attachments := n.attachments.addAll blobs } := by
  induction blobs generalizing n with
  | nil => exact .refl
  | cons blob blobs ih =>
    have hfirst : n.Advances known (n.attach blob) := Advances.refl.attach
    exact hfirst.trans ih

/-- A message makes a node record only what it hands over. -/
theorem advances_serve {role : SessionRole} {m : Message} (hknown : ∀ t ∈ m.transactions, known t) :
    n.Advances known (n.serve role m).1 := by
  unfold serve
  cases m with
  | history ts => exact advances_receiveAll hknown
  | attachments blobs => exact advances_addAll
  | signRequest t =>
    cases role with
    | observer => exact .refl
    | signer =>
      simp only
      split
      · exact .refl
      · exact .refl
  | finalised t =>
    simp only
    split
    · rename_i hreceive
      exact advances_receive (hknown t List.mem_cons_self) hreceive
    · exact .refl
  | _ => exact .refl

theorem advances_respond {phase : Phase} {m : Message} (hknown : ∀ t ∈ m.transactions, known t) :
    n.Advances known (n.respond phase m).1 := by
  unfold respond
  split
  · exact .refl
  · exact .refl
  · exact advances_serve hknown
  · exact .refl

/-- A frame makes a node record only what the message it was made of hands over. -/
theorem advances_respondToFrame {phase : Phase} {m : Message} {frame : Bytes}
    (hframe : m.toFrame = .ok frame) (hknown : ∀ t ∈ m.transactions, known t) :
    n.Advances known (n.respondToFrame phase frame).1 := by
  unfold respondToFrame
  rw [Message.ofFrame_eq_ok_iff.mpr hframe]
  have hrespond : n.Advances known (n.respond phase m).1 := advances_respond hknown
  simp only
  split
  · rename_i hreply
    rwa [hreply] at hrespond
  · rename_i hreply
    rw [hreply] at hrespond
    split
    · exact hrespond
    · exact hrespond

/-! ### Soundness -/

/-- Every archived transaction is kept under its id, is finalised, and obeys the rules. -/
def Sound (n : Node) : Prop :=
  ∀ (id : TransactionId) (t : Transaction), n.ledger.archive[id]? = some t →
    t.id = id ∧ t.Finalised ∧ n.judge t.content = .ok ()

theorem getElem?_archive_new {settings : NodeSettings} {identity : Seed} {further : List Seed}
    {id : TransactionId} : (new settings identity further).ledger.archive[id]? = none :=
  Std.TreeMap.getElem?_emptyc

theorem sound_new {settings : NodeSettings} {identity : Seed} {further : List Seed} :
    (new settings identity further).Sound :=
  fun _ _ h ↦ nomatch getElem?_archive_new.symm.trans h

theorem Sound.record (h : n.Sound) (hfinalised : t.Finalised)
    (hjudge : n.judge t.content = .ok ()) : (n.record t).Sound := by
  intro id u hu
  rcases Ledger.getElem?_archive_record.mp hu with hold | ⟨-, hid, rfl⟩
  · obtain ⟨hid, hfinalised, hjudge⟩ := h id u hold
    exact ⟨hid, hfinalised, judge_mono grows_record hjudge⟩
  · exact ⟨hid, hfinalised, judge_mono grows_record hjudge⟩

theorem Sound.attach {blob : Bytes} (h : n.Sound) : (n.attach blob).Sound := by
  intro id t ht
  obtain ⟨hid, hfinalised, hjudge⟩ := h id t ht
  exact ⟨hid, hfinalised, judge_mono grows_attach hjudge⟩

/-- A sound archive holds the sources of whatever it holds. -/
theorem Sound.closed (h : n.Sound) : n.ledger.archive.Closed := by
  intro id t ht source hsource
  obtain ⟨inputs, hinputs, -⟩ := judge_eq_ok_iff.mp (h id t ht).2.2
  exact Archive.mem_of_mem_sources hinputs hsource

theorem Advances.sound (h : n.Advances known n') (hsound : n.Sound) : n'.Sound := by
  induction h with
  | refl => exact hsound
  | record _ _ hfinalised hjudge ih => exact ih.record hfinalised hjudge
  | attach _ ih => exact ih.attach

/-! ### Good order -/

/-- What a node has kept in good order: a sound archive, and a vault that follows it. -/
structure Orderly (n : Node) : Prop where
  sound : n.Sound
  faithful : n.ledger.Faithful

theorem orderly_new {settings : NodeSettings} {identity : Seed} {further : List Seed} :
    (new settings identity further).Orderly :=
  ⟨sound_new, Ledger.faithful_empty⟩

theorem Advances.faithful (h : n.Advances known n') (hfaithful : n.ledger.Faithful) :
    n'.ledger.Faithful := by
  induction h with
  | refl => exact hfaithful
  | record _ _ _ _ ih => exact ih.record
  | attach _ ih => exact ih

theorem Advances.grounded (h : n.Advances known n') (hgrounded : n.ledger.Grounded) :
    n'.ledger.Grounded := by
  induction h with
  | refl => exact hgrounded
  | record _ _ _ _ ih => exact ih.record
  | attach _ ih => exact ih

theorem Advances.orderly (h : n.Advances known n') (horderly : n.Orderly) : n'.Orderly :=
  ⟨h.sound horderly.sound, h.faithful horderly.faithful⟩

end Node

end Custody
