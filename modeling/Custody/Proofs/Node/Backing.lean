import Custody.Proofs.Ledger.Ancestors
import Custody.Proofs.Node.Activity
import Custody.Proofs.Node.Coherence

/-!
# What a node can trace back

A node backs a transaction when it holds it with everything it rests on, so that its ancestors can
be listed. Whatever a node holds it backs, as nothing is recorded before its sources, and it says
that it has recorded something only when it holds it. Two nodes that keep the same content under an
id rest it on the same.
-/

namespace Custody

/-! ### Archives that agree -/

namespace Archive

variable {archive archive' : Archive} {id target : TransactionId}

/-- What both archives hold under an id has the same content. -/
def Agrees (archive archive' : Archive) : Prop :=
  ∀ (id : TransactionId) (t t' : Transaction), archive[id]? = some t → archive'[id]? = some t' →
    t.content = t'.content

theorem Agrees.symm (h : archive.Agrees archive') : archive'.Agrees archive :=
  fun id t t' ht ht' ↦ (h id t' t ht' ht).symm

/-- What is reached in one archive is reached in another that has the sources of whatever it
holds. -/
theorem Agrees.reaches (h : archive.Agrees archive') (hclosed : archive'.Closed)
    (hid : id ∈ archive') (hreaches : archive.Reaches id target) : archive'.Reaches id target := by
  induction hreaches using Relation.ReflTransGen.head_induction_on with
  | refl => exact .refl
  | head hconsumes _ ih =>
    obtain ⟨t, ht, hsource⟩ := hconsumes
    rw [Std.TreeMap.mem_iff_isSome_getElem?] at hid
    obtain ⟨t', ht'⟩ := Option.isSome_iff_exists.mp hid
    rw [Transaction.sources, h _ t t' ht ht'] at hsource
    exact .head ⟨t', ht', hsource⟩ (ih (hclosed _ t' ht' _ hsource))

end Archive

namespace Node

variable [Cryptosystem] {n n' : Node} {t : Transaction} {id : TransactionId}

/-! ### Traceable nodes -/

/-- What a node has recorded obeyed the rules when it came, and is kept under the id of its
content. -/
structure Traceable (n : Node) : Prop where
  verified : n.ledger.archive.Verified
  content_id_eq : ∀ (id : TransactionId) (t : Transaction), n.ledger.archive[id]? = some t →
    t.content.id = id

theorem traceable_new {settings : NodeSettings} {identity : Seed} {further : List Seed} :
    (new settings identity further).Traceable :=
  ⟨.empty, fun _ _ ht ↦ nomatch getElem?_archive_new.symm.trans ht⟩

theorem lasts_traceable : Node.Lasts Traceable fun t ↦ t.content.id = t.id where
  record {n t} h hid hjudge := by
    refine ⟨verified_record h.verified hjudge, ?_⟩
    intro id u hu
    rcases Ledger.getElem?_archive_record.mp hu with hold | ⟨-, rfl, rfl⟩
    · exact h.content_id_eq id u hold
    · exact hid
  attach h := ⟨h.verified, h.content_id_eq⟩
  propose _ _ _ _ t e _ _ hnotarise := by
    change (t.endorse e).content.id = (t.endorse e).id
    rw [Transaction.content_endorse, Transaction.id_endorse]
    exact Notary.id_eq_of_notarise hnotarise

theorem Traceable.advances {known : Transaction → Prop} (h : n.Traceable)
    (hadvances : n.Advances known n') : n'.Traceable :=
  lasts_traceable.advances h hadvances fun _ _ hfinalised ↦ hfinalised.id_eq

/-- A node holds a transaction with everything it rests on, and can list it. -/
structure Backs (n : Node) (id : TransactionId) : Prop where
  mem : id ∈ n.ledger.archive
  reached : ∀ other, n.ledger.archive.Reaches id other → other ∈ n.ledger.archive
  exists_ancestors : ∃ ancestors, n.ledger.archive.ancestors [id] = .ok ancestors ∧
    ∀ other, other ∈ ancestors ↔ n.ledger.archive.Reaches id other

theorem Traceable.keyed (h : n.Traceable) : n.ledger.archive.Keyed := fun _ _ ↦ h.verified.id_eq

theorem Traceable.backs (h : n.Traceable) (hid : id ∈ n.ledger.archive) : n.Backs id := by
  refine ⟨hid, fun _ ↦ h.verified.closed.mem_of_reaches hid, ?_⟩
  obtain ⟨ancestors, hancestors⟩ :=
    Archive.exists_ancestors h.verified.closed (List.forall_mem_singleton.mpr hid)
  refine ⟨ancestors, hancestors, fun other ↦ ?_⟩
  rw [Archive.mem_ancestors_iff h.keyed hancestors, Archive.reachedFrom_singleton]

/-- Nodes that agree on what they both hold list the same ancestors. -/
theorem Traceable.ancestors_eq (h : n.Traceable) (h' : n'.Traceable)
    (hagrees : n.ledger.archive.Agrees n'.ledger.archive) (hid : id ∈ n.ledger.archive)
    (hid' : id ∈ n'.ledger.archive) {ancestors ancestors' : List TransactionId}
    (hancestors : n.ledger.archive.ancestors [id] = .ok ancestors)
    (hancestors' : n'.ledger.archive.ancestors [id] = .ok ancestors') : ancestors = ancestors' := by
  refine Archive.ancestors_eq_of_reaches_iff h.keyed h'.keyed hancestors hancestors' ?_
  intro start hstart other
  rw [List.mem_singleton.mp hstart]
  exact ⟨hagrees.reaches h'.verified.closed hid', hagrees.symm.reaches h.verified.closed hid⟩

/-! ### Agreeing -/

theorem mem_of_receive (h : n.receive t = .ok n') : t.id ∈ n'.ledger.archive := by
  obtain ⟨-, ⟨hheld, rfl⟩ | ⟨-, -, rfl⟩⟩ := receive_eq_ok_iff.mp h
  · exact hheld
  · exact mem_archive_record

theorem mem_of_receiveAll {ts : List Transaction} (h : (n.receiveAll ts).2 = .ok ()) (ht : t ∈ ts) :
    t.id ∈ (n.receiveAll ts).1.ledger.archive := by
  induction ts generalizing n with
  | nil => exact absurd ht List.not_mem_nil
  | cons first ts ih =>
    unfold receiveAll at h ⊢
    cases hreceive : n.receive first with
    | error e =>
      rw [hreceive] at h
      cases h
    | ok n' =>
      rw [hreceive] at h
      simp only at h ⊢
      rcases List.mem_cons.mp ht with rfl | ht
      · have hadvances : n'.Advances (fun _ ↦ True) (n'.receiveAll ts).1 :=
          advances_receiveAll fun _ _ ↦ trivial
        exact hadvances.grows.archive.mem (mem_of_receive hreceive)
      · exact ih h ht

/-- A node agrees to a message only with everything recorded that the message hands over. -/
theorem mem_of_serve {role : SessionRole} {m : Message} (h : (n.serve role m).2.2 = .ack)
    (ht : t ∈ m.transactions) : t.id ∈ (n.serve role m).1.ledger.archive := by
  unfold serve at h ⊢
  cases m with
  | history ts =>
    simp only at h ⊢
    refine mem_of_receiveAll ?_ ht
    cases houtcome : (n.receiveAll ts).2 with
    | ok u => rfl
    | error e =>
      rw [houtcome] at h
      cases h
  | finalised u =>
    simp only at h ⊢
    cases hreceive : n.receive u with
    | error e =>
      rw [hreceive] at h
      cases h
    | ok n' =>
      rw [List.mem_singleton.mp ht]
      exact mem_of_receive hreceive
  | _ => exact absurd ht List.not_mem_nil

theorem mem_of_respond {phase : Phase} {m : Message} (h : (n.respond phase m).2.2 = some .ack)
    (ht : t ∈ m.transactions) : t.id ∈ (n.respond phase m).1.ledger.archive := by
  cases phase with
  | awaitingRole =>
    cases m with
    | role signer => exact absurd ht List.not_mem_nil
    | _ => cases h
  | serving role => exact mem_of_serve (Option.some.inj h) ht
  | ended => cases h

theorem mem_of_respondToFrame {phase : Phase} {m : Message} {frame reply : Bytes}
    (hframe : m.toFrame = .ok frame) (h : (n.respondToFrame phase frame).2.2 = some reply)
    (hreply : Message.ofFrame reply = .ok .ack) (ht : t ∈ m.transactions) :
    t.id ∈ (n.respondToFrame phase frame).1.ledger.archive := by
  have hrespond : (n.respond phase m).2.2 = some .ack →
      t.id ∈ (n.respond phase m).1.ledger.archive := fun hack ↦ mem_of_respond hack ht
  unfold respondToFrame at h ⊢
  rw [Message.ofFrame_eq_ok_iff.mpr hframe] at h ⊢
  simp only at h ⊢
  cases hanswer : n.respond phase m with
  | mk n' rest =>
  obtain ⟨phase', answer⟩ := rest
  rw [hanswer] at h hrespond
  cases answer with
  | none => cases h
  | some answer =>
    simp only at h hrespond ⊢
    cases hsent : answer.toFrame with
    | error e =>
      rw [hsent] at h
      cases h
    | ok sent =>
      rw [hsent] at h
      obtain rfl := Option.some.inj h
      have hread : Message.ofFrame sent = .ok answer := Message.ofFrame_eq_ok_iff.mpr hsent
      rw [hread, Except.ok.injEq] at hreply
      exact hrespond (congrArg some hreply)

end Node

/-- Whatever a node lives through, it can trace back what it holds. -/
theorem Activity.traceable_run [Cryptosystem] {settings : NodeSettings} {identity : Seed}
    {further : List Seed} {events : List Event} :
    ((start (Node.new settings identity further)).run events).node.Traceable :=
  (Upholds.run Node.lasts_traceable (upholds_start Node.traceable_new) fun event _ ↦
    event.suits_of_forall fun _ ht ↦ ht.id_eq).node

end Custody
