import Custody.Proofs.Ledger.Order
import Custody.Proofs.Node.Backing
import Custody.Proofs.Respondent
import Custody.Proofs.Settlement

/-!
# Honest history is never refused

What a node hands over before a transaction is enough for another to check everything itself: the
transactions come after their sources, with every blob they refer to, and each is finalised and
obeyed the rules where it came from. The receiver may hold any part of it already, and anything else
besides. Its judgement of what is new to it agrees with the sender's, as long as no two contents,
and no two blobs, have the same id: it resolves the same inputs, and finds the same blobs under the
ids that matter.
-/

namespace Custody

/-! ### Blobs under their hashes -/

namespace Attachments

variable [Cryptosystem] {attachments : Attachments} {blob : Bytes} {blobs : List Bytes}

theorem extends_addAll : Extends attachments (attachments.addAll blobs) := by
  induction blobs generalizing attachments with
  | nil => exact .refl
  | cons blob blobs ih => exact Extends.insertIfNew.trans (@ih (attachments.add blob))

/-- There is a blob under the id of each that was added, whichever came first. -/
theorem ofBlob_mem_addAll (h : blob ∈ blobs) :
    AttachmentId.ofBlob blob ∈ attachments.addAll blobs := by
  induction blobs generalizing attachments with
  | nil => exact absurd h List.not_mem_nil
  | cons first blobs ih =>
    rcases List.mem_cons.mp h with rfl | h
    · exact (@extends_addAll _ (attachments.add blob) _).mem Std.TreeMap.mem_insertIfNew_self
    · exact ih h

end Attachments

namespace Node

variable [Cryptosystem] {n m m' : Node} {t : Transaction} {ts : List Transaction} {c : Content}

/-- Every blob is kept under its hash. -/
def Filed (n : Node) : Prop :=
  ∀ (id : AttachmentId) (blob : Bytes), n.attachments[id]? = some blob →
    AttachmentId.ofBlob blob = id

theorem filed_new {settings : NodeSettings} {identity : Seed} {further : List Seed} :
    (new settings identity further).Filed :=
  fun _ _ h ↦ nomatch Std.TreeMap.getElem?_emptyc.symm.trans h

theorem lasts_filed : Node.Lasts Filed fun _ ↦ True where
  record h _ _ := h
  attach {n blob} h := by
    intro id kept hkept
    change (n.attachments.insertIfNew (.ofBlob blob) blob)[id]? = some kept at hkept
    rw [Std.TreeMap.getElem?_insertIfNew] at hkept
    split at hkept
    · rename_i hnew
      rw [← Option.some.inj hkept]
      exact Std.LawfulEqOrd.eq_of_compare hnew.1
    · exact h id kept hkept
  propose _ _ _ _ _ _ _ _ _ := trivial

/-! ### Judging alike -/

/-- Different contents archived by two nodes have different ids, and so have different blobs kept by
them. -/
structure Distinguishes (n m : Node) : Prop where
  content : ∀ t u, n.ledger.archive.Stores t → m.ledger.archive.Stores u →
    t.content.id = u.content.id → t.content = u.content
  blob : ∀ (id id' : AttachmentId) (blob blob' : Bytes), n.attachments[id]? = some blob →
    m.attachments[id']? = some blob' → AttachmentId.ofBlob blob = AttachmentId.ofBlob blob' →
    blob = blob'

theorem Distinguishes.agrees (h : n.Distinguishes m) (hn : n.Traceable) (hm : m.Traceable) :
    n.ledger.archive.Agrees m.ledger.archive := by
  intro id t u ht hu
  exact h.content t u ⟨id, ht⟩ ⟨id, hu⟩
    ((hn.content_id_eq id t ht).trans (hm.content_id_eq id u hu).symm)

/-- That two nodes tell apart what differs can be seen from what they hold. -/
theorem distinguishes_of_forall
    (hcontent : ∀ x ∈ n.ledger.archive.toList, ∀ y ∈ m.ledger.archive.toList,
      x.2.content.id = y.2.content.id → x.2.content = y.2.content)
    (hblob : ∀ x ∈ n.attachments.toList, ∀ y ∈ m.attachments.toList,
      AttachmentId.ofBlob x.2 = AttachmentId.ofBlob y.2 → x.2 = y.2) : n.Distinguishes m where
  content t u ht hu := by
    obtain ⟨id, ht⟩ := ht
    obtain ⟨id', hu⟩ := hu
    exact hcontent (id, t) (Std.TreeMap.mem_toList_iff_getElem?_eq_some.mpr ht) (id', u)
      (Std.TreeMap.mem_toList_iff_getElem?_eq_some.mpr hu)
  blob id id' blob blob' h h' :=
    hblob (id, blob) (Std.TreeMap.mem_toList_iff_getElem?_eq_some.mpr h) (id', blob')
      (Std.TreeMap.mem_toList_iff_getElem?_eq_some.mpr h')

/-- The second node has every blob of the first that a content refers to. -/
def Supplies (n m : Node) (c : Content) : Prop :=
  ∀ id ∈ c.attachments, ∀ blob, n.attachments[id]? = some blob → m.attachments[id]? = some blob

omit [Cryptosystem] in
theorem Supplies.grows (h : n.Supplies m c) (hgrows : m.Grows m') : n.Supplies m' c :=
  fun id hid blob hblob ↦ hgrows.attachments id blob (h id hid blob hblob)

/-- What one node finds to obey the rules another does, with the same inputs, if it has the sources
and the blobs. -/
theorem exists_judge_of_agrees (hagrees : n.ledger.archive.Agrees m.ledger.archive)
    (hsources : ∀ source ∈ c.sources, source ∈ m.ledger.archive) (hsupplies : n.Supplies m c)
    (h : n.judge c = .ok ()) :
    m.judge c = .ok () ∧ ∃ inputs, n.ledger.archive.resolveInputs c = .ok inputs ∧
      m.ledger.archive.resolveInputs c = .ok inputs := by
  obtain ⟨inputs, hinputs, hcheck⟩ := judge_eq_ok_iff.mp h
  have hinputs' : m.ledger.archive.resolveInputs c = .ok inputs := by
    rw [Archive.resolveInputs_eq_ok_iff] at hinputs ⊢
    refine Outcome.forall₂_of_mem hinputs fun input hinput e he ↦ ?_
    obtain ⟨href, source, hsource, hentity⟩ := Archive.resolve_eq_ok_iff.mp he
    have hmem := hsources input.transaction (List.mem_map_of_mem hinput)
    rw [Std.TreeMap.mem_iff_isSome_getElem?] at hmem
    obtain ⟨source', hsource'⟩ := Option.isSome_iff_exists.mp hmem
    rw [hagrees _ source source' hsource hsource'] at hentity
    exact Archive.resolve_eq_ok_iff.mpr ⟨href, source', hsource', hentity⟩
  exact ⟨judge_eq_ok_iff.mpr ⟨inputs, hinputs', Rules.check_of_held hsupplies hcheck⟩,
    inputs, hinputs, hinputs'⟩

/-! ### Taking history in -/

/-- Recording what another node holds leaves the two archives in agreement. -/
theorem agrees_record (hsound : n.Sound) (ht : n.ledger.archive.Stores t)
    (hagrees : n.ledger.archive.Agrees m.ledger.archive) :
    n.ledger.archive.Agrees (m.record t).ledger.archive := by
  obtain ⟨id, ht⟩ := ht
  intro id' u u' hu hu'
  rcases Ledger.getElem?_archive_record.mp hu' with hold | ⟨-, hid, rfl⟩
  · exact hagrees id' u u' hu hold
  · rw [← hid, (hsound id t ht).1, ht, Option.some.injEq] at hu
    rw [hu]

/-- A transaction that a sound node holds is taken in by any other that has its sources and
blobs. -/
theorem exists_receive (hsound : n.Sound) (ht : n.ledger.archive.Stores t)
    (hagrees : n.ledger.archive.Agrees m.ledger.archive)
    (hsources : ∀ source ∈ t.sources, source ∈ m.ledger.archive)
    (hsupplies : n.Supplies m t.content) :
    ∃ m', m.receive t = .ok m' ∧ n.ledger.archive.Agrees m'.ledger.archive := by
  obtain ⟨id, hheld⟩ := ht
  obtain ⟨-, hfinalised, hjudge⟩ := hsound id t hheld
  obtain ⟨hjudge, -⟩ := exists_judge_of_agrees hagrees hsources hsupplies hjudge
  by_cases hmem : t.id ∈ m.ledger.archive
  · exact ⟨m, receive_eq_ok_iff.mpr ⟨hfinalised, .inl ⟨hmem, rfl⟩⟩, hagrees⟩
  · exact ⟨m.record t, receive_eq_ok_iff.mpr ⟨hfinalised, .inr ⟨hmem, hjudge, rfl⟩⟩,
      agrees_record hsound ⟨id, hheld⟩ hagrees⟩

/-- All of a list that lists sources first is taken in, by induction on the list: what has been
taken in is there for what comes after. -/
theorem receiveAll_of_sourcesFirst (hsound : n.Sound)
    (hstores : ∀ t ∈ ts, n.ledger.archive.Stores t)
    (hagrees : n.ledger.archive.Agrees m.ledger.archive)
    (hfirst : Lineage.SourcesFirst (· ∈ m.ledger.archive) ts)
    (hsupplies : ∀ t ∈ ts, n.Supplies m t.content) :
    (m.receiveAll ts).2 = .ok () ∧
      n.ledger.archive.Agrees (m.receiveAll ts).1.ledger.archive := by
  induction ts generalizing m with
  | nil => exact ⟨rfl, hagrees⟩
  | cons t ts ih =>
    obtain ⟨ht, hstores⟩ := List.forall_mem_cons.mp hstores
    obtain ⟨hsupply, hsupplies⟩ := List.forall_mem_cons.mp hsupplies
    obtain ⟨m', hreceive, hagrees'⟩ := exists_receive hsound ht hagrees hfirst.1 hsupply
    have hadvances : m.Advances (fun _ ↦ True) m' := advances_receive trivial hreceive
    unfold receiveAll
    rw [hreceive]
    refine ih hstores hagrees' (hfirst.2.mono ?_) fun u hu ↦ (hsupplies u hu).grows hadvances.grows
    rintro id (hheld | rfl)
    · exact hadvances.grows.archive.mem hheld
    · exact mem_of_receive hreceive

/-- Everything a sender hands over that is kept under its id is what the sender has under it. -/
theorem supplies_of_hands {p : Proposal} {given : Handover} (hhands : n.Hands t p given)
    (hn : n.Filed) (hm : m.Filed) (hdistinguishes : n.Distinguishes m)
    (hkept : ∀ blob ∈ given.attachments, AttachmentId.ofBlob blob ∈ m.attachments)
    {u : Transaction} (hu : u ∈ given.history ++ [t]) : n.Supplies m u.content := by
  intro id hid blob hblob
  obtain ⟨handed, hhanded, hsame⟩ := hhands.blob u hu id hid
  have hofBlob : AttachmentId.ofBlob handed = id := hsame.elim (fun h ↦ h) (hn id handed)
  have hmem := hkept handed hhanded
  rw [hofBlob, Std.TreeMap.mem_iff_isSome_getElem?] at hmem
  obtain ⟨kept, hkept⟩ := Option.isSome_iff_exists.mp hmem
  have hid' := (hn id blob hblob).trans (hm id kept hkept).symm
  rw [hdistinguishes.blob id id blob kept hblob hkept hid', hkept]

/-! ### Replies -/

/-- The frame of agreement. -/
def ackFrame : Bytes := encode Message.ack

omit [Cryptosystem] in
theorem toFrame_ack : Message.ack.toFrame = .ok ackFrame :=
  Message.toFrame_of_length_le (by decide)

/-- With its blobs at hand, an honest history is taken in, and the transaction that it was handed
over for obeys the rules. -/
theorem exists_respondToFrame_history {p : Proposal} {given : Handover} {role : SessionRole}
    {frame : Bytes} (hsound : n.Sound) (hn : n.Traceable) (hm : m.Traceable)
    (hdistinguishes : n.Distinguishes m) (hgiven : n.handover t p = .ok given)
    (hjudge : n.judge t.content = .ok ())
    (hsupplies : ∀ u ∈ given.history ++ [t], n.Supplies m u.content)
    (hframe : (Message.history given.history).toFrame = .ok frame) :
    ∃ m', m.respondToFrame (.serving role) frame = (m', .serving role, some ackFrame) ∧
      m'.judge t.content = .ok () ∧
      ∃ inputs, n.ledger.archive.resolveInputs t.content = .ok inputs ∧
        m'.ledger.archive.resolveInputs t.content = .ok inputs := by
  have hhands := hands_of_handover hgiven
  obtain ⟨roots, hlineage, -⟩ := hhands.lineage
  have hfirst : Lineage.SourcesFirst (· ∈ m.ledger.archive) given.history :=
    (Archive.sourcesFirst_of_lineage hn.keyed hlineage).mono fun _ h ↦ h.elim
  obtain ⟨houtcome, hagrees⟩ := receiveAll_of_sourcesFirst hsound
    (fun u hu ↦ stores_of_handover hgiven hu) (hdistinguishes.agrees hn hm) hfirst
    fun u hu ↦ hsupplies u (List.mem_append_left _ hu)
  have hadvances : m.Advances (fun _ ↦ True) (m.receiveAll given.history).1 :=
    advances_receiveAll fun _ _ ↦ trivial
  refine ⟨(m.receiveAll given.history).1, ?_, ?_⟩
  · refine respondToFrame_of_respond hframe toFrame_ack ?_
    simp only [respond, serve, houtcome, Message.ofOutcome]
  · refine exists_judge_of_agrees hagrees (fun source hsource ↦ ?_) ?_ hjudge
    · obtain ⟨u, hu, rfl⟩ := exists_mem_of_handover hn.verified hgiven
        (List.mem_append_right (p.history.map Transaction.id) hsource)
      exact mem_of_receiveAll houtcome hu
    · exact (hsupplies t (List.mem_append_right _ (List.mem_singleton_self t))).grows
        hadvances.grows

end Node

namespace Activity

variable [Cryptosystem]

theorem filed_run {settings : NodeSettings} {identity : Seed} {further : List Seed}
    {events : List Event} :
    ((start (Node.new settings identity further)).run events).Upholds Node.Filed fun _ ↦ True :=
  Upholds.run Node.lasts_filed (upholds_start Node.filed_new) fun event _ ↦
    event.suits_of_forall fun _ _ ↦ trivial

/-- Honest history is never refused. Whatever sender and receiver have lived through, what the
sender hands over for a transaction that it finds to obey the rules is agreed to, the blobs first
and then, whatever has happened to the receiver in between, the history; and the receiver then finds
the transaction to obey the rules too, with the same inputs. -/
theorem history_taken_in [Cryptosystem.SignsVerifiably] (settings settings' : NodeSettings)
    (identity identity' : Seed) (further further' : List Seed)
    (events events' meanwhile : List Event) (role : SessionRole) :
    let n := ((start (Node.new settings identity further)).run events).node
    let receiver := (start (Node.new settings' identity' further')).run events'
    ∀ (t : Transaction) (p : Proposal) (given : Handover) (blobs history : Bytes),
      t.content = p.content → n.judge p.content = .ok () → n.handover t p = .ok given →
      (Message.attachments given.attachments).toFrame = .ok blobs →
      (Message.history given.history).toFrame = .ok history →
      let supplied := receiver.step (.served (.serving role) (.attachments given.attachments))
      n.Distinguishes (supplied.run meanwhile).node →
      receiver.node.respondToFrame (.serving role) blobs =
          (supplied.node, .serving role, some Node.ackFrame) ∧
        ∃ m, (supplied.run meanwhile).node.respondToFrame (.serving role) history =
            (m, .serving role, some Node.ackFrame) ∧ m.judge p.content = .ok () ∧
          ∃ inputs, n.ledger.archive.resolveInputs p.content = .ok inputs ∧
            m.ledger.archive.resolveInputs p.content = .ok inputs := by
  intro n receiver t p given blobs history hcontent hjudge hgiven hblobs hhistory supplied
    hdistinguishes
  have hlife : supplied.run meanwhile = (start (Node.new settings' identity' further')).run
      (events' ++ .served (.serving role) (.attachments given.attachments) :: meanwhile) := by
    unfold run
    rw [List.foldl_append]
    rfl
  have hgrows : supplied.node.Grows (supplied.run meanwhile).node :=
    (filed_run.step Node.lasts_filed (Event.suits_of_forall (fun _ _ ↦ trivial) _)).grows_run
      meanwhile
  have hfiled : (supplied.run meanwhile).node.Filed := hlife ▸ filed_run.node
  have hkept : ∀ blob ∈ given.attachments,
      AttachmentId.ofBlob blob ∈ (supplied.run meanwhile).node.attachments :=
    fun blob hblob ↦ hgrows.attachments.mem (Attachments.ofBlob_mem_addAll hblob)
  have hsupplies : ∀ u ∈ given.history ++ [t],
      n.Supplies (supplied.run meanwhile).node u.content := fun u hu ↦
    Node.supplies_of_hands (Node.hands_of_handover hgiven) filed_run.node hfiled hdistinguishes
      hkept hu
  rw [← hcontent] at hjudge ⊢
  exact ⟨Node.respondToFrame_of_respond hblobs Node.toFrame_ack rfl,
    Node.exists_respondToFrame_history (Sound.run sound_start events).node traceable_run
      (hlife ▸ traceable_run) hdistinguishes hgiven hjudge hsupplies hhistory⟩

omit [Cryptosystem]

/-! ### Two transactions and a blob, one of them known -/

namespace Handed

open Exit
open Trial (seed notary holder)

def blob : Bytes := [1, 2, 3]

/-- An asset is issued, moved on whatever holds it, and a blob kept. -/
def events : List Event :=
  let issued := @run .clear (start (@Node.new .clear settings (seed 2) [])) issue
  issue ++ issued.node.ledger.vault.live.map (fun asset ↦
    .proposed ∅ ⟨notary, .replicate 32 2⟩ (.move asset holder)) ++
    [.decided 1 "Notary" (seed 9) ∅, .attached blob]

def sender : Node := (@run .clear (start (@Node.new .clear settings (seed 2) [])) events).node

/-- Exits that refer to the blob. -/
def proposals : List Proposal :=
  sender.ledger.vault.live.filterMap fun asset ↦
    (@Node.draft .clear sender ⟨notary, .replicate 32 3⟩ (.exit asset)).toOption.map fun p ↦
      { p with content := { p.content with attachments := [@AttachmentId.ofBlob .clear blob] } }

/-- The receiver has been told of the issue. -/
def received : List Event :=
  let issues := sender.ledger.archive.toList.filter fun (_, t) ↦ t.content.inputs.isEmpty
  issues.map fun (_, t) ↦ .served (.serving .observer) (.finalised t)

def receiver : Activity := @run .clear (start (@Node.new .clear settings (seed 5) [])) received

/-- The blobs arrive at the receiver. -/
def supplied (given : Handover) : Activity :=
  @step .clear receiver (.served (.serving .signer) (.attachments given.attachments))

/-- What the receiver is to be shown to agree to. -/
structure Suits (p : Proposal) (given : Handover) : Prop where
  judge : @Node.judge .clear sender p.content = .ok ()
  length : given.history.length = 2
  attachments : given.attachments = [blob]
  blobs : (encode (Message.attachments given.attachments)).length ≤ Message.maxSize
  history : (encode (Message.history given.history)).length ≤ Message.maxSize
  content : ∀ x ∈ sender.ledger.archive.toList, ∀ y ∈ (supplied given).node.ledger.archive.toList,
    @Content.id .clear x.2.content = @Content.id .clear y.2.content → x.2.content = y.2.content
  blob : ∀ x ∈ sender.attachments.toList, ∀ y ∈ (supplied given).node.attachments.toList,
    @AttachmentId.ofBlob .clear x.2 = @AttachmentId.ofBlob .clear y.2 → x.2 = y.2

instance (p : Proposal) (given : Handover) : Decidable (Suits p given) :=
  decidable_of_iff (_ ∧ _ ∧ _ ∧ _ ∧ _ ∧ _ ∧ _)
    ⟨fun ⟨a, b, c, d, e, f, g⟩ ↦ ⟨a, b, c, d, e, f, g⟩,
      fun ⟨a, b, c, d, e, f, g⟩ ↦ ⟨a, b, c, d, e, f, g⟩⟩

/-- The sender can hand over what is needed, and it suits. -/
def isSuited (p : Proposal) : Bool :=
  match @Node.handover .clear sender (@Transaction.ofContent .clear p.content) p with
  | .ok given => decide (Suits p given)
  | .error _ => false

theorem exists_suits : ∃ p given,
    @Node.handover .clear sender (@Transaction.ofContent .clear p.content) p = .ok given ∧
      Suits p given := by
  have hsuited : proposals.any isSuited = true := by decide +kernel
  obtain ⟨p, -, hp⟩ := List.any_eq_true.mp hsuited
  unfold isSuited at hp
  split at hp
  · rename_i given hgiven
    exact ⟨p, given, hgiven, of_decide_eq_true hp⟩
  · cases hp

end Handed

open Exit Handed Trial in
theorem history_taken_in_handed :
    ∃ (p : Proposal) (given : Handover) (m : Node) (blobs history : Bytes),
      given.history.length = 2 ∧ given.attachments = [blob] ∧
      receiver.node.ledger.archive.size = 1 ∧
      (Message.attachments given.attachments).toFrame = .ok blobs ∧
      (Message.history given.history).toFrame = .ok history ∧
      @Node.respondToFrame .clear receiver.node (.serving .signer) blobs =
        ((supplied given).node, .serving .signer, some Node.ackFrame) ∧
      @Node.respondToFrame .clear (supplied given).node (.serving .signer) history =
        (m, .serving .signer, some Node.ackFrame) ∧ @Node.judge .clear m p.content = .ok () := by
  let _ : Cryptosystem := .clear
  let _ : Cryptosystem.SignsVerifiably := Cryptosystem.clear_signsVerifiably
  obtain ⟨p, given, hgiven, hsuits⟩ := exists_suits
  have hblobs := Message.toFrame_of_length_le hsuits.blobs
  have hhistory := Message.toFrame_of_length_le hsuits.history
  obtain ⟨hfirst, m, hsecond, hjudge, -⟩ := history_taken_in settings settings (seed 2) (seed 5)
    [] [] Handed.events received [] .signer (.ofContent p.content) p given _ _ rfl hsuits.judge
    hgiven hblobs hhistory (Node.distinguishes_of_forall hsuits.content hsuits.blob)
  exact ⟨p, given, m, _, _, hsuits.length, hsuits.attachments, by decide +kernel, hblobs, hhistory,
    hfirst, hsecond, hjudge⟩

end Activity

end Custody
