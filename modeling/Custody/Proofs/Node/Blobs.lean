import Custody.Proofs.Node.Backing
import Custody.Proofs.Settlement

/-!
# Blobs that history needs

With a transaction a counterparty is handed every blob that the transaction and its history refer
to, so a node can forward what it holds only as far as it holds these blobs too. Unlocking opens
them, and therefore no unlocking is recorded without them. The other rules do not look at them: what
issues or moves an asset may refer to any blob, and a node that is served such a transaction records
it, whether the blob ever comes or not. From then on nothing that rests on it can be handed over.
The operations of nodes refer to blobs only in order to unlock, so where nothing else comes in,
everything a node holds can be forwarded.
-/

namespace Custody

/-- Blobs are referred to only in order to unlock. -/
def Content.RefersToUnlock (c : Content) : Prop :=
  c.attachments = [] ∨ Rules.stepOf c = .ok (some .unlock)

namespace Node

/-! ### What is opened is at hand -/

section

variable {n n' : Node} {c : Content}

/-- The blobs that a content refers to are at hand. -/
def HasBlobs (n : Node) (c : Content) : Prop := ∀ id ∈ c.attachments, id ∈ n.attachments

theorem HasBlobs.grows (h : n.HasBlobs c) (hgrows : n.Grows n') : n'.HasBlobs c :=
  fun id hid ↦ hgrows.attachments.mem (h id hid)

variable [Cryptosystem]

/-- A node that finds an unlocking to obey the rules has opened the blobs. -/
theorem hasBlobs_of_judge (hstep : Rules.stepOf c = .ok (some .unlock))
    (h : n.judge c = .ok ()) : n.HasBlobs c := by
  obtain ⟨inputs, -, hcheck⟩ := judge_eq_ok_iff.mp h
  obtain ⟨-, -, step, hstep', hrule⟩ := Rules.check_eq_ok_iff.mp hcheck
  obtain rfl := Except.ok.inj (hstep.symm.trans hstep')
  obtain ⟨_, _, _, proofs, _, -, -, hproofs, -⟩ := Rules.checkUnlock_eq_ok_iff.mp hrule
  intro id hid
  obtain ⟨proof, -, -, hheld⟩ := Outcome.exists_of_mem_left hproofs hid
  rw [Std.TreeMap.mem_iff_isSome_getElem?, hheld]
  rfl

/-- The blobs of every unlocking that a node has recorded are at hand. -/
def Stocked (n : Node) : Prop :=
  ∀ (id : TransactionId) (t : Transaction), n.ledger.archive[id]? = some t →
    Rules.stepOf t.content = .ok (some .unlock) → n.HasBlobs t.content

theorem stocked_new {settings : NodeSettings} {identity : Seed} {further : List Seed} :
    (new settings identity further).Stocked :=
  fun _ _ ht ↦ nomatch getElem?_archive_new.symm.trans ht

theorem lasts_stocked : Node.Lasts Stocked fun _ ↦ True where
  record h _ hjudge := by
    intro id t ht hstep
    rcases Ledger.getElem?_archive_record.mp ht with hold | ⟨-, -, rfl⟩
    · exact h id t hold hstep
    · exact hasBlobs_of_judge hstep (judge_mono grows_record hjudge)
  attach h := fun id t ht hstep ↦ (h id t ht hstep).grows grows_attach
  propose _ _ _ _ _ _ _ _ _ := trivial

end

/-! ### What nodes propose -/

section

open Outcome

variable [Cryptosystem] {n : Node} {stamp : Stamp} {operation : Operation} {p : Proposal}

theorem ends_draft_attachments (hstep : operation.step? ≠ some .unlock) :
    Ends (n.draft stamp operation) fun p ↦ p.content.attachments = [] := by
  cases operation with
  | issue asset holder => exact ends_pure rfl
  | move asset holder =>
    unfold draft draftMove
    apply ends_bind
    intro _ _
    exact ends_pure rfl
  | exit asset =>
    unfold draft draftExit
    apply ends_bind
    intro _ _
    exact ends_pure rfl
  | request terms sharesHistory =>
    unfold draft draftRequest
    apply ends_bind
    intro _ _
    apply ends_when
    intro _
    apply ends_when
    intro _
    simp only
    split
    · apply ends_bind
      intro _ _
      exact ends_pure rfl
    · exact ends_pure rfl
  | accept terms =>
    intro p hp
    obtain ⟨_, _, _, _, _, -, -, -, hattachments, -⟩ := ends_draftAccept_reissues p hp
    exact hattachments
  | reject request =>
    unfold draft draftReject
    apply ends_bind
    intro held _
    split
    · apply ends_when
      intro _
      exact ends_pure rfl
    · exact ends_error
  | unlock terms => exact absurd rfl hstep
  | delete terms =>
    unfold draft draftDelete
    apply ends_bind
    intro _ _
    apply ends_bind
    intro _ _
    apply ends_bind
    intro _ _
    apply ends_bind
    intro _ _
    exact ends_pure rfl

theorem refersToUnlock_of_propose (h : n.propose stamp operation = .ok p) :
    p.content.RefersToUnlock := by
  have htakes := takes_of_propose h
  by_cases hstep : operation.step? = some .unlock
  · obtain ⟨_, -, hcheck⟩ := judge_eq_ok_iff.mp htakes.judge_eq
    obtain ⟨-, -, step, htaken, -⟩ := Rules.check_eq_ok_iff.mp hcheck
    have hhead := (Rules.stepOf_eq_ok_iff.mp htaken).2.1
    rw [htakes.steps_eq, hstep] at hhead
    subst hhead
    exact .inr htaken
  · exact .inl (ends_draft_attachments hstep p (propose_eq_ok_iff.mp h).1)

/-- Nothing that a node has recorded refers to blobs other than to unlock. -/
def Sparing (n : Node) : Prop :=
  ∀ (id : TransactionId) (t : Transaction), n.ledger.archive[id]? = some t →
    t.content.RefersToUnlock

theorem sparing_new {settings : NodeSettings} {identity : Seed} {further : List Seed} :
    (new settings identity further).Sparing :=
  fun _ _ ht ↦ nomatch getElem?_archive_new.symm.trans ht

theorem lasts_sparing : Node.Lasts Sparing fun t ↦ t.content.RefersToUnlock where
  record h hfit _ := by
    intro id t ht
    rcases Ledger.getElem?_archive_record.mp ht with hold | ⟨-, -, rfl⟩
    · exact h id t hold
    · exact hfit
  attach h := h
  propose _ hpropose _ _ t e _ hcontent _ := by
    change (t.endorse e).content.RefersToUnlock
    rw [Transaction.content_endorse, hcontent]
    exact refersToUnlock_of_propose hpropose

end

/-- A node that is sparing has all blobs that it needs. -/
theorem Stocked.hasBlobs [Cryptosystem] {n : Node} {id : TransactionId} {t : Transaction}
    (h : n.Stocked) (hsparing : n.Sparing) (ht : n.ledger.archive[id]? = some t) :
    n.HasBlobs t.content := by
  rcases hsparing id t ht with hnone | hstep
  · intro id hid
    rw [hnone] at hid
    exact absurd hid List.not_mem_nil
  · exact h id t ht hstep

/-! ### What can be handed over -/

section

variable [Cryptosystem] {n : Node} {t : Transaction} {p : Proposal} {history : List Transaction}
  {id : AttachmentId} {e : OperationError}

/-- The ids of what is to be handed over as history. -/
def roots (t : Transaction) (p : Proposal) : List TransactionId :=
  p.history.map Transaction.id ++ t.sources

/-- Whatever rests on what a node holds, and whose own blobs are at hand, can be handed over. -/
def Forwards (n : Node) : Prop :=
  ∀ (t : Transaction) (p : Proposal), (∀ id ∈ roots t p, id ∈ n.ledger.archive) →
    n.HasBlobs t.content → ∃ given, n.handover t p = .ok given

/-- A blob is referred to by a transaction or by what its history rests on. -/
inductive Refers (n : Node) (t : Transaction) (p : Proposal) (id : AttachmentId) : Prop
  | here (h : id ∈ t.content.attachments)
  | before {u : Transaction} (hheld : n.ledger.archive[u.id]? = some u)
      (hreached : n.ledger.archive.ReachedFrom (roots t p) u.id) (h : id ∈ u.content.attachments)

/-- The blobs that have to be looked up. -/
def lookups (history : List Transaction) (t : Transaction) (p : Proposal) : List AttachmentId :=
  ((history ++ [t]).flatMap (·.content.attachments)).eraseDups.filter
    (!(p.attachments.map AttachmentId.ofBlob).contains ·)

theorem mem_lookups_iff (h : n.ledger.archive.Verified)
    (hlineage : n.ledger.archive.lineage (Std.TreeSet.ofList (roots t p) compare).toList =
      .ok history) :
    id ∈ lookups history t p ↔ n.Refers t p id ∧ id ∉ p.attachments.map AttachmentId.ofBlob := by
  have hlisted (u : Transaction) : u ∈ history ↔
      n.ledger.archive[u.id]? = some u ∧ n.ledger.archive.ReachedFrom (roots t p) u.id := by
    rw [h.mem_lineage_iff hlineage]
    simp only [Archive.ReachedFrom, Std.TreeSet.mem_toList, Std.TreeSet.mem_ofList,
      List.contains_iff_mem]
  rw [lookups, List.mem_filter, List.mem_eraseDups, List.mem_flatMap, Bool.not_eq_true',
    Bool.eq_false_iff, ne_eq, List.contains_iff_mem]
  apply and_congr_left'
  constructor
  · rintro ⟨u, hu, hid⟩
    rcases List.mem_append.mp hu with hu | hu
    · obtain ⟨hheld, hreached⟩ := (hlisted u).mp hu
      exact .before hheld hreached hid
    · rw [List.mem_singleton.mp hu] at hid
      exact .here hid
  · rintro (hid | ⟨hheld, hreached, hid⟩)
    · exact ⟨t, List.mem_append_right _ (List.mem_singleton_self t), hid⟩
    · exact ⟨_, List.mem_append_left _ ((hlisted _).mpr ⟨hheld, hreached⟩), hid⟩

/-- Of what is held there is a lineage, and the rest is to look the blobs up. -/
theorem handover_eq (hlineage : n.ledger.archive.lineage
    (Std.TreeSet.ofList (roots t p) compare).toList = .ok history) :
    n.handover t p = do
      let others ← (lookups history t p).mapM fun id ↦
        (n.attachments.fetch id).mapError OperationError.store
      return ⟨history, p.attachments ++ others⟩ := by
  unfold handover
  change (n.ledger.archive.lineage (Std.TreeSet.ofList (roots t p) compare).toList).mapError _ >>=
    _ = _
  rw [hlineage]
  rfl

theorem exists_lineage_roots_iff (h : n.ledger.archive.Verified) :
    (∃ history, n.ledger.archive.lineage (Std.TreeSet.ofList (roots t p) compare).toList =
      .ok history) ↔ ∀ id ∈ roots t p, id ∈ n.ledger.archive := by
  rw [h.exists_lineage_iff]
  simp only [Std.TreeSet.mem_toList, Std.TreeSet.mem_ofList, List.contains_iff_mem]

/-- Where the history is held, only a blob that is lacking stands in the way of handing it over. -/
theorem exists_of_handover_eq_error (h : n.ledger.archive.Verified)
    (hheld : ∀ id ∈ roots t p, id ∈ n.ledger.archive) (he : n.handover t p = .error e) :
    ∃ id, n.Refers t p id ∧ id ∉ p.attachments.map AttachmentId.ofBlob ∧ id ∉ n.attachments ∧
      e = .store (.notFound (toString id)) := by
  obtain ⟨history, hlineage⟩ := (exists_lineage_roots_iff h).mpr hheld
  rw [handover_eq hlineage] at he
  rcases Outcome.bind_eq_error_iff.mp he with hfails | ⟨others, -, hfails⟩
  · obtain ⟨id, hid, hfetch⟩ := Outcome.exists_of_mapM_eq_error hfails
    obtain ⟨hrefers, hnew⟩ := (mem_lookups_iff h hlineage).mp hid
    refine ⟨id, hrefers, hnew, ?_⟩
    rw [Std.TreeMap.mem_iff_isSome_getElem?]
    unfold Attachments.fetch at hfetch
    cases hblob : n.attachments[id]? with
    | some blob =>
      rw [hblob] at hfetch
      cases hfetch
    | none =>
      rw [hblob] at hfetch
      exact ⟨nofun, (Except.error.inj hfetch).symm⟩
  · cases hfails

/-- A node can hand over a transaction with its history exactly if it holds all that this rests on
and every blob that is referred to. -/
theorem exists_handover_iff (h : n.ledger.archive.Verified) :
    (∃ given, n.handover t p = .ok given) ↔ (∀ id ∈ roots t p, id ∈ n.ledger.archive) ∧
      ∀ id, n.Refers t p id → id ∈ p.attachments.map AttachmentId.ofBlob ∨ id ∈ n.attachments := by
  constructor
  · rintro ⟨given, hgiven⟩
    have hlineage : ∃ history, n.ledger.archive.lineage
        (Std.TreeSet.ofList (roots t p) compare).toList = .ok history := by
      obtain ⟨history, hhistory, -⟩ := Outcome.bind_eq_ok_iff.mp hgiven
      exact ⟨history, Outcome.mapError_eq_ok_iff.mp hhistory⟩
    refine ⟨(exists_lineage_roots_iff h).mp hlineage, fun id hrefers ↦ ?_⟩
    obtain ⟨history, hlineage⟩ := hlineage
    rw [handover_eq hlineage] at hgiven
    obtain ⟨others, hothers, -⟩ := Outcome.bind_eq_ok_iff.mp hgiven
    refine or_iff_not_imp_left.mpr fun hnew ↦ ?_
    obtain ⟨blob, -, hfetch⟩ := Outcome.exists_of_mem_left (Outcome.mapM_eq_ok_iff.mp hothers)
      ((mem_lookups_iff h hlineage).mpr ⟨hrefers, hnew⟩)
    rw [Std.TreeMap.mem_iff_isSome_getElem?,
      Rules.fetch_eq_ok_iff.mp (Outcome.mapError_eq_ok_iff.mp hfetch)]
    rfl
  · rintro ⟨hheld, hblobs⟩
    cases hgiven : n.handover t p with
    | ok given => exact ⟨given, rfl⟩
    | error e =>
      obtain ⟨id, hrefers, hnew, hlacks, -⟩ := exists_of_handover_eq_error h hheld hgiven
      exact absurd (hblobs id hrefers) (not_or.mpr ⟨hnew, hlacks⟩)

end

end Node

namespace Activity

section

variable [Cryptosystem]

theorem stocked_run {settings : NodeSettings} {identity : Seed} {further : List Seed}
    {events : List Event} :
    ((start (Node.new settings identity further)).run events).node.Stocked :=
  (Upholds.run Node.lasts_stocked (upholds_start Node.stocked_new) fun event _ ↦
    event.suits_of_forall fun _ _ ↦ trivial).node

theorem sparing_run {settings : NodeSettings} {identity : Seed} {further : List Seed}
    {events : List Event}
    (hsuits : ∀ event ∈ events, event.Suits fun t ↦ t.content.RefersToUnlock) :
    ((start (Node.new settings identity further)).run events).node.Sparing :=
  (Upholds.run Node.lasts_sparing (upholds_start Node.sparing_new) hsuits).node

/-- Whatever a node lives through, the blobs of each unlocking in its archive are at hand. A
transaction can be handed over exactly if the node holds what it rests on and the blobs that are
referred to; where only blobs are lacking, the error names one of them. If no message hands over
transactions that refer to blobs other than to unlock, the blobs of everything archived are at hand,
and whatever rests on the archive can be handed over. -/
theorem handover_of_run (settings : NodeSettings) (identity : Seed) (further : List Seed)
    (events : List Event) :
    let n := ((start (Node.new settings identity further)).run events).node
    (∀ (id : TransactionId) (t : Transaction), n.ledger.archive[id]? = some t →
      Rules.stepOf t.content = .ok (some .unlock) → n.HasBlobs t.content) ∧
    (∀ t p, ((∃ given, n.handover t p = .ok given) ↔
        (∀ id ∈ Node.roots t p, id ∈ n.ledger.archive) ∧ ∀ id, n.Refers t p id →
          id ∈ p.attachments.map AttachmentId.ofBlob ∨ id ∈ n.attachments) ∧
      ∀ e, n.handover t p = .error e → (∀ id ∈ Node.roots t p, id ∈ n.ledger.archive) →
        ∃ id, n.Refers t p id ∧ id ∉ p.attachments.map AttachmentId.ofBlob ∧ id ∉ n.attachments ∧
          e = .store (.notFound (toString id))) ∧
    ((∀ event ∈ events, event.Suits fun t ↦ t.content.RefersToUnlock) →
      (∀ (id : TransactionId) (t : Transaction), n.ledger.archive[id]? = some t →
        n.HasBlobs t.content) ∧ n.Forwards) := by
  intro n
  have hverified : n.ledger.archive.Verified := traceable_run.verified
  refine ⟨stocked_run, fun t p ↦ ⟨Node.exists_handover_iff hverified, fun e he hheld ↦
    Node.exists_of_handover_eq_error hverified hheld he⟩, fun hsuits ↦ ?_⟩
  have hall (id : TransactionId) (t : Transaction) (ht : n.ledger.archive[id]? = some t) :
      n.HasBlobs t.content := stocked_run.hasBlobs (sparing_run hsuits) ht
  refine ⟨hall, fun t p hheld hblobs ↦ ?_⟩
  refine (Node.exists_handover_iff hverified).mpr ⟨hheld, fun id hrefers ↦ .inr ?_⟩
  cases hrefers with
  | here h => exact hblobs id h
  | before hsource _ h => exact hall _ _ hsource id h

end

/-! ### A blob that is not sent -/

deriving instance DecidableEq for Proposal

namespace Unsent

open Exit
open Trial (seed notary holder)

def blob : Bytes := [7]

def bob : Party := ⟨"Bob", ⟨.replicate 32 3⟩⟩

/-- An asset issued to the holder. For no reason the issue refers to the blob. -/
def content : Content where
  inputs := []
  outputs := [⟨.asset ⟨"Bond", [7]⟩, [holder.key], notary, none⟩]
  commands := [.asset "Issue" [⟨.replicate 32 5⟩]]
  notary := notary
  attachments := [@AttachmentId.ofBlob .clear blob]
  salt := .replicate 32 5

/-- The issuer and the notary have signed. -/
def issued : Transaction :=
  let t := @Transaction.ofContent .clear content
  t.endorseAll [@Endorsement.make .clear (seed 5) ⟨.replicate 32 5⟩ t.id,
    @Endorsement.make .clear (seed 9) notary.key t.id]

/-- The holder is told of the issue, and nothing else. -/
def told : List Event :=
  [.served .awaitingRole (.role false), .served (.serving .observer) (.finalised issued)]

def node (events : List Event) : Node :=
  (@run .clear (start (@Node.new .clear settings (seed 2) [])) events).node

/-- The asset as the holder has it. -/
def asset : Located := ⟨⟨.asset ⟨"Bond", [7]⟩, [holder.key], notary, none⟩, ⟨issued.id, 0⟩⟩

/-- It is to be moved on. -/
def move : Proposal where
  content := (⟨notary, .replicate 32 6⟩ : Stamp).content [asset.ref]
    [⟨.asset ⟨"Bond", [7]⟩, [bob.key], notary, none⟩] [.asset "Move" [holder.key]] []
  observers := [bob.key]
  history := []
  attachments := []

theorem propose_move : @Node.propose .clear (node told) ⟨notary, .replicate 32 6⟩
    (.move asset bob) = .ok move := by
  decide +kernel

theorem mem_roots_move :
    ∀ id ∈ Node.roots (@Transaction.ofContent .clear move.content) move,
      id ∈ (node told).ledger.archive := by
  decide +kernel

/-- The issue is archived without the blob, and then the asset can be moved by no means: the move is
proposed, but there is nothing to hand over with it. -/
theorem not_hasBlobs_of_run :
    (¬ ∀ (settings : NodeSettings) (identity : Seed) (further : List Seed) (events : List Event)
      (id : TransactionId) (t : Transaction),
      let n := (@run .clear (start (@Node.new .clear settings identity further)) events).node
      n.ledger.archive[id]? = some t → n.HasBlobs t.content) ∧
    (¬ ∀ (settings : NodeSettings) (identity : Seed) (further : List Seed) (events : List Event),
      @Node.Forwards .clear
        (@run .clear (start (@Node.new .clear settings identity further)) events).node) ∧
    @Node.propose .clear (node told) ⟨notary, .replicate 32 6⟩ (.move asset bob) =
        .ok move ∧
      ¬ ∃ given, @Node.handover .clear (node told) (@Transaction.ofContent .clear move.content) move =
        .ok given := by
  have hstuck : ¬ ∃ given, @Node.handover .clear (node told)
      (@Transaction.ofContent .clear move.content) move = .ok given := by
    rintro ⟨given, hgiven⟩
    have hfails : (@Node.handover .clear (node told)
        (@Transaction.ofContent .clear move.content) move).isOk = false := by
      decide +kernel
    rw [hgiven] at hfails
    cases hfails
  refine ⟨fun hall ↦ ?_, fun hall ↦ ?_, propose_move, hstuck⟩
  · have hblobs : (node told).HasBlobs issued.content :=
      hall settings (seed 2) [] told issued.id issued (by decide +kernel)
    have hlacks : ∃ id ∈ issued.content.attachments, id ∉ (node told).attachments := by
      decide +kernel
    obtain ⟨id, hid, hlacks⟩ := hlacks
    exact hlacks (hblobs id hid)
  · have hnone : (@Transaction.ofContent .clear move.content).content.attachments = [] := rfl
    have hblobs : (node told).HasBlobs (@Transaction.ofContent .clear move.content).content := by
      intro id hid
      rw [hnone] at hid
      exact absurd hid List.not_mem_nil
    have hforwards : @Node.Forwards .clear (node told) := hall settings (seed 2) [] told
    exact hstuck (hforwards (@Transaction.ofContent .clear move.content) move mem_roots_move hblobs)

/-- Once the blob has come, the asset can be moved; and what a node has issued itself it can always
forward. -/
theorem handover_of_run_attached :
    (∃ given, @Node.handover .clear (node (told ++ [.attached blob]))
      (@Transaction.ofContent .clear move.content) move = .ok given) ∧
    @Node.Forwards .clear (node issue) := by
  obtain ⟨-, hhandover, -⟩ :=
    @handover_of_run .clear settings (seed 2) [] (told ++ [.attached blob])
  obtain ⟨hgiven, -⟩ := hhandover (@Transaction.ofContent .clear move.content) move
  refine ⟨hgiven.mpr ⟨by decide +kernel, fun id hrefers ↦ .inr ?_⟩, ?_⟩
  · have hall : ∀ x ∈ (node (told ++ [.attached blob])).ledger.archive.toList,
        ∀ id ∈ x.2.content.attachments, id ∈ (node (told ++ [.attached blob])).attachments := by
      decide +kernel
    cases hrefers with
    | here h => exact absurd h List.not_mem_nil
    | before hheld _ h =>
      exact hall _ (Std.TreeMap.mem_toList_iff_getElem?_eq_some.mpr hheld) id h
  · obtain ⟨-, -, hsparing⟩ := @handover_of_run .clear settings (seed 2) [] issue
    exact (hsparing (by simp [issue, Event.Suits])).2

end Unsent

end Activity

end Custody
