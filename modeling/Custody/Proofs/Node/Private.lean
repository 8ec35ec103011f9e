import Custody.Proofs.Node.Activity

/-!
# Proposals that concern nobody else

A proposal that consumes and mentions nothing, and that only the node itself signs and is told of,
is settled without a session: the node signs, the notary decides, and what it signs is recorded.
-/

namespace Custody

open Outcome

variable [Cryptosystem]

omit [Cryptosystem] in
/-- Who signs alone with a key held here, and is told alone, deals with nobody. -/
theorem Roster.build_own {directory : Directory} {keyring : Keyring} {us : Party} {key : PublicKey}
    (howns : keyring.owns key = true) :
    build directory keyring us [key] [key] = .ok ⟨[key], [], []⟩ := by
  have hsorted : ascending [key] = [key] := rfl
  unfold build
  simp [hsorted, enterRequired, howns, enterObserver]

/-- Consumes and mentions nothing, and only the party itself signs and is told. -/
structure Proposal.Private (p : Proposal) (us : Party) : Prop where
  inputs_eq : p.content.inputs = []
  attachments_eq : p.content.attachments = []
  signersOf_eq : Node.signersOf p.content = [us.key]
  observers_eq : p.observers = [us.key]
  history_eq : p.history = []
  blobs_eq : p.attachments = []

/-- Content with one endorsement. -/
def Content.endorsedBy (c : Content) (seed : Seed) (key : PublicKey) : Transaction :=
  ⟨c.id, c, [.make seed key c.id]⟩

namespace Proposal.Private

variable {p : Proposal} {n : Node} {seed : Seed}

theorem endorseOwn_eq (hheld : n.keyring[n.party.key]? = some seed) :
    n.endorseOwn p.content [n.party.key] = .ok (p.content.endorsedBy seed n.party.key) := by
  unfold Node.endorseOwn Keyring.endorse
  simp only [List.mapM_cons, List.mapM_nil, hheld]
  rfl

/-- Nothing is handed over. -/
theorem handover_eq (h : p.Private n.party) {t : Transaction} (ht : t.content = p.content) :
    n.handover t p = .ok ⟨[], []⟩ := by
  have hroots : (Std.TreeSet.ofList (p.history.map Transaction.id ++ t.sources) compare).toList =
      [] := by
    rw [h.history_eq, Transaction.sources, Content.sources, ht, h.inputs_eq]
    rfl
  have hmentioned : ([] ++ [t]).flatMap (fun u : Transaction ↦ u.content.attachments) = [] := by
    rw [List.nil_append, List.flatMap_singleton, ht, h.attachments_eq]
  unfold Node.handover
  simp only [hroots, h.blobs_eq]
  refine bind_eq_ok_iff.mpr ⟨[], ?_, bind_eq_ok_iff.mpr ⟨[], ?_, rfl⟩⟩
  · rw [Archive.lineage_nil]
    rfl
  · rw [hmentioned]
    rfl

/-- What the node signs lacks no endorsement but the notary's. -/
theorem checkSignaturesExcept_eq_ok [Cryptosystem.SignsVerifiably] (h : p.Private n.party)
    (hkey : n.party.key = Cryptosystem.publicKey seed) :
    (p.content.endorsedBy seed n.party.key).checkSignaturesExcept [p.content.notary.key] =
      .ok () := by
  refine Transaction.checkSignaturesExcept_eq_ok_iff.mpr ⟨rfl, ?_, fun key hrequired hother ↦ ?_⟩
  · refine List.forall_mem_singleton.mpr ?_
    rw [hkey]
    exact Endorsement.isValidFor_make
  · have hsigner : key ∈ Node.signersOf p.content :=
      List.mem_filter.mpr ⟨hrequired, bne_iff_ne.mpr (List.ne_of_not_mem_cons hother)⟩
    rw [h.signersOf_eq, List.mem_singleton] at hsigner
    exact ⟨_, List.mem_singleton_self _, hsigner.symm⟩

end Proposal.Private

/-- What a proposal asks the notary for at once is recorded if the notary signs. -/
theorem Activity.run_eq_record {s : Activity} {directory : Directory} {stamp : Stamp}
    {operation : Operation} {p : Proposal} {t : Transaction} {name : String} {seed : Seed}
    {next : Except NotaryError Transaction → Dialogue (Except OperationError Transaction)}
    {notary : Notary} {e : Endorsement} (hpropose : s.node.propose stamp operation = .ok p)
    (hsettle : (Settling.settle directory s.node p).run = .finalise t next)
    (hnotarise : (⟨⟨name, Cryptosystem.publicKey seed⟩, seed, ∅⟩ : Notary).notarise t =
      .ok (notary, e)) :
    s.run [.proposed directory stamp operation, .decided s.underway.length name seed ∅] =
      ⟨s.node.record (t.endorse e), s.underway ++ [next (.ok (t.endorse e))]⟩ := by
  have hproposed : s.propose directory stamp operation =
      ⟨s.node, s.underway ++ [.finalise t next]⟩ := by
    simp only [propose, hpropose, hsettle]
  simp only [run, List.foldl_cons, List.foldl_nil, step, hproposed, resumeFinalisation,
    List.getElem?_concat_length, hnotarise, proceed, List.set_append, Nat.lt_irrefl, if_false,
    Nat.sub_self, List.set_cons_zero]

/-- What concerns nobody else is recorded once the notary has decided. -/
theorem Activity.exists_run_eq_record [Cryptosystem.SignsVerifiably] {s : Activity}
    (directory : Directory) {stamp : Stamp} {operation : Operation} {p : Proposal} {own : Seed}
    {name : String} {seed : Seed} (hpropose : s.node.propose stamp operation = .ok p)
    (h : p.Private s.node.party) (hheld : s.node.keyring[s.node.party.key]? = some own)
    (hkey : s.node.party.key = Cryptosystem.publicKey own)
    (hnotary : p.content.notary = ⟨name, Cryptosystem.publicKey seed⟩) :
    ∃ t d, s.run [.proposed directory stamp operation, .decided s.underway.length name seed ∅] =
        ⟨s.node.record t, s.underway ++ [d]⟩ ∧ t.id = p.content.id ∧ t.content = p.content := by
  have howns : s.node.keyring.owns s.node.party.key = true := by
    rw [Keyring.owns, Std.TreeMap.contains_eq_isSome_getElem?, hheld]
    rfl
  have hroster : Roster.build directory s.node.keyring s.node.party (Node.signersOf p.content)
      p.observers = .ok ⟨[s.node.party.key], [], []⟩ := by
    rw [h.signersOf_eq, h.observers_eq]
    exact Roster.build_own howns
  have hsigned := h.checkSignaturesExcept_eq_ok hkey
  obtain ⟨next, hsettle⟩ := Settling.exists_run_settle_eq hroster
    (Proposal.Private.endorseOwn_eq hheld) (h.handover_eq rfl) hsigned
  obtain ⟨inputs, -, hcheck⟩ := Node.judge_eq_ok_iff.mp (Node.propose_eq_ok_iff.mp hpropose).2
  have hwell := (Rules.check_eq_ok_iff.mp hcheck).1
  let t := p.content.endorsedBy own s.node.party.key
  let notary : Notary := ⟨⟨name, Cryptosystem.publicKey seed⟩, seed, ∅⟩
  have hadmits : notary.admits t = .ok () := by
    refine Notary.admits_eq_ok_iff.mpr ⟨hnotary, hwell, ?_⟩
    rw [hnotary] at hsigned
    exact Transaction.checkSignaturesExcept_eq_ok_iff.mp hsigned
  have hfree : notary.conflict? t = none := by
    rw [Notary.conflict?, show t.content.inputs = [] from h.inputs_eq]
    rfl
  have hnotarise := Notary.notarise_eq_ok_iff.mpr ⟨hadmits, hfree, rfl, rfl⟩
  exact ⟨_, _, run_eq_record hpropose hsettle hnotarise, Transaction.id_endorse,
    Transaction.content_endorse⟩

end Custody
