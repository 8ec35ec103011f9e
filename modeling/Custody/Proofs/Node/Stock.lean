import Custody.Proofs.Bytes
import Custody.Proofs.Node.Lasting
import Custody.Proofs.Node.Private
import Custody.Proofs.Operation.Acceptance

/-!
# A node with any number of assets

A party may deal with itself only: it issues assets to itself and asks itself to re-issue all of
them in one request, and needs nobody but the notary. If ids tell salts apart, nothing of this is
lost, whatever the number of assets. Then the re-issuance is drafted, with an output for each asset
and one for the lock: no check of the arguments bounds what is drafted.
-/

namespace Custody

/-- Consumes nothing and creates no lock. -/
structure Content.Plain (c : Content) : Prop where
  inputs_eq : c.inputs = []
  lock?_eq : ∀ e ∈ c.outputs, e.lock? = none

variable [Cryptosystem]

/-- Contents with different salts have different ids. -/
def Cryptosystem.TellsSalts : Prop := ∀ c c' : Content, c.id = c'.id → c.salt = c'.salt

/-- A party that deals with itself only, and its notary. -/
structure Solitary where
  settings : NodeSettings
  identity : Seed
  notaryName : String
  notarySeed : Seed
  key_ne : Cryptosystem.publicKey identity ≠ Cryptosystem.publicKey notarySeed

namespace Solitary

/-! ### What is done -/

section

variable (x : Solitary) (count number : Nat)

def party : Party := ⟨x.settings.legalName, Cryptosystem.publicKey x.identity⟩

def notary : Party := ⟨x.notaryName, Cryptosystem.publicKey x.notarySeed⟩

/-- The salt is the number of what has been done before. -/
def stamp : Stamp := ⟨x.notary, .ofNatLE 32 number⟩

/-- An operation is begun, and the notary decides. -/
def perform (operation : Operation) : List Event :=
  [.proposed ∅ (x.stamp number) operation, .decided number x.notaryName x.notarySeed ∅]

def bond : Asset := ⟨"Bond", [7]⟩

/-- The content that issues a bond. -/
def issued : Content :=
  (x.stamp number).content [] [⟨.asset bond, [x.party.key], x.notary, none⟩]
    [.asset "Issue" [x.party.key]] []

/-- The bonds, by reference. -/
def bonds : List OutputRef := (List.range count).map fun number ↦ ⟨(x.issued number).id, 0⟩

def terms : RequestTerms := ⟨x.party, x.party.key, x.bonds count, "Issue", [], true⟩

def request : Request := ⟨x.party, x.party.key, x.bonds count, "Issue", []⟩

/-- The request as it is produced. -/
def requestEntity : Entity :=
  ⟨.request (x.request count), [x.party.key, x.party.key], x.notary, none⟩

/-- The content that asks for the bonds. -/
def requested : Content :=
  (x.stamp count).content [] [x.requestEntity count] [.signedBy .createRequest [x.party.key]] []

/-- What issues so many bonds and asks for them. -/
def contents : List Content := (List.range count).map x.issued ++ [x.requested count]

/-- So many bonds are issued. -/
def issuing : List Event :=
  (List.range count).flatMap fun number ↦ x.perform number (.issue bond x.party)

/-- Then all are asked for. -/
def asking : List Event := x.issuing count ++ x.perform count (.request (x.terms count) false)

/-- The party after some events. -/
def after (events : List Event) : Activity :=
  (Activity.start (Node.new x.settings x.identity [])).run events

end

variable {x : Solitary} {count number : Nat}

theorem isOwn_perform {operation : Operation} :
    (x.perform number operation).all Event.isOwn = true := rfl

theorem isOwn_issuing : (x.issuing count).all Event.isOwn = true := by
  simp [issuing, perform, Event.isOwn]

theorem isOwn_asking : (x.asking count).all Event.isOwn = true := by
  rw [asking, List.all_append, isOwn_issuing, isOwn_perform, Bool.and_true]

/-! ### What is recorded -/

/-- The node of the party has recorded these contents and nothing else. -/
structure HasRecorded (x : Solitary) (s : Activity) (cs : List Content) : Prop where
  party_eq : s.node.party = x.party
  keyring_eq : s.node.keyring[x.party.key]? = some x.identity
  length_underway : s.underway.length = cs.length
  archived : ∀ c ∈ cs, ∃ t, s.node.ledger.archive[c.id]? = some t ∧ t.content = c
  content_mem : ∀ (id : TransactionId) (t : Transaction), s.node.ledger.archive[id]? = some t →
    t.content ∈ cs ∧ t.content.id = id

namespace HasRecorded

variable {s : Activity} {cs : List Content}

theorem nil : x.HasRecorded (x.after []) [] where
  party_eq := rfl
  keyring_eq := Std.TreeMap.getElem?_insert_self
  length_underway := rfl
  archived := nofun
  content_mem id t ht := by
    cases Node.getElem?_archive_new.symm.trans ht

/-- What concerns nobody else and is new is recorded too. -/
theorem append [Cryptosystem.SignsVerifiably] (h : x.HasRecorded s cs)
    (hnumber : cs.length = number) {operation : Operation} {p : Proposal}
    (hpropose : s.node.propose (x.stamp number) operation = .ok p)
    (hprivate : p.Private x.party) (hnotary : p.content.notary = x.notary)
    (hnew : ∀ c ∈ cs, c.id ≠ p.content.id) :
    x.HasRecorded (s.run (x.perform number operation)) (cs ++ [p.content]) := by
  obtain ⟨t, d, hrun, hid, hcontent⟩ := Activity.exists_run_eq_record ∅ hpropose
    (h.party_eq ▸ hprivate) (h.party_eq ▸ h.keyring_eq) (h.party_eq ▸ rfl) hnotary
  have hfresh : t.id ∉ s.node.ledger.archive := by
    rw [Std.TreeMap.mem_iff_isSome_getElem?, Bool.not_eq_true, Option.isSome_eq_false_iff,
      Option.isNone_iff_eq_none, Option.eq_none_iff_forall_ne_some]
    intro u hu
    obtain ⟨hmem, hsame⟩ := h.content_mem _ u hu
    exact hnew _ hmem (hsame.trans hid)
  rw [h.length_underway, hnumber] at hrun
  rw [Solitary.perform, hrun]
  refine ⟨h.party_eq, h.keyring_eq, ?_, ?_, ?_⟩
  · simp [h.length_underway]
  · intro c hc
    rcases List.mem_append.mp hc with hold | hlast
    · obtain ⟨u, hu, hcontent⟩ := h.archived c hold
      exact ⟨u, Ledger.getElem?_archive_record.mpr (.inl hu), hcontent⟩
    · rw [List.mem_singleton.mp hlast]
      exact ⟨t, Ledger.getElem?_archive_record.mpr (.inr ⟨hfresh, hid, rfl⟩), hcontent⟩
  · intro id u hu
    rcases Ledger.getElem?_archive_record.mp hu with hold | ⟨-, rfl, rfl⟩
    · obtain ⟨hmem, hsame⟩ := h.content_mem id u hold
      exact ⟨List.mem_append_left _ hmem, hsame⟩
    · rw [hcontent]
      exact ⟨List.mem_append_right _ (List.mem_singleton_self _), hid.symm⟩

end HasRecorded

/-! ### Any number of bonds -/

/-- Content that the party signs alone and tells nobody else. -/
def alone (x : Solitary) (c : Content) : Proposal := ⟨c, [x.party.key], [], []⟩

theorem private_alone {c : Content} (hinputs : c.inputs = []) (hattachments : c.attachments = [])
    (hkeys : c.requiredKeys = [x.party.key]) (hnotary : c.notary = x.notary) :
    (x.alone c).Private x.party := by
  refine ⟨hinputs, hattachments, ?_, rfl, rfl, rfl⟩
  change c.requiredKeys.filter (· != c.notary.key) = _
  rw [hkeys, hnotary, List.filter_eq_self, List.forall_mem_singleton]
  exact bne_iff_ne.mpr x.key_ne

section

variable {n : Node}

theorem propose_issue (h : n.Coherent) (hparty : n.party = x.party) :
    n.propose (x.stamp number) (.issue bond x.party) = .ok (x.alone (x.issued number)) := by
  have hdraft : n.draftIssue (x.stamp number) bond x.party = x.alone (x.issued number) := by
    rw [Node.draftIssue, hparty]
    rfl
  refine Node.propose_eq_ok_iff.mpr ⟨congrArg Except.ok hdraft, ?_⟩
  rw [← hdraft]
  exact Node.approves_draftIssue h

theorem propose_request (h : n.Coherent) (hparty : n.party = x.party)
    (howns : n.keyring.owns x.party.key = true) (hcheck : (x.terms count).check = .ok ()) :
    n.propose (x.stamp count) (.request (x.terms count) false) =
      .ok (x.alone (x.requested count)) := by
  have hdraft : n.draft (x.stamp count) (.request (x.terms count) false) =
      .ok (x.alone (x.requested count)) := by
    change n.draftRequest _ _ _ = _
    unfold Node.draftRequest
    rw [hcheck, show (x.terms count).requester = x.party.key from rfl, howns, hparty]
    simp only [terms, bne_self_eq_false, Bool.and_false, Bool.not_true]
    rfl
  exact Node.propose_eq_ok_iff.mpr ⟨hdraft, Node.ends_draftRequest_approves h _ hdraft⟩

end

theorem after_append {before rest : List Event} :
    x.after (before ++ rest) = (x.after before).run rest := Activity.run_append

theorem issuing_succ :
    x.issuing (count + 1) = x.issuing count ++ x.perform count (.issue bond x.party) := by
  rw [issuing, List.range_succ, List.flatMap_append, List.flatMap_singleton]
  rfl

section

variable (hsalts : Cryptosystem.TellsSalts)

include hsalts

/-- Contents are told apart by the numbers in their salts. -/
theorem id_ne_of_mem (hcount : count < 256 ^ 32) {c : Content}
    (hc : c ∈ (List.range count).map x.issued) {c' : Content}
    (hsalt : c'.salt = .ofNatLE 32 count) : c.id ≠ c'.id := by
  intro hid
  obtain ⟨number, hnumber, rfl⟩ := List.mem_map.mp hc
  have hlt := List.mem_range.mp hnumber
  have hsame : number = count :=
    Block.ofNatLE_inj (hlt.trans hcount) hcount ((hsalts _ _ hid).trans hsalt)
  exact Nat.ne_of_lt hlt hsame

theorem nodup_bonds (hcount : count < 256 ^ 32) : (x.bonds count).Nodup := by
  refine List.nodup_range.map_on fun number hnumber number' hnumber' hsame ↦ ?_
  have hid : (x.issued number).id = (x.issued number').id := congrArg OutputRef.transaction hsame
  exact Block.ofNatLE_inj ((List.mem_range.mp hnumber).trans hcount)
    ((List.mem_range.mp hnumber').trans hcount) (hsalts _ _ hid)

/-- So many bonds can be issued. -/
theorem hasRecorded_issuing [Cryptosystem.SignsVerifiably] (hcount : count ≤ 256 ^ 32) :
    x.HasRecorded (x.after (x.issuing count)) ((List.range count).map x.issued) := by
  induction count with
  | zero => exact .nil
  | succ count ih =>
    have h := ih (Nat.le_of_lt hcount)
    have hcoherent : (x.after (x.issuing count)).node.Coherent :=
      Activity.coherent_run (framed_of_isOwn isOwn_issuing)
    have hlength : ((List.range count).map x.issued).length = count := by simp
    rw [issuing_succ, after_append, List.range_succ, List.map_append, List.map_singleton]
    exact h.append hlength (propose_issue hcoherent h.party_eq) (private_alone rfl rfl rfl rfl) rfl
      fun c hc ↦ id_ne_of_mem hsalts hcount hc rfl

/-- All bonds can be asked for at once. -/
theorem hasRecorded_asking [Cryptosystem.SignsVerifiably] (hpos : 0 < count)
    (hcount : count < 256 ^ 32) :
    x.HasRecorded (x.after (x.asking count)) (x.contents count) := by
  have h := hasRecorded_issuing (x := x) hsalts (Nat.le_of_lt hcount)
  have hcoherent : (x.after (x.issuing count)).node.Coherent :=
    Activity.coherent_run (framed_of_isOwn isOwn_issuing)
  have howns : (x.after (x.issuing count)).node.keyring.owns x.party.key = true := by
    rw [Keyring.owns, Std.TreeMap.contains_eq_isSome_getElem?, h.keyring_eq]
    rfl
  have hsome : x.bonds count ≠ [] := by
    rw [ne_eq, bonds, List.map_eq_nil_iff, List.range_eq_nil]
    exact Nat.ne_of_gt hpos
  have hcheck : (x.terms count).check = .ok () :=
    RequestTerms.check_eq_ok_iff.mpr
      ⟨hsome, nodup_bonds hsalts hcount, rfl, List.not_mem_nil, List.not_mem_nil⟩
  have hlength : ((List.range count).map x.issued).length = count := by simp
  rw [asking, after_append]
  exact h.append hlength (propose_request hcoherent h.party_eq howns hcheck)
    (private_alone rfl rfl rfl rfl) rfl fun c hc ↦ id_ne_of_mem hsalts hcount hc rfl

end

/-! ### The re-issuance of all bonds -/

namespace HasRecorded

variable {s : Activity} {cs : List Content}

/-- Where nothing is consumed, what was produced is live. -/
theorem live?_eq_some (h : x.HasRecorded s cs) (hmirrors : s.node.ledger.Mirrors)
    (hplain : ∀ c ∈ cs, c.Plain) {c : Content} (hc : c ∈ cs) {e : Entity}
    (houtput : c.outputs[0]? = some e) :
    s.node.ledger.vault.live? ⟨c.id, 0⟩ = some ⟨e, ⟨c.id, 0⟩⟩ := by
  obtain ⟨t, ht, rfl⟩ := h.archived c hc
  refine (hmirrors.live _ _).mpr ⟨rfl, ⟨t, ht, houtput⟩, fun id u hu hinput ↦ ?_⟩
  rw [(hplain _ (h.content_mem id u hu).1).inputs_eq] at hinput
  cases hinput

/-- Where no lock was produced, none is live. -/
theorem activeLocks_eq_nil (h : x.HasRecorded s cs) (hmirrors : s.node.ledger.Mirrors)
    (hplain : ∀ c ∈ cs, c.Plain) : s.node.ledger.vault.activeLocks = [] := by
  refine List.eq_nil_iff_forall_not_mem.mpr fun lock hlock ↦ ?_
  obtain ⟨hlive, state, hstate, -⟩ := Vault.mem_activeLocks_iff.mp hlock
  obtain ⟨-, ⟨t, ht, houtput⟩, -⟩ := (hmirrors.live _ _).mp hlive
  have hnone := (hplain _ (h.content_mem _ t ht).1).lock?_eq _ (List.mem_of_getElem? houtput)
  cases hnone.symm.trans hstate

end HasRecorded

/-- The request, where it is produced. -/
def requestAt (x : Solitary) (count : Nat) : Located :=
  ⟨x.requestEntity count, ⟨(x.requested count).id, 0⟩⟩

theorem plain_of_mem_contents {c : Content} (hc : c ∈ x.contents count) : c.Plain := by
  rcases List.mem_append.mp hc with hissued | hrequested
  · obtain ⟨number, -, rfl⟩ := List.mem_map.mp hissued
    exact ⟨rfl, List.forall_mem_singleton.mpr rfl⟩
  · rw [List.mem_singleton.mp hrequested]
    exact ⟨rfl, List.forall_mem_singleton.mpr rfl⟩

theorem acceptable_requestAt [Cryptosystem.SignsVerifiably] (hsalts : Cryptosystem.TellsSalts)
    (hpos : 0 < count) (hcount : count < 256 ^ 32) :
    (x.after (x.asking count)).node.Acceptable x.notary ⟨x.requestAt count, none, []⟩
      (x.request count) := by
  have h := hasRecorded_asking (x := x) hsalts hpos hcount
  have hmirrors : (x.after (x.asking count)).node.ledger.Mirrors :=
    Activity.mirrors_run (framed_of_isOwn isOwn_asking)
  have hplain : ∀ c ∈ x.contents count, c.Plain := fun _ ↦ plain_of_mem_contents
  refine ⟨rfl, ?_, rfl, h.party_eq.symm, fun r hr ↦ ?_, fun r hr lock hlock ↦ ?_⟩
  · exact h.live?_eq_some hmirrors hplain (List.mem_append_right _ (List.mem_singleton_self _)) rfl
  · obtain ⟨number, hnumber, rfl⟩ := List.mem_map.mp hr
    have hmem : x.issued number ∈ x.contents count :=
      List.mem_append_left _ (List.mem_map_of_mem hnumber)
    exact ⟨_, h.live?_eq_some hmirrors hplain hmem rfl, rfl⟩
  · rw [h.activeLocks_eq_nil hmirrors hplain] at hlock
    cases hlock

/-- Any number of assets can be held and asked for, and their re-issuance is drafted: an output for
each of them and one for the lock. -/
theorem exists_draft_accept [Cryptosystem.SignsVerifiably] (x : Solitary)
    (hsalts : Cryptosystem.TellsSalts) (hpos : 0 < count) (hcount : count < 256 ^ 32) :
    ∃ stamp terms p, (x.after (x.asking count)).node.draft stamp (.accept terms) = .ok p ∧
      p.content.outputs.length = count + 1 := by
  have hmirrors : (x.after (x.asking count)).node.ledger.Mirrors :=
    Activity.mirrors_run (framed_of_isOwn isOwn_asking)
  have hacceptable : (x.after (x.asking count)).node.Acceptable (x.stamp 0).notary
      ⟨x.requestAt count, none, []⟩ (x.request count) := acceptable_requestAt hsalts hpos hcount
  obtain ⟨p, hdraft⟩ := hacceptable.exists_draftAccept hmirrors
  obtain ⟨request, hsame, hlength⟩ := Node.ends_draftAccept_acceptable hmirrors p hdraft
  obtain rfl := Option.some.inj (hacceptable.request?_eq.symm.trans hsame.request?_eq)
  refine ⟨_, _, p, hdraft, ?_⟩
  rw [hlength, request, bonds, List.length_map, List.length_range]

end Solitary

end Custody
