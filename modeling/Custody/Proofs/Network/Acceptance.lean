import Custody.Proofs.Network.Refusal
import Custody.Proofs.Node.Lasting
import Custody.Proofs.Operation.Acceptance

/-!
# What an issuer accepts

A node accepts a request exactly if it is addressed to the node and live there, and everything it
names is a live asset that no active lock has in its snapshot. Nothing is asked about copies. These
are the outputs of the lock's own transaction that it encumbers; while the lock is live all of them
are, and each passes for an asset like any other. So a copy may be re-issued under a second lock.
Deleting the first lock is then an exit of the copy, against which the second lock lets go of what
it holds, and what the first lock stood for is still there.
-/

namespace Custody

open Outcome

/-! ### Partners -/

/-- Whatever consumes an output consumes the partner of that too. -/
theorem Archive.Verified.partner_mem_inputs [Cryptosystem] {archive : Archive}
    (h : archive.Verified) {r : OutputRef} {source u : Transaction} {e : Entity} {partner : UInt32}
    {id : TransactionId} (hsource : archive[r.transaction]? = some source)
    (houtput : source.content.outputs[r.index.toNat]? = some e)
    (hpartner : e.encumbrance = some partner) (hu : archive[id]? = some u)
    (hr : r ∈ u.content.inputs) : ⟨r.transaction, partner⟩ ∈ u.content.inputs := by
  obtain ⟨inputs, attachments, hinputs, hcheck⟩ := h.admits hu
  have hmatch := (Rules.check_eq_ok_iff.mp hcheck).2.1
  rw [← hmatch.refs_eq, List.mem_map] at hr
  obtain ⟨input, hinput, rfl⟩ := hr
  obtain ⟨source', hsource', houtput'⟩ := Archive.exists_source_of_mem hinputs hinput
  obtain rfl := Option.some.inj (hsource.symm.trans hsource')
  obtain rfl := Option.some.inj (houtput.symm.trans houtput')
  exact hmatch.partner_mem input hinput partner hpartner

/-- So what is paired with something unspent is unspent. -/
theorem Archive.Verified.unspent_of_partner [Cryptosystem] {archive : Archive}
    (h : archive.Verified) {e partner : Located} {t : Transaction}
    (ht : archive[e.ref.transaction]? = some t)
    (houtput : t.content.outputs[e.ref.index.toNat]? = some e.entity)
    (hsibling : e.ref.transaction = partner.ref.transaction)
    (hpartner : e.entity.encumbrance = some partner.ref.index)
    (hunspent : archive.Unspent partner) : archive.Unspent e := by
  refine ⟨⟨t, ht, houtput⟩, fun id u hu hinput ↦ ?_⟩
  have hmem := h.partner_mem_inputs ht houtput hpartner hu hinput
  rw [hsibling] at hmem
  exact hunspent.unspent id u hu hmem

namespace Vault

variable {v : Vault} {lock : Located} {r : OutputRef}

/-- A live copy under a lock: an output of the lock's transaction whose partner the lock is. -/
def IsCopyUnder (v : Vault) (lock : Located) (r : OutputRef) : Prop :=
  r.transaction = lock.ref.transaction ∧
    ∃ copy, v.live? r = some copy ∧ copy.entity.encumbrance = some lock.ref.index

instance : Decidable (v.IsCopyUnder lock r) :=
  decidable_of_iff (r.transaction = lock.ref.transaction ∧
      (v.live? r).any (·.entity.encumbrance == some lock.ref.index) = true) <| by
    unfold IsCopyUnder
    simp only [Option.any_eq_true, beq_iff_eq]

end Vault

namespace Node

variable {n : Node} [Cryptosystem]

/-! ### Copies -/

/-- While a lock is live and active, all its copies are live, and they are assets. -/
theorem Coherent.exists_copy_of_live (h : n.Coherent) (hmirrors : n.ledger.Mirrors)
    {lock : Located} (hlock : lock ∈ n.ledger.vault.activeLocks) {state : Lock}
    (hstate : lock.entity.lock? = some state) {index : Nat} (hindex : index < state.snapshot.length) :
    ∃ copy, n.ledger.vault.live? ⟨lock.ref.transaction, .ofNat index⟩ = some copy ∧
      copy.entity.payload.isAsset = true ∧ copy.entity.encumbrance = some lock.ref.index := by
  obtain ⟨hlive, state', hstate', hactive⟩ := Vault.mem_activeLocks_iff.mp hlock
  obtain rfl := Option.some.inj (hstate.symm.trans hstate')
  obtain ⟨t, request, copies, ht, hwell, hreissues, hposition⟩ :=
    h.exists_reissues_of_live hlive hstate hactive
  have hlength := hreissues.isCopy.length_eq
  have hsize := hreissues.length_outputs_lt hwell
  rw [hreissues.length_outputs] at hsize
  have hindex' : index < copies.length := by omega
  have hnat : (UInt32.ofNat index).toNat = index :=
    UInt32.toNat_ofNat_of_lt' (show index < 2 ^ 32 by omega)
  have hmem : copies[index] ∈ copies := List.getElem_mem hindex'
  have hlast : UInt32.ofNat copies.length = lock.ref.index := by
    rw [← hposition, UInt32.ofNat_toNat]
  have hencumbrance : copies[index].encumbrance = some lock.ref.index :=
    hlast ▸ hreissues.encumbrance_eq hmem
  obtain ⟨_, hcopy⟩ := hreissues.exists_isCopy hmem
  let copy : Located := ⟨copies[index], ⟨lock.ref.transaction, .ofNat index⟩⟩
  have houtput : t.content.outputs[copy.ref.index.toNat]? = some copy.entity := by
    rw [hnat]
    exact hreissues.getElem?_copy hindex'
  have hsibling : copy.ref.transaction = lock.ref.transaction := rfl
  have hunspent : n.ledger.archive.Unspent copy := h.verified.unspent_of_partner ht houtput hsibling
    hencumbrance ((hmirrors.live _ _).mp hlive).2
  exact ⟨copy, (hmirrors.live _ _).mpr ⟨rfl, hunspent⟩, hcopy.isAsset, hencumbrance⟩

end Node

/-! ### Whatever a node lives through -/

section

variable [Cryptosystem]

/-- Whoever succeeds has proposed something. -/
theorem Network.exists_propose_of_perform {net net' : Network} {name : String} {salt : Block 32}
    {operation : Operation} {n : Node} {t : Transaction} (hnode : net.nodes[name]? = some n)
    (h : net.perform name salt operation = some (net', .ok t)) :
    ∃ p, n.propose ⟨net.notary.party, salt⟩ operation = .ok p := by
  rcases perform_cases h with ⟨-, -, e, he⟩ | ⟨d, hd, -⟩
  · cases he
  · obtain ⟨n', p, hnode', hpropose, -⟩ := settlement?_eq_some_iff.mp hd
    obtain rfl := Option.some.inj (hnode.symm.trans hnode')
    exact ⟨p, hpropose⟩

namespace Activity

/-- Whatever a node that starts with nothing lives through, it begins to accept a request exactly if
that is addressed to it and live, names live assets only and none that an active lock in its vault
has in its snapshot, and can be answered with outputs that can be counted; and it succeeds only
then. The copies under an active lock are among the live assets. -/
theorem accept_of_run (settings : NodeSettings) (identity : Seed) (further : List Seed)
    (events : List Event)
    (hframes : ∀ phase m, .served phase m ∈ events → ∃ frame, m.toFrame = .ok frame) :
    let n := ((start (Node.new settings identity further)).run events).node
    (∀ stamp terms, (∃ p, n.propose stamp (.accept terms) = .ok p) ↔
      ∃ request, n.Acceptable stamp.notary terms request ∧
        request.entities.length + 1 < 2 ^ 32) ∧
    (∀ (net net' : Network) name salt terms t, net.nodes[name]? = some n →
      net.perform name salt (.accept terms) = some (net', .ok t) →
      ∃ request, n.Acceptable net.notary.party terms request) ∧
    ∀ lock ∈ n.ledger.vault.activeLocks, ∀ state, lock.entity.lock? = some state →
      ∀ index < state.snapshot.length, ∃ copy,
        n.ledger.vault.live? ⟨lock.ref.transaction, .ofNat index⟩ = some copy ∧
          copy.entity.payload.isAsset = true ∧ copy.entity.encumbrance = some lock.ref.index := by
  intro n
  have hcoherent : n.Coherent := coherent_run hframes
  have hmirrors : n.ledger.Mirrors := mirrors_run hframes
  refine ⟨fun _ _ ↦ hcoherent.exists_propose_accept_iff hmirrors, ?_, ?_⟩
  · intro net net' name salt terms t hnode hperform
    obtain ⟨request, hacceptable, -⟩ := (hcoherent.exists_propose_accept_iff hmirrors).mp
      (Network.exists_propose_of_perform hnode hperform)
    exact ⟨request, hacceptable⟩
  · exact fun lock hlock state hstate index ↦ hcoherent.exists_copy_of_live hmirrors hlock hstate

end Activity

end

/-! ### A copy that is re-issued -/

namespace Activity

namespace Stacked

open Course

def copiesUnder (v : Vault) (lock : Located) : List Located :=
  v.live.filter fun copy ↦ v.IsCopyUnder lock copy.ref

/-- The lock over the bond that was issued is deleted. -/
def delete : Plan := fun s ↦
  let v := s.node.ledger.vault
  let outer := v.activeLocks.filter fun lock ↦
    lock.entity.lock?.any (·.snapshot.all (!·.entity.isEncumbered))
  outer.flatMap fun lock ↦ perform s (.delete ⟨lock, copiesUnder v lock, "Exit", []⟩)

/-- The deletion is kept as a proof. -/
def file : Plan := fun s ↦
  (s.node.ledger.archive.toList.filter (·.2.content.outputs.isEmpty)).map fun (_, t) ↦
    .attached (encode t)

def unlock : Plan := fun s ↦
  let v := s.node.ledger.vault
  v.activeLocks.flatMap fun lock ↦ perform s <|
    .unlock ⟨lock, copiesUnder v lock, s.node.attachments.keys, "Unlock", [], .observe⟩

/-- A bond is issued and re-issued, and the copy is asked for. -/
def asked : List Event := [issue, ask .unencumbered, accept, ask .encumbered].foldl follow []

/-- The copy is re-issued, the first lock deleted, and the second one unlocked. -/
def released : List Event := [accept, delete, file, unlock].foldl follow asked

def issuer : Node := (after asked).node

def net : Network where
  notary :=
    { @Notary.new .clear "Notary" (Trial.seed 9) with spent := issuer.ledger.vault.consumed }
  directory := ∅
  nodes := Std.TreeMap.empty.insert "Holder" issuer
  scripts := ∅

/-- A request for a copy under an active lock, which the node accepts. -/
def acceptsCopy (request : Located) : Bool :=
  let v := issuer.ledger.vault
  match @Network.perform .clear net "Holder" (.ofNatLE 32 9) (.accept ⟨request, none, []⟩) with
  | some (_, .ok _) => request.entity.request?.any fun state ↦ state.entities.any fun r ↦
      v.activeLocks.any fun lock ↦ v.IsCopyUnder lock r
  | _ => false

theorem exists_acceptsCopy :
    ∃ request state r lock net' t,
      @Network.perform .clear net "Holder" (.ofNatLE 32 9) (.accept ⟨request, none, []⟩) =
        some (net', .ok t) ∧ request.entity.request? = some state ∧ r ∈ state.entities ∧
      lock ∈ issuer.ledger.vault.activeLocks ∧ issuer.ledger.vault.IsCopyUnder lock r := by
  have haccepts : issuer.ledger.vault.requests.any acceptsCopy = true := by decide +kernel
  obtain ⟨request, -, haccepts⟩ := List.any_eq_true.mp haccepts
  unfold acceptsCopy at haccepts
  simp only at haccepts
  split at haccepts
  · rename_i net' t hperform
    obtain ⟨state, hstate, haccepts⟩ := (Option.any_eq_true _ _).mp haccepts
    obtain ⟨r, hr, haccepts⟩ := List.any_eq_true.mp haccepts
    obtain ⟨lock, hlock, hcopy⟩ := List.any_eq_true.mp haccepts
    exact ⟨request, state, r, lock, net', t, hperform, hstate, hr, hlock, of_decide_eq_true hcopy⟩
  · cases haccepts

theorem isOwn_asked : asked.all Event.isOwn = true := by decide +kernel

end Stacked

open Stacked

/-- A request for a copy under a lock is acceptable. -/
theorem accept_of_run_nested :
    ∃ terms request r lock, issuer.Acceptable net.notary.party terms request ∧
      r ∈ request.entities ∧ lock ∈ issuer.ledger.vault.activeLocks ∧
      issuer.ledger.vault.IsCopyUnder lock r := by
  obtain ⟨request, state, r, lock, net', t, hperform, hstate, hr, hlock, hcopy⟩ :=
    exists_acceptsCopy
  have hnode : net.nodes["Holder"]? = some issuer := Std.TreeMap.getElem?_insert_self
  obtain ⟨-, hsucceeds, -⟩ :=
    @accept_of_run .clear Exit.settings (Trial.seed 2) [] asked (framed_of_isOwn isOwn_asked)
  obtain ⟨state', hacceptable⟩ := hsucceeds net net' "Holder" _ _ t hnode hperform
  obtain rfl := Option.some.inj (hstate.symm.trans hacceptable.request?_eq)
  exact ⟨_, state, r, lock, hacceptable, hr, hlock, hcopy⟩

/-- What is under an active lock may be re-issued. -/
theorem not_free_of_accept :
    ¬ ∀ settings identity further events,
      (∀ phase m, .served phase m ∈ events → ∃ frame, m.toFrame = .ok frame) →
      let n := (@run .clear (start (@Node.new .clear settings identity further)) events).node
      ∀ net net' name salt terms t request, net.nodes[name]? = some n →
        @Network.perform .clear net name salt (.accept terms) = some (net', .ok t) →
        terms.request.entity.request? = some request →
        ∀ r ∈ request.entities, ∀ lock ∈ n.ledger.vault.activeLocks,
          ¬ Vault.Names lock r ∧ ¬ n.ledger.vault.IsCopyUnder lock r := by
  intro hfree
  obtain ⟨request, state, r, lock, net', t, hperform, hstate, hr, hlock, hcopy⟩ :=
    exists_acceptsCopy
  have hnode : net.nodes["Holder"]? = some issuer := Std.TreeMap.getElem?_insert_self
  exact (hfree Exit.settings (Trial.seed 2) [] asked (framed_of_isOwn isOwn_asked) net net' "Holder"
    _ _ t state hnode hperform hstate r hr lock hlock).2 hcopy

/-- In the end there are two bonds that nothing encumbers, of which one was issued. -/
theorem length_assets_released :
    let l := (Course.after released).node.ledger
    (l.vault.assets "Bond" .unencumbered).length = 2 ∧
      (l.archive.toList.filter fun (_, t) ↦
        t.content.inputs.isEmpty && t.content.outputs.any (·.payload.isAsset)).length = 1 := by
  decide +kernel

end Activity

end Custody
