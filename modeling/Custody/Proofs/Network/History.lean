import Custody.Proofs.Network.Run
import Custody.Proofs.Operation

/-!
# The history of a network

Nodes are started, do things one after the other and are handed blobs. A history keeps the network
together with what was finalised on it and by whom. Every history that begins with a new network is
sound: the nodes stay in good order, the notary remembers whatever was finalised, whoever had
something finalised has recorded it and still accepts it, and nothing else gets into an archive.
-/

namespace Custody

/-- What happens on a network. -/
inductive Action where
  | start (settings : NodeSettings) (further : List Seed)
  | operate (name : String) (salt : Block 32) (operation : Operation)
  /-- The node of a name is handed a blob to keep, such as the proof of an exit. -/
  | attach (name : String) (blob : Bytes)

namespace Network

variable [Cryptosystem]

/-- What the node of a name goes through to do something, if it gets so far. -/
def settlement? (net : Network) (name : String) (salt : Block 32) (operation : Operation) :
    Option (Dialogue (Except OperationError Transaction)) :=
  match net.nodes[name]? with
  | none => none
  | some node =>
    match node.propose ⟨net.notary.party, salt⟩ operation with
    | .error _ => none
    | .ok proposal => some (Settling.settle net.directory node proposal).run

/-- The network after something has happened. -/
def after (net : Network) : Action → Network
  | .start settings further =>
    if settings.legalName ∈ net.nodes then net
    else
      match net.install settings further with
      | .ok (net, _) => net
      | .error _ => net
  | .operate name salt operation =>
    match net.perform name salt operation with
    | some (net, _) => net
    | none => net
  | .attach name blob => net.update name (·.attach blob)

/-- What is finalised when something happens, with the name of the node. -/
def finalisedBy (net : Network) : Action → List (String × Transaction)
  | .operate name salt operation =>
    match net.settlement? name salt operation with
    | some d => (finalised name d net []).map fun t ↦ (name, t)
    | none => []
  | .start _ _ | .attach _ _ => []

theorem after_operate {net : Network} {name : String} {salt : Block 32} {operation : Operation} :
    net.after (.operate name salt operation) =
      match net.settlement? name salt operation with
      | some d => (run name d net []).1
      | none => net := by
  unfold after
  simp only
  unfold perform settlement?
  cases net.nodes[name]? with
  | none => rfl
  | some node =>
  simp only [Option.bind_eq_bind, Option.bind_some]
  cases node.propose ⟨net.notary.party, salt⟩ operation with
  | error e => rfl
  | ok p => rfl

theorem settlement?_eq_some_iff {net : Network} {name : String} {salt : Block 32}
    {operation : Operation} {d : Dialogue (Except OperationError Transaction)} :
    net.settlement? name salt operation = some d ↔ ∃ node p, net.nodes[name]? = some node ∧
      node.propose ⟨net.notary.party, salt⟩ operation = .ok p ∧
        (Settling.settle net.directory node p).run = d := by
  unfold settlement?
  cases net.nodes[name]? with
  | none => simp
  | some node =>
  cases hpropose : node.propose ⟨net.notary.party, salt⟩ operation with
  | error e => simp [hpropose]
  | ok p => simp [hpropose]

end Network

/-- A network with everything that was finalised on it so far, first to last, each with the name of
the node that had it finalised. -/
structure History where
  net : Network
  finalised : List (String × Transaction)

namespace History

variable [Cryptosystem]

/-- Nothing has been finalised yet. -/
def start (net : Network) : History := ⟨net, []⟩

def act (h : History) (action : Action) : History :=
  ⟨h.net.after action, h.finalised ++ h.net.finalisedBy action⟩

def run (h : History) (actions : List Action) : History := actions.foldl act h

theorem run_append {h : History} {before rest : List Action} :
    h.run (before ++ rest) = (h.run before).run rest := List.foldl_append

/-! ### Sound histories -/

variable {net : Network} {past : List (String × Transaction)} {name : String}

/-- The notary signs with its key and remembers what was finalised, the nodes are in good order,
whoever had something finalised has recorded it and accepts it, and nothing else is archived. -/
structure Sound (h : History) : Prop where
  key_eq : h.net.notary.party.key = Cryptosystem.publicKey h.net.notary.seed
  orderly : ∀ (name : String) (node : Node), h.net.nodes[name]? = some node → node.Orderly
  consumed : ∀ (name : String) (t : Transaction), (name, t) ∈ h.finalised →
    ∀ input ∈ t.content.inputs, h.net.notary.consumedBy? input = some t.id
  recorded : ∀ (name : String) (t : Transaction), (name, t) ∈ h.finalised →
    ∃ node, h.net.nodes[name]? = some node ∧ t.id ∈ node.ledger.archive ∧
      node.judge t.content = .ok ()
  archived : ∀ (name : String) (node : Node), h.net.nodes[name]? = some node →
    ∀ t, node.ledger.archive.Stores t → ∃ owner, (owner, t) ∈ h.finalised

/-- A node may advance by what was finalised, with what is finalised now. -/
theorem Sound.update {known : Transaction → Prop} {change : Node → Node}
    {further : List (String × Transaction)} (h : Sound ⟨net, past⟩)
    (hchange : ∀ node, net.nodes[name]? = some node → node.Advances known (change node))
    (hknown : ∀ t, known t → ∃ owner, (owner, t) ∈ past ++ further)
    (hfurther : ∀ owner t, (owner, t) ∈ further →
      (∀ input ∈ t.content.inputs, net.notary.consumedBy? input = some t.id) ∧
      ∃ node, (net.update name change).nodes[owner]? = some node ∧ t.id ∈ node.ledger.archive ∧
        node.judge t.content = .ok ()) :
    Sound ⟨net.update name change, past ++ further⟩ := by
  constructor
  · rw [Network.notary_update]
    exact h.key_eq
  · intro other node hnode
    rw [Network.getElem?_update] at hnode
    split at hnode
    · rename_i hsame
      obtain ⟨old, hold, rfl⟩ := Option.map_eq_some_iff.mp hnode
      exact (hchange old (hsame ▸ hold)).orderly (h.orderly other old hold)
    · exact h.orderly other node hnode
  · intro owner t ht
    rw [Network.notary_update]
    rcases List.mem_append.mp ht with hold | hnew
    · exact h.consumed owner t hold
    · exact (hfurther owner t hnew).1
  · intro owner t ht
    rcases List.mem_append.mp ht with hold | hnew
    · obtain ⟨node, hnode, hmem, hjudge⟩ := h.recorded owner t hold
      obtain ⟨node', hnode', hadvances⟩ := Network.exists_advances_of_update hchange hnode
      exact ⟨node', hnode', hadvances.grows.archive.mem hmem,
        Node.judge_mono hadvances.grows hjudge⟩
    · exact (hfurther owner t hnew).2
  · intro other node hnode t ht
    rcases Network.stores_of_update hchange hnode ht with ⟨old, hold, hstored⟩ | hnew
    · obtain ⟨owner, hmem⟩ := h.archived other old hold t hstored
      exact ⟨owner, List.mem_append_left _ hmem⟩
    · exact hknown t hnew

/-- A node may advance by what was finalised. -/
theorem Sound.advance {known : Transaction → Prop} {change : Node → Node} (h : Sound ⟨net, past⟩)
    (hchange : ∀ node, net.nodes[name]? = some node → node.Advances known (change node))
    (hknown : ∀ t, known t → ∃ owner, (owner, t) ∈ past) :
    Sound ⟨net.update name change, past⟩ := by
  have hupdated := @Sound.update _ _ _ name _ _ [] h hchange
  rw [List.append_nil] at hupdated
  exact hupdated hknown fun _ _ ht ↦ absurd ht List.not_mem_nil

theorem Sound.notarise {t : Transaction} {notary : Notary} {e : Endorsement}
    (h : Sound ⟨net, past⟩) (hnotarise : net.notary.notarise t = .ok (notary, e)) :
    Sound ⟨{ net with notary }, past⟩ := by
  obtain ⟨hparty, hseed⟩ := Notary.party_seed_of_notarise hnotarise
  refine ⟨?_, h.orderly, ?_, h.recorded, h.archived⟩
  · change notary.party.key = Cryptosystem.publicKey notary.seed
    rw [hparty, hseed]
    exact h.key_eq
  · intro name u hu input hinput
    exact Notary.consumedBy?_of_notarise hnotarise (h.consumed name u hu input hinput)

/-- What the notary signs for a content that a node accepts, the node may record. -/
theorem Sound.advances_record [Cryptosystem.SignsVerifiably] {t : Transaction} {notary : Notary}
    {e : Endorsement} (h : Sound ⟨net, past⟩) (haccepts : net.Accepts name t.content)
    (hnotarise : net.notary.notarise t = .ok (notary, e)) (node : Node)
    (hnode : net.nodes[name]? = some node) :
    node.Advances (· = t.endorse e) (node.record (t.endorse e)) := by
  obtain ⟨judge, hheld, hjudge⟩ := haccepts
  rw [← Option.some.inj (hnode.symm.trans hheld), ← Transaction.content_endorse (e := e)] at hjudge
  exact Node.Advances.refl.record rfl (Notary.finalised_endorse_of_notarise h.key_eq hnotarise)
    hjudge

/-- The notary signs what a node accepts, and the node records it. -/
theorem Sound.finalise [Cryptosystem.SignsVerifiably] {t : Transaction} {notary : Notary}
    {e : Endorsement} (h : Sound ⟨net, past⟩) (haccepts : net.Accepts name t.content)
    (hnotarise : net.notary.notarise t = .ok (notary, e)) :
    Sound ⟨{ net with notary }.update name (·.record (t.endorse e)),
      past ++ [(name, t.endorse e)]⟩ := by
  apply (h.notarise hnotarise).update (h.advances_record haccepts hnotarise)
  · rintro _ rfl
    exact ⟨name, List.mem_append_right _ (List.mem_singleton.mpr rfl)⟩
  · intro owner u hu
    obtain ⟨rfl, rfl⟩ := Prod.mk.inj (List.mem_singleton.mp hu)
    obtain ⟨node, hnode, hjudge⟩ := haccepts
    constructor
    · intro input hinput
      rw [Transaction.content_endorse] at hinput
      rw [Transaction.id_endorse]
      exact Notary.consumedBy?_input_of_notarise hnotarise hinput
    · rw [← Transaction.content_endorse (e := e)] at hjudge
      refine ⟨node.record (t.endorse e), ?_, Node.mem_archive_record,
        Node.judge_mono Node.grows_record hjudge⟩
      rw [Network.getElem?_update, if_pos rfl]
      exact congrArg (Option.map _) hnode

/-- If a node goes through a dialogue that brings up nothing for finalisation but a content it
accepts, and hands over only what was finalised, the history stays sound. -/
theorem Sound.run_dialogue [Cryptosystem.SignsVerifiably] {α : Type} {d : Dialogue α}
    {known : Transaction → Prop} {post : α → Prop} {c : Content} (h : Sound ⟨net, past⟩)
    (haccepts : net.Accepts name c) (hkeeps : d.Keeps (fun t ↦ t.content = c) known post)
    (hknown : ∀ t, known t → ∃ owner, (owner, t) ∈ past) {peers : List Peer} :
    Sound ⟨(Network.run name d net peers).1,
      past ++ (Network.finalised name d net peers).map fun t ↦ (name, t)⟩ := by
  let invariant := fun (net : Network) (ts : List Transaction) ↦
    Sound ⟨net, past ++ ts.map fun t ↦ (name, t)⟩ ∧ net.Accepts name c
  have hstart : invariant net [] := ⟨by rwa [List.map_nil, List.append_nil], haccepts⟩
  apply And.left
  apply Network.run_invariant invariant ?_ ?_ hkeeps (fun _ ↦ .inl) hstart
  · rintro net ts party peer m hhanded ⟨hsound, haccepts⟩
    rcases Network.exchange_cases with hsame | ⟨other, change, hchange, hupdate⟩
    · rw [hsame]
      exact ⟨hsound, haccepts⟩
    · rw [hupdate]
      refine ⟨hsound.advance (fun node _ ↦ hchange node) ?_,
        haccepts.update fun node _ ↦ hchange node⟩
      intro t ht
      rcases hhanded t ht with hold | hnew
      · obtain ⟨owner, hmem⟩ := hknown t hold
        exact ⟨owner, List.mem_append_left _ hmem⟩
      · exact ⟨name, List.mem_append_right _ (List.mem_map_of_mem hnew)⟩
  · rintro net ts t notary e rfl hnotarise ⟨hsound, haccepts⟩
    have hsigned : ({ net with notary } : Network).Accepts name t.content := haccepts
    refine ⟨?_, hsigned.update (hsound.advances_record haccepts hnotarise)⟩
    rw [List.map_append, List.map_singleton, ← List.append_assoc]
    exact hsound.finalise haccepts hnotarise

theorem sound_start {settings : NotarySettings} (h : Network.new settings = .ok net) :
    (start net).Sound := by
  have hnone : ∀ (name : String) (node : Node), net.nodes[name]? ≠ some node :=
    fun _ _ hnode ↦ nomatch (Network.getElem?_nodes_of_new h).symm.trans hnode
  obtain ⟨seed, -, h⟩ := Outcome.bind_eq_ok_iff.mp h
  constructor
  · rw [start, ← Outcome.pure_eq_ok_iff.mp h]
    rfl
  · exact fun name node hnode ↦ absurd hnode (hnone name node)
  · exact fun _ _ ht ↦ absurd ht List.not_mem_nil
  · exact fun _ _ ht ↦ absurd ht List.not_mem_nil
  · exact fun name node hnode ↦ absurd hnode (hnone name node)

/-- A node of a new name joins with nothing recorded. -/
theorem Sound.install {settings : NodeSettings} {further : List Seed} {joined : Network × Party}
    (h : Sound ⟨net, past⟩) (hnew : settings.legalName ∉ net.nodes)
    (hinstall : net.install settings further = .ok joined) : Sound ⟨joined.1, past⟩ := by
  obtain ⟨seed, hnotary, hnodes⟩ := Network.exists_of_install hnew hinstall
  refine ⟨hnotary ▸ h.key_eq, ?_, hnotary ▸ h.consumed, ?_, ?_⟩
  · intro name node hnode
    rcases hnodes.mp hnode with ⟨-, rfl⟩ | hold
    · exact Node.orderly_new
    · exact h.orderly name node hold
  · intro name t ht
    obtain ⟨node, hnode, hrecorded⟩ := h.recorded name t ht
    exact ⟨node, hnodes.mpr (.inr hnode), hrecorded⟩
  · intro name node hnode t ht
    rcases hnodes.mp hnode with ⟨-, rfl⟩ | hold
    · obtain ⟨id, ht⟩ := ht
      cases Node.getElem?_archive_new.symm.trans ht
    · exact h.archived name node hold t ht

/-- Whatever happens, a history stays sound. -/
theorem Sound.act [Cryptosystem.SignsVerifiably] {h : History} (hsound : h.Sound)
    (action : Action) : (h.act action).Sound := by
  unfold History.act
  cases action with
  | start settings further =>
    rw [show h.net.finalisedBy (.start settings further) = [] from rfl, List.append_nil]
    unfold Network.after
    simp only
    split
    · exact hsound
    · rename_i hnew
      split
      · rename_i hinstall
        exact hsound.install hnew hinstall
      · exact hsound
  | operate name salt operation =>
    rw [Network.after_operate]
    unfold Network.finalisedBy
    simp only
    cases hsettlement : h.net.settlement? name salt operation with
    | none =>
      rw [List.append_nil]
      exact hsound
    | some d =>
      obtain ⟨node, p, hnode, hp, rfl⟩ := Network.settlement?_eq_some_iff.mp hsettlement
      exact hsound.run_dialogue ⟨node, hnode, (Node.takes_of_propose hp).judge_eq⟩
        Settling.ensures_settle (hsound.archived name node hnode)
  | attach name blob =>
    rw [show h.net.finalisedBy (.attach name blob) = [] from rfl, List.append_nil]
    have hattach : ∀ node, h.net.nodes[name]? = some node →
        node.Advances (fun _ ↦ False) (node.attach blob) := fun _ _ ↦ Node.Advances.refl.attach
    exact hsound.advance hattach fun _ h ↦ h.elim

theorem Sound.run [Cryptosystem.SignsVerifiably] {h : History} (hsound : h.Sound)
    (actions : List Action) : (h.run actions).Sound := by
  unfold History.run
  induction actions generalizing h with
  | nil => exact hsound
  | cons action actions ih => exact ih (hsound.act action)

/-- Whatever is finalised is what a node proposed to do something. -/
theorem exists_proposal_of_mem {action : Action} {t : Transaction}
    (h : (name, t) ∈ net.finalisedBy action) :
    ∃ salt operation node p, action = .operate name salt operation ∧
      net.nodes[name]? = some node ∧
      node.propose ⟨net.notary.party, salt⟩ operation = .ok p ∧ t.content = p.content := by
  cases action with
  | start settings further => exact absurd h List.not_mem_nil
  | attach name blob => exact absurd h List.not_mem_nil
  | operate name salt operation =>
    unfold Network.finalisedBy at h
    simp only at h
    split at h
    · rename_i d hd
      obtain ⟨node, p, hnode, hp, rfl⟩ := Network.settlement?_eq_some_iff.mp hd
      obtain ⟨t, ht, heq⟩ := List.mem_map.mp h
      obtain ⟨rfl, rfl⟩ := Prod.mk.inj heq
      exact ⟨salt, operation, node, p, rfl, hnode, hp,
        Network.content_eq_of_mem_finalised Settling.ensures_settle ht⟩
    · exact absurd h List.not_mem_nil

end History

end Custody
