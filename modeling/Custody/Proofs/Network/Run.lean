import Custody.Network
import Custody.Proofs.Dialogue
import Custody.Proofs.Node.Integrity

/-!
# Going through a dialogue

Going through a dialogue changes a network in two ways only: a node advances, or the notary signs
and the node that asked records. So what both keep lasts through every dialogue. What is finalised
on the way is collected beside the run itself, step for step.
-/

namespace Custody.Network

variable {net : Network} {name other : String} {change : Node → Node}

/-! ### Changing one node -/

theorem getElem?_update :
    (net.update name change).nodes[other]? =
      if name = other then net.nodes[other]?.map change else net.nodes[other]? := by
  unfold update
  cases hnode : net.nodes[name]? with
  | none =>
    by_cases hsame : name = other
    · rw [← hsame, hnode]
      simp
    · simp [hsame]
  | some node =>
    change (net.nodes.insert name (change node))[other]? = _
    rw [Std.TreeMap.getElem?_insert]
    by_cases hsame : name = other
    · rw [← hsame, hnode]
      simp
    · simp [hsame]

theorem notary_update : (net.update name change).notary = net.notary := by
  unfold update
  cases net.nodes[name]? with
  | none => rfl
  | some node => rfl

variable [Cryptosystem] {known : Transaction → Prop}

/-- A new network has no nodes. -/
theorem getElem?_nodes_of_new {settings : NotarySettings} (h : new settings = .ok net) :
    net.nodes[name]? = none := by
  obtain ⟨seed, -, h⟩ := Outcome.bind_eq_ok_iff.mp h
  rw [← Outcome.pure_eq_ok_iff.mp h]
  exact Std.TreeMap.getElem?_emptyc

/-- A node that joins under a new name leaves the others and the notary as they are. -/
theorem exists_of_install {settings : NodeSettings} {further : List Seed} {joined : Network × Party}
    (hnew : settings.legalName ∉ net.nodes)
    (hinstall : net.install settings further = .ok joined) :
    ∃ seed, joined.1.notary = net.notary ∧ ∀ {name : String} {node : Node},
      joined.1.nodes[name]? = some node ↔
        name = settings.legalName ∧ node = Node.new settings seed further ∨
          net.nodes[name]? = some node := by
  obtain ⟨seed, -, hinstall⟩ := Outcome.bind_eq_ok_iff.mp hinstall
  rw [← Outcome.pure_eq_ok_iff.mp hinstall]
  refine ⟨seed, rfl, ?_⟩
  intro name node
  change (net.nodes.insert settings.legalName (Node.new settings seed further))[name]? = _ ↔ _
  rw [Std.TreeMap.getElem?_insert]
  by_cases hsame : settings.legalName = name
  · rw [hsame, Std.TreeMap.mem_iff_isSome_getElem?, Option.not_isSome_iff_eq_none] at hnew
    simp [hsame, hnew, eq_comm]
  · simp [hsame, Ne.symm hsame]

/-- Where one node advances, all do, or stay as they are. -/
theorem exists_advances_of_update
    (hchange : ∀ node, net.nodes[name]? = some node → node.Advances known (change node))
    {node : Node} (hnode : net.nodes[other]? = some node) :
    ∃ node', (net.update name change).nodes[other]? = some node' ∧ node.Advances known node' := by
  rw [getElem?_update, hnode]
  split
  · rename_i hsame
    rw [← hsame] at hnode
    exact ⟨change node, rfl, hchange node hnode⟩
  · exact ⟨node, rfl, .refl⟩

/-- Whatever a node has archived after one has advanced was archived there before or is known. -/
theorem stores_of_update
    (hchange : ∀ node, net.nodes[name]? = some node → node.Advances known (change node))
    {node' : Node} (hnode' : (net.update name change).nodes[other]? = some node')
    {t : Transaction} (ht : node'.ledger.archive.Stores t) :
    (∃ node, net.nodes[other]? = some node ∧ node.ledger.archive.Stores t) ∨ known t := by
  rw [getElem?_update] at hnode'
  split at hnode'
  · rename_i hsame
    obtain ⟨node, hnode, rfl⟩ := Option.map_eq_some_iff.mp hnode'
    exact ((hchange node (hsame ▸ hnode)).stores ht).imp_left fun hold ↦ ⟨node, hnode, hold⟩
  · exact .inl ⟨node', hnode', ht⟩

/-- An exchange changes nothing but that a node may advance, recording what the message hands
over. -/
theorem exchange_cases {party : Party} {peer : Peer} {m : Message} :
    (net.exchange party peer m).1 = net ∨ ∃ name change,
      (∀ node, Node.Advances (· ∈ m.transactions) node (change node)) ∧
        (net.exchange party peer m).1 = net.update name change := by
  cases peer with
  | scripted replies asked => exact .inl rfl
  | node name phase =>
  unfold exchange askNode
  simp only
  cases hframe : m.toFrame with
  | error e => exact .inl rfl
  | ok frame =>
  cases hnode : net.nodes[name]? with
  | none => exact .inl rfl
  | some node =>
    refine .inr ⟨name, fun n ↦ (n.respondToFrame phase frame).1,
      fun _ ↦ Node.advances_respondToFrame hframe fun _ ht ↦ ht, ?_⟩
    unfold update
    rw [hnode]
    simp only
    split
    · rfl
    · rfl

/-! ### Acceptance -/

/-- The node of a name is there and accepts a content. -/
def Accepts (net : Network) (name : String) (c : Content) : Prop :=
  ∃ node, net.nodes[name]? = some node ∧ node.judge c = .ok ()

theorem Accepts.update {c : Content} (h : net.Accepts name c)
    (hchange : ∀ node, net.nodes[other]? = some node → node.Advances known (change node)) :
    (net.update other change).Accepts name c := by
  obtain ⟨node, hnode, hjudge⟩ := h
  obtain ⟨node', hnode', hadvances⟩ := exists_advances_of_update hchange hnode
  exact ⟨node', hnode', Node.judge_mono hadvances.grows hjudge⟩

/-! ### From start to end -/

variable {α : Type} {promise : Transaction → Prop}

/-- What is finalised on the way when the node of a name goes through a dialogue, first to last. -/
def finalised (name : String) : Dialogue α → Network → List Peer → List Transaction
  | .done _, _, _ => []
  | .openSession party next, net, peers =>
    match net.connect? party with
    | some peer => finalised name (next (.ok ())) net (peers ++ [peer])
    | none => finalised name (next (.error (.peerNotFound party.name))) net peers
  | .exchange line m next, net, peers =>
    match peers[line.number]? with
    | none => finalised name (next (.error (.sessionClosed line.party.name))) net peers
    | some peer =>
      let (net, peer, answer) := net.exchange line.party peer m
      finalised name (next answer) net (peers.set line.number peer)
  | .finalise t next, net, peers =>
    match net.notary.notarise t with
    | .error error => finalised name (next (.error error)) net peers
    | .ok (notary, endorsement) =>
      let t := t.endorse endorsement
      t :: finalised name (next (.ok t)) ({ net with notary }.update name (·.record t)) peers

/-- What exchanges keep that hand over nothing unheard of, and finalisations that keep a promise,
lasts through a dialogue. -/
theorem run_invariant (invariant : Network → List Transaction → Prop)
    (hexchange : ∀ net ts party peer m, (∀ t ∈ m.transactions, known t ∨ t ∈ ts) →
      invariant net ts → invariant (net.exchange party peer m).1 ts)
    (hfinalise : ∀ net ts t notary endorsement, promise t →
      net.notary.notarise t = .ok (notary, endorsement) → invariant net ts →
      invariant ({ net with notary }.update name (·.record (t.endorse endorsement)))
        (ts ++ [t.endorse endorsement]))
    {d : Dialogue α} {known' : Transaction → Prop} {post : α → Prop} {peers : List Peer}
    {ts : List Transaction} (hkeeps : d.Keeps promise known' post)
    (hknown : ∀ t, known' t → known t ∨ t ∈ ts) (h : invariant net ts) :
    invariant (run name d net peers).1 (ts ++ finalised name d net peers) := by
  induction d generalizing net peers ts known' with
  | done a =>
    unfold run finalised
    rwa [List.append_nil]
  | openSession party next ih =>
    unfold run finalised
    cases net.connect? party with
    | none => exact ih _ (hkeeps _) hknown h
    | some peer => exact ih _ (hkeeps _) hknown h
  | exchange line m next ih =>
    unfold run finalised
    cases peers[line.number]? with
    | none => exact ih _ (hkeeps.2 _) hknown h
    | some peer =>
      have hhanded : ∀ t ∈ m.transactions, known t ∨ t ∈ ts := fun t ht ↦ hknown t (hkeeps.1 t ht)
      exact ih _ (hkeeps.2 _) hknown (hexchange net ts line.party peer m hhanded h)
  | finalise t next ih =>
    unfold run finalised
    cases hnotarise : net.notary.notarise t with
    | error e =>
      refine ih _ (hkeeps.2 _) ?_ h
      intro u hu
      rcases hu with hu | hu
      · exact hknown u hu
      · cases hu
    | ok signed =>
      have hnext := hfinalise net ts t signed.1 signed.2 hkeeps.1 hnotarise h
      simp only
      rw [List.append_cons]
      refine ih _ (hkeeps.2 _) ?_ hnext
      intro u hu
      rw [List.mem_append]
      rcases hu with hu | hu
      · exact (hknown u hu).imp_right .inl
      · exact .inr (.inr (List.mem_singleton.mpr (Except.ok.inj hu).symm))

/-- What comes up with one content is finalised with it. -/
theorem content_eq_of_mem_finalised {c : Content} {d : Dialogue α} {post : α → Prop}
    (hkeeps : d.Keeps (fun t ↦ t.content = c) known post) {peers : List Peer} {t : Transaction}
    (h : t ∈ finalised name d net peers) : t.content = c := by
  let invariant := fun (_ : Network) (ts : List Transaction) ↦ ∀ t ∈ ts, t.content = c
  have hstart : invariant net [] := fun _ ht ↦ absurd ht List.not_mem_nil
  suffices hall : invariant (run name d net peers).1 (finalised name d net peers) from hall t h
  refine run_invariant invariant ?_ ?_ hkeeps (fun _ ↦ .inl) hstart
  · exact fun _ _ _ _ _ _ hold ↦ hold
  · intro _ ts u _ e hcontent _ hold t ht
    rcases List.mem_append.mp ht with ht | ht
    · exact hold t ht
    · rw [List.mem_singleton.mp ht, Transaction.content_endorse, hcontent]

end Custody.Network
