import Custody.Proofs.Network.ActiveLocks
import Custody.Proofs.Node.Backing

/-!
# Networks as they come about

Operations overlap, anyone may say anything to a node in any session, the notary decides about
whatever it is asked, and a node that has nothing under way may leave. However a network came about
in this way, each of its nodes can trace back what it holds, and as long as a node stays it lets go
of nothing.
-/

namespace Custody

/-! ### Who holds what -/

namespace Network

variable {net net' : Network} {name other : String} {change : Node → Node} {id : TransactionId}

/-- The node of a name has archived a transaction of an id. -/
def Holds (net : Network) (name : String) (id : TransactionId) : Prop :=
  ∃ node, net.nodes[name]? = some node ∧ id ∈ node.ledger.archive

instance : Decidable (net.Holds name id) :=
  decidable_of_iff ((net.nodes[name]?.any fun node ↦ id ∈ node.ledger.archive) = true) <| by
    simp [Holds, Option.any_eq_true]

theorem Holds.mono (h : net.Holds name id) (hgrows : net.Grows net') : net'.Holds name id := by
  obtain ⟨node, hnode, hid⟩ := h
  obtain ⟨node', hnode', hgrown⟩ := hgrows name node hnode
  exact ⟨node', hnode', hgrown.archive.mem hid⟩

/-- A node that leaves leaves the others as they are. -/
theorem getElem?_drop_of_ne (hother : name ≠ other) :
    (net.drop other).nodes[name]? = net.nodes[name]? := by
  change (net.nodes.erase other)[name]? = _
  rw [Std.TreeMap.getElem?_erase, if_neg (by simpa using hother.symm)]

theorem scripts_update : (net.update name change).scripts = net.scripts := by
  unfold update
  cases net.nodes[name]? with
  | none => rfl
  | some node => rfl

variable [Cryptosystem]

/-- A node that agrees to a message holds what the message hands over. -/
theorem holds_of_exchange {party : Party} {phase : Phase} {m : Message}
    (h : (net.exchange party (.node name phase) m).2.2 = .ok .ack) {t : Transaction}
    (ht : t ∈ m.transactions) : (net.exchange party (.node name phase) m).1.Holds name t.id := by
  unfold exchange askNode at h ⊢
  simp only at h ⊢
  cases hframe : m.toFrame with
  | error e =>
    rw [hframe] at h
    cases h
  | ok frame =>
  cases hnode : net.nodes[name]? with
  | none =>
    rw [hframe, hnode] at h
    cases h
  | some node =>
    rw [hframe, hnode] at h
    simp only at h ⊢
    cases hreply : (node.respondToFrame phase frame).2.2 with
    | none =>
      rw [hreply] at h
      cases h
    | some reply =>
      rw [hreply] at h
      have hack : Message.ofFrame reply = .ok .ack := Outcome.mapError_eq_ok_iff.mp h
      refine ⟨(node.respondToFrame phase frame).1, ?_,
        Node.mem_of_respondToFrame hframe hreply hack ht⟩
      exact Std.TreeMap.getElem?_insert_self

/-- What happens when a node is to be started: a node of a new name joins, or nothing. -/
theorem after_start_cases {settings : NodeSettings} {further : List Seed} :
    net.after (.start settings further) = net ∨
      ∃ party, settings.legalName ∉ net.nodes ∧
        net.install settings further = .ok (net.after (.start settings further), party) := by
  unfold after
  simp only
  split
  · exact .inl rfl
  · rename_i hnew
    split
    · rename_i party hinstall
      exact .inr ⟨party, hnew, hinstall⟩
    · exact .inl rfl

theorem scripts_of_install {settings : NodeSettings} {further : List Seed}
    {joined : Network × Party} (h : net.install settings further = .ok joined) :
    joined.1.scripts = net.scripts := by
  obtain ⟨seed, -, h⟩ := Outcome.bind_eq_ok_iff.mp h
  rw [← Outcome.pure_eq_ok_iff.mp h]

/-- Nobody's answers are scripted, and every node is traceable. -/
structure Traceable (net : Network) : Prop where
  unscripted : ∀ name : String, net.scripts[name]? = none
  nodes : ∀ (name : String) (node : Node), net.nodes[name]? = some node → node.Traceable

theorem traceable_new {settings : NotarySettings} (h : new settings = .ok net) :
    net.Traceable := by
  refine ⟨fun name ↦ ?_, fun name node hnode ↦ nomatch (getElem?_nodes_of_new h).symm.trans hnode⟩
  obtain ⟨seed, -, h⟩ := Outcome.bind_eq_ok_iff.mp h
  rw [← Outcome.pure_eq_ok_iff.mp h]
  exact Std.TreeMap.getElem?_emptyc

theorem Traceable.update (h : net.Traceable)
    (hchange : ∀ node, net.nodes[name]? = some node → (change node).Traceable) :
    (net.update name change).Traceable := by
  refine ⟨fun other ↦ ?_, ?_⟩
  · rw [scripts_update]
    exact h.unscripted other
  intro other node' hnode'
  rw [getElem?_update] at hnode'
  split at hnode'
  · rename_i hsame
    obtain ⟨node, hnode, rfl⟩ := Option.map_eq_some_iff.mp hnode'
    exact hchange node (hsame ▸ hnode)
  · exact h.nodes other node' hnode'

/-- When a node advances, nobody lets go of anything, and it stays traceable. -/
theorem Traceable.advance {known : Transaction → Prop} (h : net.Traceable)
    (hchange : ∀ node, Node.Advances known node (change node)) :
    net.Grows (net.update name change) ∧ (net.update name change).Traceable :=
  ⟨grows_update fun node _ ↦ (hchange node).grows,
    h.update fun node hnode ↦ (h.nodes name node hnode).advances (hchange node)⟩

theorem Traceable.attach (h : net.Traceable) {blob : Bytes} :
    net.Grows (net.update name (·.attach blob)) ∧ (net.update name (·.attach blob)).Traceable := by
  have hattach : ∀ node : Node, node.Advances (fun _ ↦ False) (node.attach blob) :=
    fun _ ↦ Node.Advances.refl.attach
  exact h.advance hattach

theorem Traceable.hear (h : net.Traceable) {phase : Phase} {m : Message} :
    net.Grows (net.update name fun node ↦ (node.respond phase m).1) ∧
      (net.update name fun node ↦ (node.respond phase m).1).Traceable := by
  have hanswers : ∀ node, Node.Advances (· ∈ m.transactions) node (node.respond phase m).1 :=
    fun _ ↦ Node.advances_respond fun _ ht ↦ ht
  exact h.advance hanswers

/-- The node of a name backs a transaction. -/
def Backs (net : Network) (name : String) (id : TransactionId) : Prop :=
  ∃ node, net.nodes[name]? = some node ∧ node.Backs id

theorem Traceable.backs (h : net.Traceable) (hholds : net.Holds name id) : net.Backs name id := by
  obtain ⟨node, hnode, hid⟩ := hholds
  exact ⟨node, hnode, (h.nodes name node hnode).backs hid⟩

/-- One of the nodes of some names has archived a content. -/
def Archives (net : Network) (among : String → Prop) (c : Content) : Prop :=
  ∃ name node t, among name ∧ net.nodes[name]? = some node ∧ node.ledger.archive.Stores t ∧
    t.content = c

/-- Nodes that hold a transaction list the same ancestors, if no two contents that they have
archived share an id. -/
theorem Traceable.exists_ancestors (h : net.Traceable) {among : String → Prop}
    (hholds : ∀ name, among name → net.Holds name id)
    (hunique : ∀ c d, net.Archives among c → net.Archives among d → c.id = d.id → c = d) :
    ∃ ancestors, ∀ name, among name → ∃ node, net.nodes[name]? = some node ∧
      node.ledger.archive.ancestors [id] = .ok ancestors := by
  by_cases hsome : ∃ first, among first
  · obtain ⟨first, hfirst⟩ := hsome
    obtain ⟨node, hnode, hid⟩ := hholds first hfirst
    obtain ⟨ancestors, hancestors, -⟩ := ((h.nodes first node hnode).backs hid).exists_ancestors
    refine ⟨ancestors, fun name hname ↦ ?_⟩
    obtain ⟨node', hnode', hid'⟩ := hholds name hname
    have htraceable := h.nodes first node hnode
    have htraceable' := h.nodes name node' hnode'
    obtain ⟨ancestors', hancestors', -⟩ := (htraceable'.backs hid').exists_ancestors
    have hagrees : node.ledger.archive.Agrees node'.ledger.archive := by
      intro id t t' ht ht'
      apply hunique _ _ ⟨first, node, t, hfirst, hnode, ⟨id, ht⟩, rfl⟩
        ⟨name, node', t', hname, hnode', ⟨id, ht'⟩, rfl⟩
      rw [htraceable.content_id_eq id t ht, htraceable'.content_id_eq id t' ht']
    have hsame := htraceable.ancestors_eq htraceable' hagrees hid hid' hancestors hancestors'
    exact ⟨node', hnode', hsame ▸ hancestors'⟩
  · exact ⟨[], fun name hname ↦ absurd ⟨name, hname⟩ hsome⟩

/-- Two different contents of one id, each of them a given one or archived by one of the nodes of
some names. -/
def Clash (net : Network) (among : String → Prop) (given : Content) : Prop :=
  ∃ c d : Content, c ≠ d ∧ c.id = d.id ∧ ∀ e ∈ [c, d], e = given ∨ net.Archives among e

/-- Unless contents clash, nodes that hold a transaction hold the same and list the same
ancestors. -/
theorem Traceable.clash_or_ancestors (h : net.Traceable) {among : String → Prop} {t : Transaction}
    (hid : t.content.id = t.id) (hholds : ∀ name, among name → net.Holds name t.id) :
    net.Clash among t.content ∨ ∃ ancestors, ∀ name, among name →
      ∃ node u, net.nodes[name]? = some node ∧ node.ledger.archive[t.id]? = some u ∧
        u.content = t.content ∧ node.ledger.archive.ancestors [t.id] = .ok ancestors := by
  by_cases hunique : ∀ c d : Content, c = t.content ∨ net.Archives among c →
      d = t.content ∨ net.Archives among d → c.id = d.id → c = d
  · obtain ⟨ancestors, hancestors⟩ :=
      h.exists_ancestors hholds fun c d hc hd ↦ hunique c d (.inr hc) (.inr hd)
    refine .inr ⟨ancestors, fun name hamong ↦ ?_⟩
    obtain ⟨node, hnode, hlisted⟩ := hancestors name hamong
    obtain ⟨holder, hholder, hheld⟩ := hholds name hamong
    obtain rfl := Option.some.inj (hnode.symm.trans hholder)
    rw [Std.TreeMap.mem_iff_isSome_getElem?] at hheld
    obtain ⟨u, hu⟩ := Option.isSome_iff_exists.mp hheld
    have harchived : net.Archives among u.content := ⟨name, node, u, hamong, hnode, ⟨_, hu⟩, rfl⟩
    have hsame : u.content.id = t.content.id :=
      ((h.nodes name node hnode).content_id_eq _ u hu).trans hid.symm
    exact ⟨node, u, hnode, hu, hunique _ _ (.inr harchived) (.inl rfl) hsame, hlisted⟩
  · push Not at hunique
    obtain ⟨c, d, hc, hd, hsame, hne⟩ := hunique
    exact .inl ⟨c, d, hne, hsame, List.forall_mem_cons.mpr ⟨hc, List.forall_mem_singleton.mpr hd⟩⟩

theorem Traceable.drop (h : net.Traceable) : (net.drop name).Traceable := by
  refine ⟨h.unscripted, ?_⟩
  intro other node hnode
  change (net.nodes.erase name)[other]? = some node at hnode
  rw [Std.TreeMap.getElem?_erase] at hnode
  split at hnode
  · cases hnode
  · exact h.nodes other node hnode

/-- Whoever is there lets go of nothing when a node is started, and what joins is traceable. -/
theorem Traceable.start (h : net.Traceable) {settings : NodeSettings} {further : List Seed} :
    net.Grows (net.after (.start settings further)) ∧
      (net.after (.start settings further)).Traceable := by
  rcases @after_start_cases net _ settings further with hsame | ⟨party, hnew, hinstall⟩
  · rw [hsame]
    exact ⟨.refl, h⟩
  · obtain ⟨seed, -, hnodes⟩ := exists_of_install hnew hinstall
    refine ⟨fun name node hnode ↦ ⟨node, hnodes.mpr (.inr hnode), .refl⟩, ?_, ?_⟩
    · exact fun name ↦ scripts_of_install hinstall ▸ h.unscripted name
    · intro name node hnode
      rcases hnodes.mp hnode with ⟨-, rfl⟩ | hold
      · exact Node.traceable_new
      · exact h.nodes name node hold

end Network

/-! ### Rounds -/

section Rounds

variable [Cryptosystem] {α : Type} {name : String} {s : Stage α} {known : Transaction → Prop}
  {c : Content} {post : α → Prop}

/-- In a round of an operation nobody lets go of anything. -/
theorem Stage.grows_round (hkeeps : s.rest.Keeps (fun t ↦ t.content = c) known post) :
    s.net.Grows (s.round name).1.net := by
  obtain ⟨-, ⟨-, hnet⟩ | ⟨t, notary, e, -, -, -, hnet⟩⟩ :=
    @Stage.round_cases _ _ name s _ _ _ hkeeps
  · rcases hnet with hnet | ⟨other, change, handed, hchange, -, hnet⟩
    · rw [hnet]
      exact .refl
    · rw [hnet]
      exact Network.grows_update fun node _ ↦ (hchange node).grows
  · rw [hnet]
    have hgrows : ({ s.net with notary } : Network).Grows
        (({ s.net with notary } : Network).update name (·.record (t.endorse e))) :=
      Network.grows_update fun _ _ ↦ Node.grows_record
    exact hgrows

/-- A node that accepts what is finalised for it stays traceable. -/
theorem Stage.traceable_round (hkeeps : s.rest.Keeps (fun t ↦ t.content = c) known post)
    (htraceable : s.net.Traceable) (haccepts : s.rest.isOver = false → s.net.Accepts name c) :
    (s.round name).1.net.Traceable := by
  have hopen := @Stage.isOver_eq_false_of_mem _ _ name s
  obtain ⟨-, ⟨-, hnet⟩ | ⟨t, notary, e, hcontent, hnotarise, hts, hnet⟩⟩ :=
    @Stage.round_cases _ _ name s _ _ _ hkeeps
  · rcases hnet with hnet | ⟨other, change, handed, hchange, -, hnet⟩
    · rw [hnet]
      exact htraceable
    · rw [hnet]
      exact (htraceable.advance hchange).2
  · rw [hts] at hopen
    obtain ⟨judge, hjudge, haccepted⟩ := haccepts (hopen List.mem_cons_self)
    rw [hnet]
    have hsigned : ({ s.net with notary } : Network).Traceable :=
      ⟨htraceable.unscripted, htraceable.nodes⟩
    refine hsigned.update fun node hnode ↦ ?_
    obtain rfl := Option.some.inj (hjudge.symm.trans hnode)
    apply Node.lasts_traceable.record (htraceable.nodes name judge hjudge)
    · rw [Transaction.content_endorse, Transaction.id_endorse]
      exact Notary.id_eq_of_notarise hnotarise
    · rw [Transaction.content_endorse, hcontent]
      exact haccepted

end Rounds

/-! ### Scenes and who stays -/

namespace Scene

variable [Cryptosystem] {s s' : Scene} {stay : String → Prop} {name : String} {id : TransactionId}

/-- What may happen while the nodes of some names stay: a turn; anyone says something to a node, in
whatever session; the notary decides about whatever it is asked to sign; or another node leaves that
has nothing under way. -/
inductive Next (stay : String → Prop) (s : Scene) : Scene → Prop
  | turn (turn : Turn) : Next stay s (s.take turn)
  | hear (name : String) (phase : Phase) (m : Message) :
      Next stay s { s with net := s.net.update name fun node ↦ (node.respond phase m).1 }
  | notarise {t : Transaction} {notary : Notary} {e : Endorsement}
      (h : s.net.notary.notarise t = .ok (notary, e)) :
      Next stay s { s with net := { s.net with notary } }
  | drop {name : String} (hleaves : ¬ stay name)
      (hidle : ∀ u ∈ s.underway, u.name = name → u.rest.isOver = true) :
      Next stay s { s with net := s.net.drop name }

/-- One scene comes after another, with the nodes of some names staying throughout. -/
abbrev Follows (stay : String → Prop) : Scene → Scene → Prop :=
  Relation.ReflTransGen (Next stay)

/-- A scene that a new network may come to, where nodes may leave whenever they are idle. -/
def Reached (s : Scene) : Prop :=
  ∃ settings net, Network.new settings = .ok net ∧ Follows (fun _ ↦ False) (start net) s

/-- The network is traceable, an operation under way is about one content, and its node is there and
accepts it. -/
structure Traceable (s : Scene) : Prop where
  net : s.net.Traceable
  keeps : ∀ u ∈ s.underway, ∃ known,
    u.rest.Keeps (fun t ↦ t.content = u.content) known fun _ ↦ True
  accepts : ∀ u ∈ s.underway, u.rest.isOver = false → s.net.Accepts u.name u.content

namespace Traceable

/-- What is done next to the operations under way leaves them as they are. -/
theorem grow (hs : s.Traceable) {net : Network} (hnet : net.Traceable) (hgrows : s.net.Grows net) :
    Traceable { s with net } :=
  ⟨hnet, hs.keeps, fun u hu hopen ↦ (hs.accepts u hu hopen).mono hgrows⟩

/-- In a turn nobody lets go of anything, and every node stays traceable. -/
theorem grows_take (hs : s.Traceable) (turn : Turn) :
    s.net.Grows (s.take turn).net ∧ (s.take turn).net.Traceable := by
  cases turn with
  | start settings further => exact hs.net.start
  | attach name blob => exact hs.net.attach
  | launch name salt operation =>
    unfold take launch
    simp only
    split
    · exact ⟨.refl, hs.net⟩
    · split
      · exact ⟨.refl, hs.net⟩
      · exact ⟨.refl, hs.net⟩
  | resume number =>
    unfold take resume
    simp only
    split
    · exact ⟨.refl, hs.net⟩
    · rename_i u hu
      have hmem := List.mem_of_getElem? hu
      obtain ⟨known, hkeeps⟩ := hs.keeps u hmem
      exact ⟨Stage.grows_round (s := ⟨s.net, u.rest, u.peers⟩) hkeeps,
        Stage.traceable_round (s := ⟨s.net, u.rest, u.peers⟩) hkeeps hs.net (hs.accepts u hmem)⟩

theorem launch (hs : s.Traceable) {salt : Block 32} {operation : Operation} :
    (s.launch name salt operation).Traceable := by
  unfold Scene.launch
  cases hnode : s.net.nodes[name]? with
  | none => exact hs
  | some node =>
  simp only
  cases hp : node.propose ⟨s.net.notary.party, salt⟩ operation with
  | error e => exact hs
  | ok p =>
  refine ⟨hs.net, ?_, ?_⟩
  · intro u hu
    rcases List.mem_append.mp hu with hold | hnew
    · exact hs.keeps u hold
    · rw [List.mem_singleton.mp hnew]
      exact ⟨_, Dialogue.Keeps.mono Settling.ensures_settle (fun _ ht ↦ ht) fun _ _ ↦ trivial⟩
  · intro u hu hopen
    rcases List.mem_append.mp hu with hold | hnew
    · exact hs.accepts u hold hopen
    · rw [List.mem_singleton.mp hnew]
      exact ⟨node, hnode, (Node.takes_of_propose hp).judge_eq⟩

theorem resume (hs : s.Traceable) (number : Nat) : (s.resume number).Traceable := by
  obtain ⟨hgrows, hnet⟩ := hs.grows_take (.resume number)
  change s.net.Grows (s.resume number).net at hgrows
  change (s.resume number).net.Traceable at hnet
  unfold Scene.resume at hgrows hnet ⊢
  cases hu : s.underway[number]? with
  | none => exact hs
  | some u =>
  rw [hu] at hgrows hnet
  have hmem := List.mem_of_getElem? hu
  refine ⟨hnet, ?_, ?_⟩
  · intro v hv
    rcases List.mem_or_eq_of_mem_set hv with hold | rfl
    · exact hs.keeps v hold
    · obtain ⟨known, hkeeps⟩ := hs.keeps u hmem
      obtain ⟨⟨known', -, hkeeps'⟩, -⟩ :=
        @Stage.round_cases _ _ u.name ⟨s.net, u.rest, u.peers⟩ _ _ _ hkeeps
      exact ⟨known', hkeeps'⟩
  · intro v hv hopen
    rcases List.mem_or_eq_of_mem_set hv with hold | rfl
    · exact (hs.accepts v hold hopen).mono hgrows
    · exact (hs.accepts u hmem (Stage.isOver_eq_false_of_round hopen)).mono hgrows

theorem next (hs : s.Traceable) (hnext : s.Next stay s') : s'.Traceable := by
  cases hnext with
  | turn turn =>
    cases turn with
    | start settings further => exact hs.grow hs.net.start.2 hs.net.start.1
    | attach name blob => exact hs.grow hs.net.attach.2 hs.net.attach.1
    | launch name salt operation => exact hs.launch
    | resume number => exact hs.resume number
  | hear name phase m => exact hs.grow hs.net.hear.2 hs.net.hear.1
  | notarise h => exact hs.grow ⟨hs.net.unscripted, hs.net.nodes⟩ .refl
  | @drop other hleaves hidle =>
    refine ⟨hs.net.drop, hs.keeps, fun u hu hopen ↦ ?_⟩
    obtain ⟨node, hnode, hjudge⟩ := hs.accepts u hu hopen
    have hother : u.name ≠ other := fun hsame ↦ nomatch hopen.symm.trans (hidle u hu hsame)
    exact ⟨node, (Network.getElem?_drop_of_ne hother).trans hnode, hjudge⟩

theorem follows (hs : s.Traceable) (hfollows : Follows stay s s') : s'.Traceable := by
  induction hfollows with
  | refl => exact hs
  | tail _ hnext ih => exact ih.next hnext

end Traceable

theorem Reached.traceable (h : s.Reached) : s.Traceable := by
  obtain ⟨settings, net, hnew, hfollows⟩ := h
  have hstart : (start net).Traceable :=
    ⟨Network.traceable_new hnew, fun _ hu ↦ absurd hu List.not_mem_nil,
      fun _ hu ↦ absurd hu List.not_mem_nil⟩
  exact hstart.follows hfollows

/-- Whoever stays lets go of nothing. -/
theorem Next.holds (hnext : s.Next stay s') (hs : s.Traceable) (hstay : stay name)
    (hholds : s.net.Holds name id) : s'.net.Holds name id := by
  cases hnext with
  | turn turn => exact hholds.mono (hs.grows_take turn).1
  | hear other phase m => exact hholds.mono hs.net.hear.1
  | notarise h => exact hholds
  | @drop other hleaves hidle =>
    obtain ⟨node, hnode, hid⟩ := hholds
    have hother : name ≠ other := by
      rintro rfl
      exact hleaves hstay
    exact ⟨node, (Network.getElem?_drop_of_ne hother).trans hnode, hid⟩

end Scene

end Custody
