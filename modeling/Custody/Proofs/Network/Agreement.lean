import Custody.Proofs.Network.Reached
import Custody.Proofs.Roster
import Custody.Proofs.Settlement

/-!
# Agreement on what has been settled

When an operation succeeds, everyone it was settled with has agreed to the outcome, and before it to
what it rests on. A node agrees only to what it then holds. So wherever the operations of others
have got to in the meantime, those who have stayed on the network hold the outcome with all its
ancestors. The record of what was agreed to runs beside the operation, and at every turn what stands
in it is true of the network. Whom an operation is settled with leaves out every key that the node
holds itself: the end of this file has an issuer that is not told of a request, as the requester's
node holds the same key.
-/

namespace Custody

/-! ### What stands in the record -/

/-- What has come of an operation of the node of a name, as far as the network shows: its sessions
lead to the nodes of the parties, and those who stay hold what they agreed to, as the node itself
holds what was finalised. -/
structure Told.Stands [Cryptosystem] (told : Told) (net : Network) (stay : String → Prop)
    (name : String) (peers : List Peer) : Prop where
  length_eq : peers.length = told.opened.length
  exists_phase : ∀ (number : Nat) (party : Party), told.opened[number]? = some party →
    ∃ phase, peers[number]? = some (.node party.name phase)
  agreed : ∀ (line : Line) (m : Message), (line, m) ∈ told.agreed →
    ∃ party, told.opened[line.number]? = some party ∧
      (stay party.name → ∀ t ∈ m.transactions, net.Holds party.name t.id)
  finalised : ∀ t ∈ told.finalised, t.content.id = t.id ∧ (stay name → net.Holds name t.id)

namespace Told.Stands

variable [Cryptosystem] {told : Told} {net net' : Network} {stay : String → Prop} {name : String}
  {peers : List Peer} {party : Party} {phase : Phase}

theorem start : none.Stands net stay name [] where
  length_eq := rfl
  exists_phase _ _ h := nomatch List.getElem?_nil.symm.trans h
  agreed _ _ h := absurd h List.not_mem_nil
  finalised _ h := absurd h List.not_mem_nil

theorem mono (h : told.Stands net stay name peers)
    (hholds : ∀ holder id, stay holder → net.Holds holder id → net'.Holds holder id) :
    told.Stands net' stay name peers := by
  refine ⟨h.length_eq, h.exists_phase, ?_, ?_⟩
  · intro line m hagreed
    obtain ⟨party, hparty, hheld⟩ := h.agreed line m hagreed
    exact ⟨party, hparty, fun hstay t ht ↦ hholds _ _ hstay (hheld hstay t ht)⟩
  · exact fun t ht ↦ (h.finalised t ht).imp_right fun hheld hstay ↦ hholds _ _ hstay (hheld hstay)

/-- A further session leads to a node. -/
theorem opens (h : told.Stands net stay name peers) :
    (told.opens party).Stands net stay name (peers ++ [.node party.name phase]) := by
  refine ⟨?_, ?_, ?_, h.finalised⟩
  · simp [Told.opens, h.length_eq]
  · intro number other hother
    rcases Rules.getElem?_concat_cases hother with ⟨rfl, rfl⟩ | hold
    · rw [← h.length_eq]
      exact ⟨phase, List.getElem?_concat_length⟩
    · obtain ⟨phase', hphase⟩ := h.exists_phase number other hold
      have hnumber := (List.getElem?_eq_some_iff.mp hphase).1
      exact ⟨phase', (List.getElem?_append_left hnumber).trans hphase⟩
  · intro line m hagreed
    obtain ⟨other, hother, hheld⟩ := h.agreed line m hagreed
    refine ⟨other, ?_, hheld⟩
    exact (List.getElem?_append_left (List.getElem?_eq_some_iff.mp hother).1).trans hother

/-- The node at the far end of a session answers. If it agrees, it holds what it was handed. -/
theorem answers (h : told.Stands net stay name peers) {line : Line} {m : Message}
    {answer : Except NetworkError Message} (hparty : told.opened[line.number]? = some party)
    (hack : answer = .ok .ack → ∀ t ∈ m.transactions, net.Holds party.name t.id) :
    (told.answers line m answer).Stands net stay name
      (peers.set line.number (.node party.name phase)) := by
  have hopened : (told.answers line m answer).opened = told.opened := Told.adds_answers.opened_eq
  have hpeers : ∀ (number : Nat) (other : Party), told.opened[number]? = some other →
      ∃ phase', (peers.set line.number (.node party.name phase))[number]? =
        some (.node other.name phase') := by
    intro number other hother
    obtain ⟨phase', hphase⟩ := h.exists_phase number other hother
    by_cases hsame : line.number = number
    · subst hsame
      obtain rfl := Option.some.inj (hparty.symm.trans hother)
      exact ⟨phase, List.getElem?_set_self (List.getElem?_eq_some_iff.mp hphase).1⟩
    · exact ⟨phase', (List.getElem?_set_ne hsame).trans hphase⟩
  refine ⟨?_, hopened ▸ hpeers, ?_, ?_⟩
  · rw [List.length_set, hopened, h.length_eq]
  · intro line' m' hagreed
    rw [hopened]
    unfold Told.answers at hagreed
    split at hagreed
    · rcases List.mem_cons.mp hagreed with heq | hold
      · obtain ⟨rfl, rfl⟩ := Prod.mk.inj heq
        exact ⟨party, hparty, fun _ ↦ hack rfl⟩
      · exact h.agreed line' m' hold
    · exact h.agreed line' m' hagreed
  · intro t ht
    unfold Told.answers at ht
    split at ht
    · exact h.finalised t ht
    · exact h.finalised t ht

theorem records (h : told.Stands net stay name peers) {t : Transaction}
    (hid : t.content.id = t.id) (hholds : net.Holds name t.id) :
    (told.records (.ok t)).Stands net stay name peers := by
  refine ⟨h.length_eq, h.exists_phase, h.agreed, ?_⟩
  intro u hu
  rcases List.mem_cons.mp hu with rfl | hold
  · exact ⟨hid, fun _ ↦ hholds⟩
  · exact h.finalised u hold

variable {α : Type} {post : α → Told → Prop} {s : Stage α}

/-- In a round the record goes on with the dialogue, and it still stands. -/
theorem round (h : told.Stands s.net stay name s.peers) (htells : s.rest.Tells told post)
    (hnet : s.net.Traceable) (hgrows : s.net.Grows (s.round name).1.net)
    (hthere : s.rest.isOver = false → ∃ node, s.net.nodes[name]? = some node) :
    ∃ told' : Told, told'.Stands (s.round name).1.net stay name (s.round name).1.peers ∧
      (s.round name).1.rest.Tells told' post := by
  have hmono := h.mono fun _ _ _ hholds ↦ hholds.mono hgrows
  obtain ⟨net, rest, peers⟩ := s
  unfold Stage.round at hmono ⊢
  cases rest with
  | done result => exact ⟨told, h, htells⟩
  | openSession party next =>
    simp only
    have hconnect : net.connect? party =
        if party.name ∈ net.nodes then some (.node party.name .awaitingRole) else .none := by
      unfold Network.connect?
      rw [hnet.unscripted]
    by_cases hlive : party.name ∈ net.nodes
    · rw [hconnect, if_pos hlive]
      exact ⟨told.opens party, h.opens, htells.1⟩
    · rw [hconnect, if_neg hlive]
      exact ⟨told, h, htells.2 _⟩
  | exchange line m next =>
    simp only at h hmono ⊢
    cases hpeer : peers[line.number]? with
    | none => exact ⟨told, h, htells (.error _)⟩
    | some peer =>
      rw [hpeer] at hmono
      have hnumber := (List.getElem?_eq_some_iff.mp hpeer).1
      rw [h.length_eq] at hnumber
      have hparty := List.getElem?_eq_getElem hnumber
      obtain ⟨phase, hphase⟩ := h.exists_phase _ _ hparty
      obtain rfl := Option.some.inj (hpeer.symm.trans hphase)
      exact ⟨_, hmono.answers hparty fun hack _ ht ↦ Network.holds_of_exchange hack ht, htells _⟩
  | finalise t next =>
    simp only at h hmono ⊢
    cases hnotarise : net.notary.notarise t with
    | error e => exact ⟨told, h, htells (.error e)⟩
    | ok signed =>
      rw [hnotarise] at hmono
      obtain ⟨node, hnode⟩ := hthere rfl
      refine ⟨_, hmono.records ?_ ⟨node.record (t.endorse signed.2), ?_, Node.mem_archive_record⟩,
        htells (.ok (t.endorse signed.2))⟩
      · rw [Transaction.content_endorse, Transaction.id_endorse]
        exact Notary.id_eq_of_notarise hnotarise
      · rw [Network.getElem?_update, if_pos rfl]
        exact congrArg (Option.map _) hnode

/-- Where everyone has agreed to a message, those who stay hold what it hands over. -/
theorem holds_of_allAgree (h : told.Stands net stay name peers) {m : Message}
    (hall : told.AllAgree m) (hparty : party ∈ told.opened) (hstay : stay party.name)
    {t : Transaction} (ht : t ∈ m.transactions) : net.Holds party.name t.id := by
  obtain ⟨number, hnumber⟩ := List.mem_iff_getElem?.mp hparty
  obtain ⟨other, hother, hheld⟩ := h.agreed _ m (hall number party hnumber)
  obtain rfl := Option.some.inj (hnumber.symm.trans hother)
  exact hheld hstay t ht

/-- The issuer of a request whose history is shared holds whatever produced what it was not known to
take part in, unless its key is held here. -/
theorem holds_source (h : told.Stands net stay name peers) {directory : Directory} {node : Node}
    {p : Proposal} {roster : Roster} {given : Handover} {t : Transaction}
    (hagreed : Settling.Agreed directory node p roster given t told)
    (hverified : node.ledger.archive.Verified) {stamp : Stamp} {terms : RequestTerms}
    (hp : node.propose stamp (.request terms true) = .ok p) (hissuer : terms.issuer ≠ node.party)
    (hparty : directory[terms.issuer.key]? = some party) (hother : party ≠ node.party)
    (howns : node.keyring.owns terms.issuer.key = false) (hstay : stay party.name) {r : OutputRef}
    (hr : r ∈ terms.entities) (hunknown : ¬ node.Knows terms r) :
    net.Holds party.name r.transaction := by
  obtain ⟨hdraft, -⟩ := Node.propose_eq_ok_iff.mp hp
  obtain ⟨hobservers, hhistory⟩ := Node.ends_draftRequest_shares hissuer p hdraft
  obtain ⟨source, hsource, hid⟩ :=
    Node.exists_mem_of_historyForIssuer hverified hhistory hr hunknown
  obtain ⟨endorsed, -, hgiven⟩ := hagreed.exists_handover
  obtain ⟨handed, hhanded, hsame⟩ := Node.exists_mem_of_handover hverified hgiven
    (List.mem_append_left _ (List.mem_map_of_mem hsource))
  -- The issuer is told of the request, so it has agreed to the history.
  have hkey : terms.issuer.key ∈ p.observers := hobservers ▸ List.mem_singleton_self _
  have hopened : party ∈ told.opened := by
    rw [hagreed.opened_eq]
    exact Roster.mem_counterparties_of_build hagreed.build_eq hkey howns hparty hother
  rw [← hid, ← hsame]
  exact h.holds_of_allAgree (hagreed.history (List.ne_nil_of_mem hhanded)) hopened hstay hhanded

end Told.Stands

/-! ### From beginning to end -/

/-- A name is that of the node whose operation it is, or of a party on the roster. -/
def Roster.Concerns (roster : Roster) (us holder : String) : Prop :=
  holder = us ∨ ∃ party ∈ roster.counterparties.map Prod.fst, party.name = holder

instance {roster : Roster} {us holder : String} : Decidable (roster.Concerns us holder) :=
  inferInstanceAs (Decidable (_ ∨ _))

namespace Scene

variable [Cryptosystem] {s s' : Scene} {stay : String → Prop} {name : String} {number : Nat}
  {post : Except OperationError Transaction → Told → Prop}

/-- The operation at a position is one of the node of a name, and a record of it stands. -/
def Tracks (s : Scene) (stay : String → Prop) (number : Nat) (name : String)
    (post : Except OperationError Transaction → Told → Prop) : Prop :=
  ∃ u told, s.underway[number]? = some u ∧ u.name = name ∧ told.Stands s.net stay name u.peers ∧
    u.rest.Tells told post

theorem underway_launch {salt : Block 32} {operation : Operation} {u : Underway}
    (hu : s.underway[number]? = some u) :
    (s.launch name salt operation).underway[number]? = some u := by
  unfold launch
  split
  · exact hu
  · split
    · exact hu
    · exact (List.getElem?_append_left (List.getElem?_eq_some_iff.mp hu).1).trans hu

/-- Whatever comes next, the record stands, or goes on with the operation. -/
theorem Tracks.next (h : s.Tracks stay number name post) (hs : s.Traceable)
    (hnext : s.Next stay s') : s'.Tracks stay number name post := by
  obtain ⟨u, told, hu, rfl, hstands, htells⟩ := h
  have hsame : s'.underway[number]? = some u → s'.Tracks stay number u.name post := fun hu' ↦
    ⟨u, told, hu', rfl, hstands.mono fun _ _ hstay ↦ hnext.holds hs hstay, htells⟩
  cases hnext with
  | turn turn =>
    cases turn with
    | start settings further => exact hsame hu
    | attach other blob => exact hsame hu
    | launch other salt operation => exact hsame (underway_launch hu)
    | resume other =>
      have hmem := List.mem_of_getElem? hu
      obtain ⟨known, hkeeps⟩ := hs.keeps u hmem
      by_cases hother : other = number
      · rw [hother]
        obtain ⟨told', hstands', htells'⟩ :=
          Told.Stands.round (s := ⟨s.net, u.rest, u.peers⟩) hstands htells hs.net
            (Stage.grows_round hkeeps) fun hopen ↦
              (hs.accepts u hmem hopen).imp fun _ hnode ↦ hnode.1
        have hnumber := (List.getElem?_eq_some_iff.mp hu).1
        unfold Tracks take resume
        simp only
        rw [hu]
        exact ⟨_, told', List.getElem?_set_self hnumber, rfl, hstands', htells'⟩
      · apply hsame
        unfold take resume
        simp only
        split
        · exact hu
        · exact (List.getElem?_set_ne hother).trans hu
  | hear other phase m => exact hsame hu
  | notarise h => exact hsame hu
  | drop hleaves hidle => exact hsame hu

theorem Tracks.follows (h : s.Tracks stay number name post) (hs : s.Traceable)
    (hfollows : Follows stay s s') : s'.Tracks stay number name post := by
  induction hfollows with
  | refl => exact h
  | tail hfollows hnext ih => exact ih.next (hs.follows hfollows) hnext

theorem follows_run {turns : List Turn} : Follows stay s (s.run turns) := by
  unfold run
  induction turns generalizing s with
  | nil => exact .refl
  | cons turn turns ih => exact .head (.turn turn) ih

/-- What a node has begun is tracked from there on. -/
theorem tracks_launch {salt : Block 32} {operation : Operation} {node : Node} {p : Proposal}
    (hnode : s.net.nodes[name]? = some node)
    (hp : node.propose ⟨s.net.notary.party, salt⟩ operation = .ok p) :
    (s.launch name salt operation).Tracks stay s.underway.length name fun outcome told ↦
      ∀ t, outcome = .ok t →
        ∃ roster given, Settling.Agreed s.net.directory node p roster given t told := by
  unfold launch
  rw [hnode]
  simp only
  rw [hp]
  exact ⟨_, .none, List.getElem?_concat_length, rfl, .start, Settling.tells_settle⟩

/-- However an operation got to its success next to others, those it concerns, as far as they have
stayed, back its outcome; unless contents among them clash, they have it archived as it is and list
the same ancestors; and if the history of a request was shared with an issuer on another node whose
key is not held here, the issuer backs whatever produced what it was not known to take part in. -/
theorem agreement_of_success (hs : s.Reached) {salt : Block 32} {operation : Operation}
    {node : Node} {p : Proposal} (hnode : s.net.nodes[name]? = some node)
    (hp : node.propose ⟨s.net.notary.party, salt⟩ operation = .ok p)
    (hfollows : Follows stay (s.launch name salt operation) s') {u : Underway} {stx : Transaction}
    (hu : s'.underway[s.underway.length]? = some u) (hdone : u.rest = .done (.ok stx)) :
    ∃ roster, Roster.build s.net.directory node.keyring node.party (Node.signersOf p.content)
        p.observers = .ok roster ∧
      let among := fun holder ↦ roster.Concerns name holder ∧ stay holder
      (∀ holder, among holder → s'.net.Backs holder stx.id) ∧
      (s'.net.Clash among stx.content ∨ ∃ ancestors, ∀ holder, among holder →
        ∃ n t, s'.net.nodes[holder]? = some n ∧ n.ledger.archive[stx.id]? = some t ∧
          t.content = stx.content ∧ n.ledger.archive.ancestors [stx.id] = .ok ancestors) ∧
      ∀ terms issuer, operation = .request terms true → terms.issuer ≠ node.party →
        s.net.directory[terms.issuer.key]? = some issuer → issuer ≠ node.party →
        node.keyring.owns terms.issuer.key = false → stay issuer.name →
        ∀ r ∈ terms.entities, ¬ node.Knows terms r → s'.net.Backs issuer.name r.transaction := by
  have hlaunched : (s.launch name salt operation).Traceable := hs.traceable.launch
  have hfinal := (hlaunched.follows hfollows).net
  have htracks : (s.launch name salt operation).Tracks stay s.underway.length name _ :=
    tracks_launch hnode hp
  obtain ⟨v, told, hv, -, hstands, htells⟩ := htracks.follows hlaunched hfollows
  obtain rfl := Option.some.inj (hu.symm.trans hv)
  rw [hdone] at htells
  obtain ⟨roster, given, hagreed⟩ := htells stx rfl
  obtain ⟨hid, hown⟩ := hstands.finalised stx hagreed.mem_finalised
  have hholds : ∀ holder, roster.Concerns name holder ∧ stay holder →
      s'.net.Holds holder stx.id := by
    rintro holder ⟨rfl | ⟨party, hparty, rfl⟩, hstay⟩
    · exact hown hstay
    · rw [← hagreed.opened_eq] at hparty
      exact hstands.holds_of_allAgree hagreed.finalised hparty hstay (List.mem_singleton_self stx)
  refine ⟨roster, hagreed.build_eq, fun holder hamong ↦ hfinal.backs (hholds holder hamong),
    hfinal.clash_or_ancestors hid hholds, ?_⟩
  rintro terms issuer rfl hissuer hparty hother howns hstay r hr hunknown
  have hverified := (hs.traceable.net.nodes name node hnode).verified
  exact hfinal.backs
    (hstands.holds_source hagreed hverified hp hissuer hparty hother howns hstay hr hunknown)

/-! ### A request with its history -/

omit [Cryptosystem]

namespace Shared

open History.Twice (salt party net output new_eq)

/-- A holder and an issuer, which may be given one key between them, and a third node to which the
holder issues an asset. -/
def setting (seed : Option String) : List Turn := [
  .start { legalName := "Holder", keySeed := seed } [],
  .start { legalName := "Issuer", keySeed := seed } [],
  .start { legalName := "Carol" } [],
  .launch "Holder" (salt 0) (.issue ⟨"Bond", [7]⟩ (party "Carol"))] ++
  List.replicate 4 (.resume 0)

def before (seed : Option String) : Scene := @run .clear (start net) (setting seed)

theorem reached_before {seed : Option String} : @Reached .clear (before seed) :=
  ⟨{}, net, new_eq, @follows_run .clear _ _ _⟩

/-- The holder asks the issuer to re-issue the asset. -/
def requests (s : Scene) (node : Node) : List RequestTerms :=
  (output s.toHistory 0 0).flatMap fun original ↦ s.net.nodes["Issuer"]?.toList.map fun issuer ↦
    ⟨issuer.party, node.party.key, [original.ref], "Issue", [], false⟩

def launched (s : Scene) (terms : RequestTerms) : Scene :=
  @launch .clear s "Holder" (salt 1) (.request terms true)

def after (s : Scene) (terms : RequestTerms) : Scene :=
  @run .clear (launched s terms) (List.replicate 5 (.resume s.underway.length))

/-- The issuer is another node that is known by its key, and is not known to take part in what is
asked for. -/
def IsElsewhere (s : Scene) (node : Node) (terms : RequestTerms) : Prop :=
  terms.issuer ≠ node.party ∧ s.net.directory[terms.issuer.key]? = some terms.issuer ∧
    terms.entities ≠ [] ∧ ∀ r ∈ terms.entities, ¬ node.Knows terms r

instance {s : Scene} {node : Node} {terms : RequestTerms} : Decidable (IsElsewhere s node terms) :=
  inferInstanceAs (Decidable (_ ∧ _))

/-- Whether the request succeeds and passes a test. -/
def succeeds (s : Scene) (test : Node → Proposal → RequestTerms → Bool) : Bool :=
  s.net.nodes["Holder"]?.any fun node ↦ (requests s node).any fun terms ↦
    match @Node.propose .clear node ⟨s.net.notary.party, salt 1⟩ (.request terms true) with
    | .error _ => false
    | .ok p => test node p terms && (after s terms).underway[s.underway.length]?.any fun u ↦
      match u.rest with
      | .done (.ok _) => true
      | _ => false

theorem exists_of_succeeds {s : Scene} {test : Node → Proposal → RequestTerms → Bool}
    (h : succeeds s test = true) :
    ∃ node terms p u stx, s.net.nodes["Holder"]? = some node ∧
      @Node.propose .clear node ⟨s.net.notary.party, salt 1⟩ (.request terms true) = .ok p ∧
      (after s terms).underway[s.underway.length]? = some u ∧ u.rest = .done (.ok stx) ∧
      test node p terms = true := by
  obtain ⟨node, hnode, h⟩ := (Option.any_eq_true _ _).mp h
  obtain ⟨terms, -, h⟩ := List.any_eq_true.mp h
  split at h
  · cases h
  · rename_i p hp
    obtain ⟨htest, h⟩ := Bool.and_eq_true_iff.mp h
    obtain ⟨u, hu, h⟩ := (Option.any_eq_true _ _).mp h
    split at h
    · rename_i stx hdone
      exact ⟨node, terms, p, u, stx, hnode, hp, hu, hdone, htest⟩
    · cases h

/-- With a key of its own, the issuer is told of the request and backs it along with the source of
the original. -/
theorem agreement_of_shared_request :
    ∃ node terms u stx, (before none).net.nodes["Holder"]? = some node ∧
      IsElsewhere (before none) node terms ∧
      (after (before none) terms).underway[(before none).underway.length]? = some u ∧
      u.rest = .done (.ok stx) ∧ (after (before none) terms).net.Backs "Issuer" stx.id ∧
      ∀ r ∈ terms.entities,
        (after (before none) terms).net.Backs terms.issuer.name r.transaction := by
  have h : succeeds (before none) (fun node p terms ↦
      decide (IsElsewhere (before none) node terms ∧
        node.keyring.owns terms.issuer.key = false) &&
      match Roster.build (before none).net.directory node.keyring node.party
        (Node.signersOf p.content) p.observers with
      | .error _ => false
      | .ok roster => decide (roster.Concerns "Holder" "Issuer")) = true := by
    decide +kernel
  obtain ⟨node, terms, p, u, stx, hnode, hp, hu, hdone, htest⟩ := exists_of_succeeds h
  obtain ⟨helsewhere, hconcerns⟩ := Bool.and_eq_true_iff.mp htest
  obtain ⟨hissuer, howns⟩ := of_decide_eq_true helsewhere
  obtain ⟨roster, hroster, hbacks, -, hsources⟩ :=
    @agreement_of_success .clear (before none) _ (fun _ ↦ True) "Holder" reached_before (salt 1) _
      node p hnode hp (@follows_run .clear _ _ _) u stx hu hdone
  rw [hroster] at hconcerns
  refine ⟨node, terms, u, stx, hnode, hissuer, hu, hdone, ?_, fun r hr ↦ ?_⟩
  · exact hbacks "Issuer" ⟨of_decide_eq_true hconcerns, trivial⟩
  · exact hsources terms terms.issuer rfl hissuer.1 hissuer.2.1 hissuer.1 howns trivial r hr
      (hissuer.2.2.2 r hr)

/-- With the key of the holder's node, the issuer is left out. -/
theorem not_backs_of_success :
    ¬ ∀ (s s' : Scene) name salt terms node u stx r, @Reached .clear s →
      s.net.nodes[name]? = some node →
      @Follows .clear (fun _ ↦ True) (@launch .clear s name salt (.request terms true)) s' →
      s'.underway[s.underway.length]? = some u → u.rest = .done (.ok stx) →
      terms.issuer ≠ node.party → s.net.directory[terms.issuer.key]? = some terms.issuer →
      r ∈ terms.entities → ¬ node.Knows terms r →
      s'.net.Backs terms.issuer.name r.transaction := by
  intro hbacks
  let seed := some "0b0b0b0b0b0b0b0b0b0b0b0b0b0b0b0b0b0b0b0b0b0b0b0b0b0b0b0b0b0b0b0b"
  have h : succeeds (before seed) (fun node _ terms ↦
      decide (IsElsewhere (before seed) node terms ∧ ∀ r ∈ terms.entities,
        ¬ (after (before seed) terms).net.Holds terms.issuer.name r.transaction)) = true := by
    decide +kernel
  obtain ⟨node, terms, p, u, stx, hnode, hp, hu, hdone, htest⟩ := exists_of_succeeds h
  obtain ⟨⟨hissuer, hknown, hsome, hunknown⟩, hlacks⟩ := of_decide_eq_true htest
  obtain ⟨r, hr⟩ := List.exists_mem_of_ne_nil _ hsome
  obtain ⟨issuer, hissuerNode, hbacked⟩ := hbacks (before seed) (after (before seed) terms) "Holder"
    (salt 1) terms node u stx r reached_before hnode (@follows_run .clear _ _ _) hu hdone hissuer
    hknown hr (hunknown r hr)
  exact hlacks r hr ⟨issuer, hissuerNode, hbacked.mem⟩

end Shared

end Scene

end Custody
