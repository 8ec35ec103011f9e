import Custody.Proofs.Network.Run
import Custody.Proofs.Node.Backing

/-!
# What an operation leaves behind

An operation that fails before its transaction is notarised leaves the notary and the node's ledger
as they were, whatever has been said and answered. One that succeeds has had one transaction
notarised and recorded, and nothing else. The transaction is recorded before it is handed out,
however, and nothing is undone when handing it out fails: then the operation fails although its
transaction stands.
-/

namespace Custody

/-- Something said in a session, with the answer. -/
structure Remark where
  line : Line
  message : Message
  answer : Except NetworkError Message

/-- What an operation has to do with: the notary, the ledger of the node, and whatever has been said
so far, last first. -/
structure Standing where
  notary : Notary
  ledger : Ledger
  said : List Remark

namespace Standing

variable {s s' s'' : Standing}

def hear (s : Standing) (remark : Remark) : Standing := { s with said := remark :: s.said }

/-- A transaction is recorded by leave of the notary. -/
def record (s : Standing) (notary : Notary) (t : Transaction) : Standing :=
  { s with notary, ledger := (s.ledger.record t).1 }

/-- Whatever has been said, notary and ledger are as they were. -/
structure Same (s s' : Standing) : Prop where
  notary_eq : s'.notary = s.notary
  ledger_eq : s'.ledger = s.ledger

theorem Same.refl : s.Same s := ⟨rfl, rfl⟩

theorem Same.trans (h : s.Same s') (h' : s'.Same s'') : s.Same s'' :=
  ⟨h'.notary_eq.trans h.notary_eq, h'.ledger_eq.trans h.ledger_eq⟩

theorem same_hear {remark : Remark} : s.Same (s.hear remark) := ⟨rfl, rfl⟩

end Standing

/-! ### Dialogues and where they lead -/

namespace Dialogue

variable [Cryptosystem] {α β : Type} {s : Standing} {known : Transaction → Prop}

/-- Whatever the answers are, nothing is handed over that is not archived, and the dialogue leads to
a result and a standing as said. Finalisation is up to the notary. -/
def Leads : Dialogue α → Standing → (α → Standing → Prop) → Prop
  | done a, s, post => post a s
  | openSession _ next, s, post => ∀ answer, (next answer).Leads s post
  | exchange line m next, s, post =>
    (∀ t ∈ m.transactions, t.id ∈ s.ledger.archive) ∧
      ∀ answer, (next answer).Leads (s.hear ⟨line, m, answer⟩) post
  | finalise t next, s, post =>
    match s.notary.notarise t with
    | .error e => (next (.error e)).Leads s post
    | .ok (notary, e) => (next (.ok (t.endorse e))).Leads (s.record notary (t.endorse e)) post

theorem Leads.bind {d : Dialogue α} {f : α → Dialogue β} {mid : α → Standing → Prop}
    {post : β → Standing → Prop} (h : d.Leads s mid)
    (hf : ∀ a s, mid a s → (f a).Leads s post) : (d >>= f).Leads s post := by
  change (d.bind f).Leads s post
  induction d generalizing s with
  | done a => exact hf a s h
  | openSession party next ih => exact fun answer ↦ ih answer (h answer)
  | exchange line m next ih => exact ⟨h.1, fun answer ↦ ih answer (h.2 answer)⟩
  | finalise t next ih =>
    unfold Dialogue.bind Leads
    unfold Leads at h
    split
    · rename_i hnotarise
      rw [hnotarise] at h
      exact ih _ h
    · rename_i hnotarise
      rw [hnotarise] at h
      exact ih _ h

/-- A dialogue that finalises nothing leaves notary and ledger the same. -/
theorem Keeps.leads {d : Dialogue α} {post : α → Prop}
    (h : d.Keeps (fun _ ↦ False) known post) (hknown : ∀ t, known t → t.id ∈ s.ledger.archive) :
    d.Leads s fun a s' ↦ post a ∧ s.Same s' := by
  suffices hfrom : ∀ s', s.Same s' → d.Leads s' fun a s'' ↦ post a ∧ s.Same s'' from
    hfrom s .refl
  intro s' hsame
  induction d generalizing s' with
  | done a => exact ⟨h, hsame⟩
  | openSession party next ih => exact fun answer ↦ ih answer (h answer) s' hsame
  | exchange line m next ih =>
    refine ⟨fun t ht ↦ ?_, fun answer ↦ ?_⟩
    · rw [hsame.ledger_eq]
      exact hknown t (h.1 t ht)
    · exact ih answer (h.2 answer) _ (hsame.trans Standing.same_hear)
  | finalise t next ih => exact h.1.elim

end Dialogue

namespace Settling

variable [Cryptosystem] {α β : Type} {s s' : Standing} {known : Transaction → Prop}

/-- As `Dialogue.Leads`, for settling, which may fail. -/
abbrev Leads (m : Settling α) (s : Standing) (post : Except OperationError α → Standing → Prop) :
    Prop :=
  m.run.Leads s post

theorem Leads.bind {m : Settling α} {f : α → Settling β}
    {mid : Except OperationError α → Standing → Prop}
    {post : Except OperationError β → Standing → Prop} (h : Leads m s mid)
    (herror : ∀ e s', mid (.error e) s' → post (.error e) s')
    (hf : ∀ a s', mid (.ok a) s' → Leads (f a) s' post) : Leads (m >>= f) s post := by
  unfold Leads
  rw [ExceptT.run_bind]
  apply Dialogue.Leads.bind h
  intro outcome s' hmid
  cases outcome with
  | error e => exact herror e s' hmid
  | ok a => exact hf a s' hmid

/-- What finalises nothing leaves everything the same, also where it fails. -/
theorem leads_bind_of_ensures {m : Settling α} {f : α → Settling β} {mid : α → Prop}
    {post : Except OperationError β → Standing → Prop} (hsame : s.Same s')
    (h : Ensures (fun _ ↦ False) known m mid) (hknown : ∀ t, known t → t.id ∈ s.ledger.archive)
    (herror : ∀ e s', s.Same s' → post (.error e) s')
    (hf : ∀ a s', mid a → s.Same s' → Leads (f a) s' post) : Leads (m >>= f) s' post := by
  have hknown' : ∀ t, known t → t.id ∈ s'.ledger.archive := by rwa [hsame.ledger_eq]
  apply Leads.bind (Dialogue.Keeps.leads h hknown')
  · rintro e s'' ⟨-, hsame'⟩
    exact herror e s'' (hsame.trans hsame')
  · rintro a s'' ⟨hmid, hsame'⟩
    exact hf a s'' (hmid a rfl) (hsame.trans hsame')

/-- The last thing said is a message that was not agreed to, and that is the error. -/
def FailsAt (s : Standing) (m : Message) (e : OperationError) : Prop :=
  ∃ line answer, s.said.head? = some ⟨line, m, answer⟩ ∧
    (answer.bind (Message.expectAck line.party.name)).mapError OperationError.ofNetwork = .error e

theorem leads_askForAck {line : Line} {m : Message}
    (hm : ∀ t ∈ m.transactions, t.id ∈ s.ledger.archive) :
    Leads (askForAck line m) s fun outcome s' ↦
      s.Same s' ∧ ∀ e, outcome = .error e → FailsAt s' m e :=
  ⟨hm, fun answer ↦ ⟨Standing.same_hear, fun _ he ↦ ⟨line, answer, rfl, he⟩⟩⟩

/-- Telling everyone changes nothing, and ends with the first who does not agree. -/
theorem leads_forM_askForAck {sessions : List OpenSession} {m : Message}
    (hm : ∀ t ∈ m.transactions, t.id ∈ s.ledger.archive) :
    Leads (sessions.forM fun x ↦ askForAck x.line m) s fun outcome s' ↦
      s.Same s' ∧ ∀ e, outcome = .error e → FailsAt s' m e := by
  suffices hfrom : ∀ s', s.Same s' →
      Leads (sessions.forM fun x ↦ askForAck x.line m) s' fun outcome s'' ↦
        s.Same s'' ∧ ∀ e, outcome = .error e → FailsAt s'' m e from hfrom s .refl
  induction sessions with
  | nil => exact fun s' hsame ↦ ⟨hsame, nofun⟩
  | cons x sessions ih =>
    intro s' hsame
    change Leads (askForAck x.line m >>= fun _ ↦ sessions.forM fun x ↦ askForAck x.line m) s' _
    apply (leads_askForAck (hsame.ledger_eq ▸ hm)).bind
    · rintro e s'' ⟨hsame', hfails⟩
      refine ⟨hsame.trans hsame', fun e' he ↦ ?_⟩
      rw [← Except.error.inj he]
      exact hfails e rfl
    · rintro _ s'' ⟨hsame', -⟩
      exact ih s'' (hsame.trans hsame')

end Settling

/-! ### Settling a proposal -/

namespace Standing

variable [Cryptosystem] {s s' s'' : Standing} {c : Content} {t : Transaction}

/-- A transaction of a content has been notarised and recorded, and that is all. -/
structure Finalises (s : Standing) (c : Content) (t : Transaction) (s' : Standing) : Prop where
  exists_notarise : ∃ u e, u.content = c ∧ s.notary.notarise u = .ok (s'.notary, e) ∧
    t = u.endorse e
  ledger_eq : s'.ledger = (s.ledger.record t).1

theorem Same.finalises (hsame : s.Same s') (h : s'.Finalises c t s'') : s.Finalises c t s'' :=
  ⟨hsame.notary_eq ▸ h.exists_notarise, hsame.ledger_eq ▸ h.ledger_eq⟩

theorem Finalises.same (h : s.Finalises c t s') (hsame : s'.Same s'') : s.Finalises c t s'' := by
  refine ⟨?_, hsame.ledger_eq.trans h.ledger_eq⟩
  rw [hsame.notary_eq]
  exact h.exists_notarise

/-- What an operation that proposes a content may leave behind. -/
inductive Leaves (s : Standing) (proposes : Content → Prop) :
    Except OperationError Transaction → Standing → Prop
  | unchanged {e : OperationError} {s' : Standing} (h : s.Same s') :
      Leaves s proposes (.error e) s'
  | settled {c : Content} {t : Transaction} {s' : Standing} (hc : proposes c)
      (h : s.Finalises c t s') : Leaves s proposes (.ok t) s'
  /-- The transaction stands, but handing it out has failed. -/
  | undelivered {c : Content} {t : Transaction} {e : OperationError} {s' : Standing}
      (hc : proposes c) (h : s.Finalises c t s') (hfails : Settling.FailsAt s' (.finalised t) e) :
      Leaves s proposes (.error e) s'

end Standing

namespace Settling

variable [Cryptosystem] {s : Standing}

/-- The notary decides, and what it signs is recorded at once. -/
theorem leads_finalise {t : Transaction} :
    Leads (finalise t) s fun outcome s' ↦ (∀ e, outcome = .error e → s.Same s') ∧
      ∀ u, outcome = .ok u → s.Finalises t.content u s' := by
  unfold finalise Leads ExceptT.run ExceptT.mk Dialogue.Leads
  split
  · exact ⟨fun _ _ ↦ .refl, nofun⟩
  · rename_i notary e hnotarise
    refine ⟨nofun, fun u hu ↦ ?_⟩
    rw [← Except.ok.inj hu]
    exact ⟨⟨t, e, rfl, hnotarise, rfl⟩, rfl⟩

theorem leads_settle {directory : Directory} {n : Node} {p : Proposal}
    {proposes : Content → Prop} (hledger : s.ledger = n.ledger)
    (hkeyed : n.ledger.archive.Keyed) (hproposes : proposes p.content) :
    Leads (settle directory n p) s (s.Leaves proposes) := by
  have hknown : ∀ t, n.ledger.archive.Stores t → t.id ∈ s.ledger.archive := by
    rintro t ⟨id, ht⟩
    rw [hledger, hkeyed id t ht, Std.TreeMap.mem_iff_isSome_getElem?, ht]
    rfl
  have herror : ∀ e s', s.Same s' → s.Leaves proposes (.error e) s' := fun _ _ ↦ .unchanged
  have hhandover {endorsed : Transaction} : ∀ given, n.handover endorsed p = .ok given →
      ∀ t ∈ given.history, n.ledger.archive.Stores t :=
    fun _ h _ ht ↦ Node.stores_of_handover h ht
  unfold settle
  refine leads_bind_of_ensures .refl ensures_lift_true hknown herror fun roster _ _ hsame ↦ ?_
  refine leads_bind_of_ensures hsame (ensures_lift fun _ ↦ Node.content_of_endorseOwn) hknown herror
    fun endorsed _ hcontent hsame ↦ ?_
  refine leads_bind_of_ensures hsame (ensures_lift hhandover) hknown herror
    fun given _ hgiven hsame ↦ ?_
  refine leads_bind_of_ensures hsame ensures_openSessions hknown herror
    fun sessions _ _ hsame ↦ ?_
  refine leads_bind_of_ensures hsame (ensures_foldlM (fun t ↦ t.content = p.content) hcontent
    fun _ _ ht ↦ ensures_consult hgiven ht) hknown herror fun t _ ht hsame ↦ ?_
  refine leads_bind_of_ensures hsame ensures_lift_true hknown herror fun _ s' _ hsame ↦ ?_
  apply leads_finalise.bind
  · rintro e s'' ⟨hundone, -⟩
    exact herror e s'' (hsame.trans (hundone e rfl))
  rintro u decided ⟨-, hdone⟩
  have hfinalises := hsame.finalises (ht ▸ hdone u rfl)
  have hmem : ∀ v ∈ (Message.finalised u).transactions, v.id ∈ decided.ledger.archive := by
    intro v hv
    rw [List.mem_singleton.mp hv, hfinalises.ledger_eq]
    exact Ledger.mem_archive_record
  apply (leads_forM_askForAck hmem).bind
  · rintro e final ⟨hsame', hfails⟩
    exact .undelivered hproposes (hfinalises.same hsame') (hfails e rfl)
  · rintro _ final ⟨hsame', -⟩
    exact .settled hproposes (hfinalises.same hsame')

end Settling

/-! ### Going through an operation -/

theorem Node.Advances.ledger_eq [Cryptosystem] {n n' : Node} {known : Transaction → Prop}
    (h : n.Advances known n') (hknown : ∀ t, known t → t.id ∈ n.ledger.archive) :
    n'.ledger = n.ledger := by
  induction h with
  | refl => rfl
  | @record n' t _ ht _ _ ih =>
    rw [← ih]
    apply Ledger.record_of_mem
    rw [ih]
    exact hknown t ht
  | attach _ ih => exact ih

namespace Network

variable [Cryptosystem] {α : Type} {net : Network} {name : String} {node : Node}

/-- An exchange that hands over nothing new to a node leaves its ledger and the notary as they
are. -/
theorem exists_ledger_eq_of_exchange {party : Party} {peer : Peer} {m : Message}
    (hnode : net.nodes[name]? = some node) (hm : ∀ t ∈ m.transactions, t.id ∈ node.ledger.archive) :
    (net.exchange party peer m).1.notary = net.notary ∧
      ∃ node', (net.exchange party peer m).1.nodes[name]? = some node' ∧
        node'.ledger = node.ledger := by
  rcases @exchange_cases net _ party peer m with hnet | ⟨other, change, hchange, hnet⟩
  · rw [hnet]
    exact ⟨rfl, node, hnode, rfl⟩
  · rw [hnet, notary_update, getElem?_update, hnode]
    refine ⟨rfl, ?_⟩
    split
    · exact ⟨change node, rfl, (hchange node).ledger_eq hm⟩
    · exact ⟨node, rfl, rfl⟩

/-- A network goes where the dialogue leads. -/
theorem exists_of_run {d : Dialogue α} {post : α → Standing → Prop} {peers : List Peer}
    {said : List Remark} (hnode : net.nodes[name]? = some node)
    (h : d.Leads ⟨net.notary, node.ledger, said⟩ post) :
    ∃ node' said', (run name d net peers).1.nodes[name]? = some node' ∧
      post (run name d net peers).2 ⟨(run name d net peers).1.notary, node'.ledger, said'⟩ := by
  induction d generalizing net node said peers with
  | done a => exact ⟨node, said, hnode, h⟩
  | openSession party next ih =>
    unfold run
    cases net.connect? party with
    | none => exact ih _ hnode (h _)
    | some peer => exact ih _ hnode (h _)
  | exchange line m next ih =>
    unfold run
    cases peers[line.number]? with
    | none => exact ih _ hnode (h.2 _)
    | some peer =>
      obtain ⟨hnotary, node', hnode', hledger⟩ :=
        @exists_ledger_eq_of_exchange _ net name node line.party peer m hnode h.1
      have hnext := h.2 (net.exchange line.party peer m).2.2
      unfold Standing.hear at hnext
      simp only at hnext
      rw [← hnotary, ← hledger] at hnext
      exact ih _ hnode' hnext
  | finalise t next ih =>
    unfold run
    unfold Dialogue.Leads at h
    simp only at h
    cases hnotarise : net.notary.notarise t with
    | error e =>
      rw [hnotarise] at h
      exact ih _ hnode h
    | ok signed =>
      rw [hnotarise] at h
      let after := ({ net with notary := signed.1 } : Network).update name
        (·.record (t.endorse signed.2))
      have hnotary : after.notary = signed.1 := notary_update
      have hrecorded : after.nodes[name]? = some (node.record (t.endorse signed.2)) := by
        rw [getElem?_update, if_pos rfl]
        exact congrArg (Option.map _) hnode
      have hnext : (next (.ok (t.endorse signed.2))).Leads
          ⟨after.notary, (node.record (t.endorse signed.2)).ledger, said⟩ post := hnotary ▸ h
      exact ih _ hrecorded hnext

end Network

/-- The content is one that a node comes to propose for an operation. -/
def Node.Proposes [Cryptosystem] (n : Node) (stamp : Stamp) (operation : Operation) (c : Content) :
    Prop :=
  ∃ p, n.propose stamp operation = .ok p ∧ p.content = c

namespace Activity

variable [Cryptosystem]

/-- Whatever a node has lived through and whatever it is answered, an operation of its own that
fails leaves its archive and vault and the notary as they were, unless its transaction could not be
handed out once it was notarised and recorded; and one that succeeds does nothing but finalise what
it proposes. So it is on every network too, with whatever is on it. -/
theorem leaves_of_operation (settings : NodeSettings) (identity : Seed) (further : List Seed)
    (events : List Event) (net : Network) (name : String) (salt : Block 32) (operation : Operation)
    (hnode :
      net.nodes[name]? = some ((start (Node.new settings identity further)).run events).node) :
    let n := ((start (Node.new settings identity further)).run events).node
    let stamp : Stamp := ⟨net.notary.party, salt⟩
    let before : Standing := ⟨net.notary, n.ledger, []⟩
    let left := before.Leaves (n.Proposes stamp operation)
    (∀ p, n.propose stamp operation = .ok p →
      Settling.Leads (Settling.settle net.directory n p) before left) ∧
    ∀ net' outcome, net.perform name salt operation = some (net', outcome) →
      ∃ n' said, net'.nodes[name]? = some n' ∧ left outcome ⟨net'.notary, n'.ledger, said⟩ := by
  intro n stamp before left
  have hkeyed : n.ledger.archive.Keyed := traceable_run.keyed
  have hleads : ∀ p, n.propose stamp operation = .ok p →
      Settling.Leads (Settling.settle net.directory n p) before left :=
    fun p hp ↦ Settling.leads_settle rfl hkeyed ⟨p, hp, rfl⟩
  refine ⟨hleads, fun net' outcome hperform ↦ ?_⟩
  unfold Network.perform at hperform
  rw [hnode] at hperform
  simp only [Option.bind_eq_bind, Option.bind_some] at hperform
  cases hp : n.propose stamp operation with
  | error e =>
    rw [hp] at hperform
    obtain ⟨rfl, rfl⟩ := Prod.mk.inj (Option.some.inj hperform)
    exact ⟨n, [], hnode, .unchanged .refl⟩
  | ok p =>
    rw [hp] at hperform
    have hrun := Option.some.inj hperform
    have hend := @Network.exists_of_run _ _ net name n _ left [] [] hnode (hleads p hp)
    rw [hrun] at hend
    exact hend

omit [Cryptosystem]

/-! ### A move that is recorded and does not arrive -/

namespace Undelivered

open Exit
open Trial (seed notary holder)

def receiver : Party := ⟨"Receiver", ⟨.replicate 32 5⟩⟩

/-- The holder has issued an asset to itself. -/
def issued : Node := (@run .clear (start (@Node.new .clear settings (seed 2) [])) issue).node

/-- The receiver agrees to its role and to the history, and is gone when the transaction is handed
out. -/
def net : Network where
  notary := @Notary.new .clear "Notary" (seed 9)
  directory := Directory.register ∅ receiver
  nodes := Std.TreeMap.empty.insert "Holder" issued
  scripts := Std.TreeMap.empty.insert "Receiver" [.message .ack, .message .ack, .close]

/-- Moves that fail although the holder has recorded something. -/
def failsRecorded (asset : Located) : Bool :=
  match @Network.perform .clear net "Holder" (.replicate 32 2) (.move asset receiver) with
  | some (net', .error _) => net'.nodes["Holder"]?.any fun n' ↦
      n'.ledger.archive.size != issued.ledger.archive.size
  | _ => false

theorem exists_failsRecorded : ∃ asset net' e n',
    @Network.perform .clear net "Holder" (.replicate 32 2) (.move asset receiver) =
      some (net', .error e) ∧ net'.nodes["Holder"]? = some n' ∧
      n'.ledger.archive.size ≠ issued.ledger.archive.size := by
  have hfails : issued.ledger.vault.live.any failsRecorded = true := by decide +kernel
  obtain ⟨asset, -, hasset⟩ := List.any_eq_true.mp hfails
  unfold failsRecorded at hasset
  split at hasset
  · rename_i net' e hperform
    obtain ⟨n', hn', hsize⟩ := (Option.any_eq_true _ _).mp hasset
    exact ⟨asset, net', e, n', hperform, hn', bne_iff_ne.mp hsize⟩
  · cases hasset

end Undelivered

open Exit Undelivered Trial in
theorem leaves_of_operation_undelivered : ∃ asset net' e n' said c t,
    let before : Standing := ⟨net.notary, issued.ledger, []⟩
    let after : Standing := ⟨net'.notary, n'.ledger, said⟩
    @Network.perform .clear net "Holder" (.replicate 32 2) (.move asset receiver) =
      some (net', .error e) ∧ net'.nodes["Holder"]? = some n' ∧
      @Node.Proposes .clear issued ⟨net.notary.party, .replicate 32 2⟩ (.move asset receiver) c ∧
      @Standing.Finalises .clear before c t after ∧ Settling.FailsAt after (.finalised t) e := by
  obtain ⟨asset, net', e, n', hperform, hn', hsize⟩ := exists_failsRecorded
  have hnode : net.nodes["Holder"]? = some issued := Std.TreeMap.getElem?_insert_self
  obtain ⟨after, said, hafter, hleaves⟩ :=
    (@leaves_of_operation .clear settings (seed 2) [] issue net "Holder" (.replicate 32 2)
      (.move asset receiver) hnode).2 net' _ hperform
  obtain rfl := Option.some.inj (hn'.symm.trans hafter)
  cases hleaves with
  | unchanged hsame => exact absurd (congrArg (·.archive.size) hsame.ledger_eq) hsize
  | @undelivered c t _ _ hc hfinalises hfails =>
    exact ⟨asset, net', e, n', said, c, t, hperform, hn', hc, hfinalises, hfails⟩

/-- An operation that fails may have recorded its transaction. -/
theorem not_unchanged_of_error :
    ¬ ∀ settings identity further events net name salt operation net' e n',
      let n := (@run .clear (start (@Node.new .clear settings identity further)) events).node
      net.nodes[name]? = some n →
      @Network.perform .clear net name salt operation = some (net', .error e) →
      net'.nodes[name]? = some n' →
      n'.ledger.archive = n.ledger.archive ∧ n'.ledger.vault = n.ledger.vault ∧
        net'.notary.spent = net.notary.spent := by
  intro hunchanged
  obtain ⟨asset, net', e, n', hperform, hn', hsize⟩ := Undelivered.exists_failsRecorded
  obtain ⟨harchive, -⟩ := hunchanged Exit.settings (Trial.seed 2) [] Exit.issue Undelivered.net
    "Holder" (.replicate 32 2) (.move asset Undelivered.receiver) net' e n'
    Std.TreeMap.getElem?_insert_self hperform hn'
  exact hsize (congrArg Std.TreeMap.size harchive)

end Activity

end Custody
