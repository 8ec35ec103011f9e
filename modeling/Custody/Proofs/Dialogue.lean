import Custody.Proofs.Ledger.Lineage
import Custody.Proofs.Rules.Steps
import Custody.Proofs.Session.Message
import Custody.Proofs.Transaction.Endorsements
import Custody.Settlement

/-!
# What a dialogue finalises and hands over

Whatever the answers are, a dialogue only asks for the finalisation of transactions that keep a
promise, hands over no transaction that is not known, and ends in a result of a certain kind. All of
it is read off the tree. The predicate follows the tree, so it takes one dialogue after another
apart into the two, and settling, which stops at the first failure, likewise. Settling a proposal
finalises nothing but the content proposed, and hands over what the node has archived and what was
finalised.
-/

namespace Custody

namespace Dialogue

variable {α β : Type} {promise known : Transaction → Prop}

theorem bind_done {d : Dialogue α} : d.bind done = d := by
  induction d with
  | done a => rfl
  | openSession party next ih => exact congrArg (openSession party) (funext ih)
  | exchange line m next ih => exact congrArg (exchange line m) (funext ih)
  | finalise t next ih => exact congrArg (finalise t) (funext ih)

theorem bind_assoc {γ : Type} {d : Dialogue α} {f : α → Dialogue β} {g : β → Dialogue γ} :
    (d.bind f).bind g = d.bind fun a ↦ (f a).bind g := by
  induction d with
  | done a => rfl
  | openSession party next ih => exact congrArg (openSession party) (funext ih)
  | exchange line m next ih => exact congrArg (exchange line m) (funext ih)
  | finalise t next ih => exact congrArg (finalise t) (funext ih)

instance : LawfulMonad Dialogue :=
  LawfulMonad.mk' Dialogue (fun _ ↦ bind_done) (fun _ _ ↦ rfl) (fun _ _ _ ↦ bind_assoc)

/-- Whatever the answers are, every transaction that comes up for finalisation keeps the promise,
every transaction that a message hands over is known, and the result is as said. What has been
finalised is known from then on. -/
def Keeps (promise : Transaction → Prop) : Dialogue α → (Transaction → Prop) → (α → Prop) → Prop
  | done a, _, post => post a
  | openSession _ next, known, post => ∀ answer, (next answer).Keeps promise known post
  | exchange _ m next, known, post =>
    (∀ t ∈ m.transactions, known t) ∧ ∀ answer, (next answer).Keeps promise known post
  | finalise t next, known, post =>
    promise t ∧ ∀ answer, (next answer).Keeps promise (fun u ↦ known u ∨ answer = .ok u) post

theorem Keeps.mono {d : Dialogue α} {known' : Transaction → Prop} {post post' : α → Prop}
    (h : d.Keeps promise known post) (hknown : ∀ t, known t → known' t)
    (himp : ∀ a, post a → post' a) : d.Keeps promise known' post' := by
  induction d generalizing known known' with
  | done a => exact himp a h
  | openSession party next ih => exact fun answer ↦ ih answer (h answer) hknown
  | exchange line m next ih =>
    exact ⟨fun t ht ↦ hknown t (h.1 t ht), fun answer ↦ ih answer (h.2 answer) hknown⟩
  | finalise t next ih =>
    exact ⟨h.1, fun answer ↦ ih answer (h.2 answer) fun u ↦ Or.imp_left (hknown u)⟩

/-- What comes second may rely on less than is known by then. -/
theorem Keeps.bind {d : Dialogue α} {f : α → Dialogue β} {mid : α → Prop} {post : β → Prop}
    (h : d.Keeps promise known mid) (hf : ∀ a, mid a → (f a).Keeps promise known post) :
    (d >>= f).Keeps promise known post := by
  change (d.bind f).Keeps promise known post
  induction d generalizing known with
  | done a => exact hf a h
  | openSession party next ih => exact fun answer ↦ ih answer (h answer) hf
  | exchange line m next ih => exact ⟨h.1, fun answer ↦ ih answer (h.2 answer) hf⟩
  | finalise t next ih =>
    refine ⟨h.1, fun answer ↦ ih answer (h.2 answer) ?_⟩
    exact fun a ha ↦ (hf a ha).mono (fun _ ↦ .inl) fun _ hb ↦ hb

end Dialogue

namespace Settling

variable {α β : Type} {promise known : Transaction → Prop}

/-- As `Dialogue.Keeps`, for settling: the result is as said unless settling fails. -/
def Ensures (promise known : Transaction → Prop) (m : Settling α) (post : α → Prop) : Prop :=
  m.run.Keeps promise known fun outcome ↦ ∀ a, outcome = .ok a → post a

theorem ensures_pure {a : α} {post : α → Prop} (h : post a) :
    Ensures promise known (pure a) post := by
  intro b hb
  rwa [← Except.ok.inj hb]

theorem ensures_throw {e : OperationError} {post : α → Prop} :
    Ensures promise known (throw e) post := by
  intro b hb
  cases hb

theorem run_lift_bind {a : α} {f : α → Settling β} :
    (lift (.ok a) >>= f).run = (f a).run := rfl

theorem ensures_lift {outcome : Except OperationError α} {post : α → Prop}
    (h : ∀ a, outcome = .ok a → post a) : Ensures promise known (lift outcome) post := h

theorem ensures_lift_true {outcome : Except OperationError α} :
    Ensures promise known (lift outcome) fun _ ↦ True :=
  ensures_lift fun _ _ ↦ trivial

theorem Ensures.bind {m : Settling α} {f : α → Settling β} {mid : α → Prop} {post : β → Prop}
    (h : Ensures promise known m mid) (hf : ∀ a, mid a → Ensures promise known (f a) post) :
    Ensures promise known (m >>= f) post := by
  unfold Ensures
  rw [ExceptT.run_bind]
  apply Dialogue.Keeps.bind h
  intro outcome houtcome
  cases outcome with
  | error e => exact fun _ hb ↦ nomatch hb
  | ok a => exact hf a (houtcome a rfl)

/-- What is done under a condition does not matter to what comes after it. -/
theorem ensures_when {p : Prop} [Decidable p] {m : Settling Unit} {next : Unit → Settling α}
    {post : α → Prop} (h : Ensures promise known m fun _ ↦ True)
    (hnext : ∀ u, Ensures promise known (next u) post) :
    Ensures promise known (if p then m >>= next else next ()) post := by
  split
  · exact h.bind fun u _ ↦ hnext u
  · exact hnext ()

theorem ensures_openSession {party : Party} :
    Ensures promise known (openSession party) fun _ ↦ True :=
  fun _ _ _ ↦ trivial

theorem ensures_ask {line : Line} {m : Message} (h : ∀ t ∈ m.transactions, known t) :
    Ensures promise known (ask line m) fun _ ↦ True :=
  ⟨h, fun _ _ _ ↦ trivial⟩

theorem ensures_askForAck {line : Line} {m : Message} (h : ∀ t ∈ m.transactions, known t) :
    Ensures promise known (askForAck line m) fun _ ↦ True :=
  ⟨h, fun _ _ _ ↦ trivial⟩

/-- What comes after a finalisation may hand over what was finalised. -/
theorem ensures_finalise_bind {t : Transaction} {next : Transaction → Settling α} {post : α → Prop}
    (h : promise t) (hnext : ∀ u, Ensures promise (fun v ↦ known v ∨ v = u) (next u) post) :
    Ensures promise known (finalise t >>= next) post := by
  refine ⟨h, fun answer ↦ ?_⟩
  cases answer with
  | error e => exact fun _ ha ↦ nomatch ha
  | ok u =>
    refine (hnext u).mono (fun v ↦ Or.imp_right ?_) fun _ ha ↦ ha
    rintro rfl
    rfl

theorem ensures_mapM {f : α → Settling β} {xs : List α}
    (h : ∀ x, Ensures promise known (f x) fun _ ↦ True) :
    Ensures promise known (xs.mapM f) fun _ ↦ True := by
  induction xs with
  | nil => exact ensures_pure trivial
  | cons x xs ih =>
    rw [List.mapM_cons]
    apply (h x).bind
    intro y _
    apply ih.bind
    intro ys _
    exact ensures_pure trivial

theorem ensures_forM {f : α → Settling Unit} {xs : List α}
    (h : ∀ x, Ensures promise known (f x) fun _ ↦ True) :
    Ensures promise known (xs.forM f) fun _ ↦ True := by
  induction xs with
  | nil => exact ensures_pure trivial
  | cons x xs ih =>
    change Ensures promise known (f x >>= fun _ ↦ xs.forM f) _
    exact (h x).bind fun _ _ ↦ ih

/-- What one round keeps, all rounds keep. -/
theorem ensures_foldlM {f : β → α → Settling β} {xs : List α} (invariant : β → Prop) {b : β}
    (hb : invariant b) (h : ∀ b x, invariant b → Ensures promise known (f b x) invariant) :
    Ensures promise known (xs.foldlM f b) invariant := by
  induction xs generalizing b with
  | nil => exact ensures_pure hb
  | cons x xs ih =>
    rw [List.foldlM_cons]
    exact (h b x hb).bind fun _ hnext ↦ ih hnext

end Settling

/-! ### Settling a proposal -/

namespace Settling

variable [Cryptosystem] {promise known : Transaction → Prop} {c : Content}

omit [Cryptosystem] in
theorem ensures_openSessions {roster : Roster} :
    Ensures promise known (openSessions roster) fun _ ↦ True := by
  apply ensures_mapM
  intro counterparty
  apply ensures_openSession.bind
  intro _ _
  apply (ensures_askForAck fun _ h ↦ absurd h List.not_mem_nil).bind
  intro _ _
  exact ensures_pure trivial

theorem ensures_collect {required : List PublicKey} {t : Transaction} {s : OpenSession}
    (h : t.content = c) :
    Ensures promise known (collect required t s) fun t ↦ t.content = c := by
  unfold collect
  apply (ensures_ask fun _ h ↦ absurd h List.not_mem_nil).bind
  intro reply _
  cases reply with
  | signatures endorsements =>
    apply ensures_lift
    intro t' haccept
    unfold acceptEndorsements at haccept
    split at haccept
    · rw [← Except.ok.inj haccept, Transaction.content_endorseAll, h]
    · cases haccept
  | _ => exact ensures_throw

theorem ensures_consult {required : List PublicKey} {given : Handover} {t : Transaction}
    {s : OpenSession} (hgiven : ∀ t ∈ given.history, known t) (h : t.content = c) :
    Ensures promise known (consult required given t s) fun t ↦ t.content = c := by
  unfold consult
  apply ensures_when (ensures_askForAck fun _ h ↦ absurd h List.not_mem_nil)
  intro _
  apply ensures_when (@ensures_askForAck _ _ s.line (.history given.history) hgiven)
  intro _
  cases s.role with
  | signer => exact ensures_collect h
  | observer => exact ensures_pure h

end Settling

namespace Node

variable [Cryptosystem] {n : Node} {t : Transaction}

theorem content_of_endorseOwn {c : Content} {keys : List PublicKey}
    (h : n.endorseOwn c keys = .ok t) : t.content = c := by
  obtain ⟨endorsements, -, h⟩ := Outcome.bind_eq_ok_iff.mp h
  rw [← Outcome.pure_eq_ok_iff.mp h, Transaction.content_endorseAll]
  rfl

/-- What counterparties are handed: the lineage of the transaction and of the history to be shared,
and every blob that these refer to. -/
structure Hands (n : Node) (t : Transaction) (p : Proposal) (given : Handover) : Prop where
  lineage : ∃ roots, n.ledger.archive.lineage roots = .ok given.history ∧
    ∀ id, id ∈ roots ↔ id ∈ p.history.map Transaction.id ++ t.sources
  blob : ∀ u ∈ given.history ++ [t], ∀ id ∈ u.content.attachments, ∃ blob ∈ given.attachments,
    AttachmentId.ofBlob blob = id ∨ n.attachments[id]? = some blob

theorem hands_of_handover {p : Proposal} {given : Handover} (h : n.handover t p = .ok given) :
    Hands n t p given := by
  obtain ⟨history, hhistory, h⟩ := Outcome.bind_eq_ok_iff.mp h
  obtain ⟨others, hothers, h⟩ := Outcome.bind_eq_ok_iff.mp h
  rw [← Outcome.pure_eq_ok_iff.mp h]
  refine ⟨⟨_, Outcome.mapError_eq_ok_iff.mp hhistory, fun id ↦ ?_⟩, fun u hu id hid ↦ ?_⟩
  · rw [Std.TreeSet.mem_toList, Std.TreeSet.mem_ofList, List.contains_iff_mem]
  · by_cases hshared : id ∈ p.attachments.map AttachmentId.ofBlob
    · obtain ⟨blob, hblob, hid⟩ := List.mem_map.mp hshared
      exact ⟨blob, List.mem_append_left _ hblob, .inl hid⟩
    · have hmentioned : id ∈ ((history ++ [t]).flatMap (·.content.attachments)).eraseDups.filter
          (!(p.attachments.map AttachmentId.ofBlob).contains ·) := by
        rw [List.mem_filter, List.mem_eraseDups, List.mem_flatMap]
        exact ⟨⟨u, hu, hid⟩, by simpa using hshared⟩
      obtain ⟨blob, hblob, hfetch⟩ :=
        Outcome.exists_of_mem_left (Outcome.mapM_eq_ok_iff.mp hothers) hmentioned
      exact ⟨blob, List.mem_append_right _ hblob,
        .inr (Rules.fetch_eq_ok_iff.mp (Outcome.mapError_eq_ok_iff.mp hfetch))⟩

/-- What counterparties are handed is archived. -/
theorem stores_of_handover {p : Proposal} {given : Handover} (h : n.handover t p = .ok given)
    {u : Transaction} (hu : u ∈ given.history) : n.ledger.archive.Stores u := by
  obtain ⟨_, hlineage, -⟩ := (hands_of_handover h).lineage
  exact Archive.stores_of_lineage hlineage hu

end Node

/-- Settling a proposal asks for the finalisation of nothing but its content, and hands over only
what the node has archived and what was finalised. -/
theorem Settling.ensures_settle [Cryptosystem] {directory : Directory} {n : Node} {p : Proposal} :
    Ensures (fun t ↦ t.content = p.content) n.ledger.archive.Stores (settle directory n p)
      fun _ ↦ True := by
  unfold settle
  apply ensures_lift_true.bind
  intro roster _
  apply (ensures_lift fun _ ↦ Node.content_of_endorseOwn).bind
  intro endorsed hcontent
  have hhandover : ∀ given, n.handover endorsed p = .ok given →
      ∀ t ∈ given.history, n.ledger.archive.Stores t :=
    fun _ h _ ht ↦ Node.stores_of_handover h ht
  apply (ensures_lift hhandover).bind
  intro given hgiven
  apply ensures_openSessions.bind
  intro sessions _
  apply (ensures_foldlM (fun t ↦ t.content = p.content) hcontent fun _ _ ht ↦
    ensures_consult hgiven ht).bind
  intro t ht
  apply ensures_lift_true.bind
  intro _ _
  apply ensures_finalise_bind ht
  intro final
  refine (ensures_forM fun _ ↦ ensures_askForAck ?_).bind ?_
  · intro u hu
    exact .inr (List.mem_singleton.mp hu)
  · intro _ _
    exact ensures_pure trivial

/-- Where nobody else is needed, the notary is asked at once. -/
theorem Settling.exists_run_settle_eq [Cryptosystem] {directory : Directory} {n : Node}
    {p : Proposal} {keys : List PublicKey} {t : Transaction} {given : Handover}
    (hroster : Roster.build directory n.keyring n.party (Node.signersOf p.content) p.observers =
      .ok ⟨keys, [], []⟩)
    (hendorsed : n.endorseOwn p.content keys = .ok t) (hgiven : n.handover t p = .ok given)
    (hsigned : t.checkSignaturesExcept [p.content.notary.key] = .ok ()) :
    ∃ next, (settle directory n p).run = .finalise t next := by
  have hsessions : openSessions ⟨keys, [], []⟩ = pure [] := rfl
  unfold settle
  simp only [hroster, Except.mapError, run_lift_bind, hendorsed, hgiven, hsessions, pure_bind,
    List.foldlM_nil, hsigned]
  exact ⟨_, rfl⟩

end Custody
