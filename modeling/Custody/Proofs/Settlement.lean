import Custody.Proofs.Dialogue
import Custody.Proofs.Ledger.Acyclic
import Custody.Proofs.Operation.Drafts

/-!
# What has been agreed to when a settlement succeeds

Beside a dialogue runs a record of what has come of it: the sessions opened, the messages agreed to
and the transactions finalised. Whatever the answers are, at the end of a dialogue its result and
the record stand in some relation, which is read off the tree as `Dialogue.Keeps` is. A settlement
that succeeds has opened a session with everyone on its roster, and in each of them the history that
was handed over and the finalised transaction have been agreed to.
-/

namespace Custody

/-- What has come of a dialogue so far. -/
structure Told where
  /-- The parties with whom sessions were opened, first to last. -/
  opened : List Party
  /-- The messages that were agreed to, each in its session. -/
  agreed : List (Line × Message)
  finalised : List Transaction

namespace Told

def none : Told := ⟨[], [], []⟩

def opens (told : Told) (party : Party) : Told := { told with opened := told.opened ++ [party] }

/-- Only agreement is recorded. -/
def answers (told : Told) (line : Line) (m : Message) (answer : Except NetworkError Message) :
    Told :=
  match answer with
  | .ok .ack => { told with agreed := (line, m) :: told.agreed }
  | _ => told

def records (told : Told) (answer : Except NotaryError Transaction) : Told :=
  match answer with
  | .ok t => { told with finalised := t :: told.finalised }
  | .error _ => told

/-- In every session a message has been agreed to. -/
def AllAgree (told : Told) (m : Message) : Prop :=
  ∀ number party, told.opened[number]? = some party → (⟨number, party⟩, m) ∈ told.agreed

/-- More has come of the dialogue, but no session has been opened. -/
structure Adds (told told' : Told) : Prop where
  opened_eq : told'.opened = told.opened
  agreed : told.agreed ⊆ told'.agreed
  finalised : told.finalised ⊆ told'.finalised

variable {told told' told'' : Told} {line : Line} {m : Message}

theorem Adds.refl : told.Adds told := ⟨rfl, List.Subset.refl _, List.Subset.refl _⟩

theorem Adds.trans (h : told.Adds told') (h' : told'.Adds told'') : told.Adds told'' :=
  ⟨h'.opened_eq.trans h.opened_eq, List.Subset.trans h.agreed h'.agreed,
    List.Subset.trans h.finalised h'.finalised⟩

theorem Adds.mem (h : told.Adds told') (hagreed : (line, m) ∈ told.agreed) :
    (line, m) ∈ told'.agreed := h.agreed hagreed

theorem AllAgree.mono (h : told.AllAgree m) (hadds : told.Adds told') : told'.AllAgree m := by
  intro number party hparty
  rw [hadds.opened_eq] at hparty
  exact hadds.mem (h number party hparty)

theorem adds_answers {answer : Except NetworkError Message} :
    told.Adds (told.answers line m answer) := by
  unfold answers
  split
  · exact ⟨rfl, List.subset_cons_self _ _, List.Subset.refl _⟩
  · exact .refl

theorem adds_records {answer : Except NotaryError Transaction} :
    told.Adds (told.records answer) := by
  cases answer with
  | error e => exact .refl
  | ok t => exact ⟨rfl, List.Subset.refl _, List.subset_cons_self _ _⟩

end Told

namespace Dialogue

variable {α β : Type} {told : Told}

/-- Whatever the answers are, the result and the record at the end are as said. -/
def Tells : Dialogue α → Told → (α → Told → Prop) → Prop
  | done a, told, post => post a told
  | openSession party next, told, post =>
    (next (.ok ())).Tells (told.opens party) post ∧ ∀ e, (next (.error e)).Tells told post
  | exchange line m next, told, post =>
    ∀ answer, (next answer).Tells (told.answers line m answer) post
  | finalise _ next, told, post => ∀ answer, (next answer).Tells (told.records answer) post

theorem Tells.bind {d : Dialogue α} {f : α → Dialogue β} {mid : α → Told → Prop}
    {post : β → Told → Prop} (h : d.Tells told mid)
    (hf : ∀ a told, mid a told → (f a).Tells told post) : (d >>= f).Tells told post := by
  change (d.bind f).Tells told post
  induction d generalizing told with
  | done a => exact hf a told h
  | openSession party next ih => exact ⟨ih _ h.1, fun e ↦ ih _ (h.2 e)⟩
  | exchange line m next ih => exact fun answer ↦ ih answer (h answer)
  | finalise t next ih => exact fun answer ↦ ih answer (h answer)

end Dialogue

namespace Settling

variable {α β : Type} {told : Told} {post : α → Told → Prop}

/-- As `Dialogue.Tells`, for settling: the result and the record are as said unless settling
fails. -/
def Tells (m : Settling α) (told : Told) (post : α → Told → Prop) : Prop :=
  m.run.Tells told fun outcome told ↦ ∀ a, outcome = .ok a → post a told

theorem tells_pure {a : α} (h : post a told) : Tells (pure a) told post := by
  intro b hb
  rwa [← Except.ok.inj hb]

theorem tells_throw {e : OperationError} : Tells (throw e) told post := fun _ h ↦ nomatch h

theorem tells_lift {outcome : Except OperationError α} :
    Tells (lift outcome) told fun a told' ↦ outcome = .ok a ∧ told' = told :=
  fun _ h ↦ ⟨h, rfl⟩

theorem Tells.bind {m : Settling α} {f : α → Settling β} {mid : α → Told → Prop}
    {post : β → Told → Prop} (h : Tells m told mid)
    (hf : ∀ a told, mid a told → Tells (f a) told post) : Tells (m >>= f) told post := by
  unfold Tells
  rw [ExceptT.run_bind]
  apply Dialogue.Tells.bind h
  intro outcome told houtcome
  cases outcome with
  | error e => exact fun _ hb ↦ nomatch hb
  | ok a => exact hf a told (houtcome a rfl)

theorem tells_openSession {party : Party} :
    Tells (openSession party) told fun _ told' ↦ told'.opened = told.opened ++ [party] :=
  ⟨fun _ _ ↦ rfl, fun _ _ ha ↦ nomatch ha⟩

theorem tells_ask {line : Line} {m : Message} :
    Tells (ask line m) told fun _ told' ↦ told.Adds told' :=
  fun _ _ _ ↦ Told.adds_answers

/-- Settling goes on only when a message that expects agreement has been agreed to. -/
theorem tells_askForAck {line : Line} {m : Message} :
    Tells (askForAck line m) told fun _ told' ↦ told.Adds told' ∧ (line, m) ∈ told'.agreed := by
  intro answer _ hanswer
  refine ⟨Told.adds_answers, ?_⟩
  cases answer with
  | error e => cases hanswer
  | ok reply =>
    cases reply with
    | ack => exact List.mem_cons_self
    | _ => cases hanswer

theorem tells_finalise {t : Transaction} :
    Tells (finalise t) told fun u told' ↦ told.Adds told' ∧ u ∈ told'.finalised := by
  intro answer u hanswer
  refine ⟨Told.adds_records, ?_⟩
  cases answer with
  | error e => cases hanswer
  | ok t =>
    rw [← Except.ok.inj hanswer]
    exact List.mem_cons_self

theorem Tells.mono {m : Settling α} {post' : α → Told → Prop} (h : Tells m told post)
    (himp : ∀ a told, post a told → post' a told) : Tells m told post' := by
  have hbind : Tells (m >>= pure) told post' := h.bind fun a told ha ↦ tells_pure (himp a told ha)
  rwa [bind_pure] at hbind

/-- What is done under a condition leaves behind what comes after it relies on, and so does leaving
it out. -/
theorem tells_when {p : Prop} [Decidable p] {m : Settling Unit} {next : Unit → Settling α}
    (mid : Told → Prop) (h : p → Tells m told fun _ ↦ mid) (hskip : ¬p → mid told)
    (hnext : ∀ u told, mid told → Tells (next u) told post) :
    Tells (if p then m >>= next else next ()) told post := by
  split
  · rename_i hp
    exact (h hp).bind hnext
  · rename_i hp
    exact hnext () told (hskip hp)

/-! ### Rounds -/

section Rounds

/-- Rounds that each open one session open one for each entry. -/
theorem tells_mapM {f : α → Settling β} (opens : α → Party) (fact : α → β → Prop)
    (h : ∀ x told, Tells (f x) told fun y told' ↦
      told'.opened = told.opened ++ [opens x] ∧ fact x y) {xs : List α} :
    Tells (xs.mapM f) told fun ys told' ↦
      told'.opened = told.opened ++ xs.map opens ∧ List.Forall₂ fact xs ys := by
  induction xs generalizing told with
  | nil => exact tells_pure ⟨(List.append_nil _).symm, .nil⟩
  | cons x xs ih =>
    rw [List.mapM_cons]
    apply (h x told).bind
    rintro y told' ⟨hopened, hfact⟩
    apply ih.bind
    rintro ys told'' ⟨hrest, hfacts⟩
    refine tells_pure ⟨?_, .cons hfact hfacts⟩
    rw [hrest, hopened, List.append_assoc]
    rfl

variable {xs : List α} (fact : α → Told → Prop)

/-- What each round adds about its entry stands to the end. -/
theorem tells_foldlM {f : β → α → Settling β} {b : β}
    (hmono : ∀ x told told', told.Adds told' → fact x told → fact x told')
    (h : ∀ b x told, Tells (f b x) told fun _ told' ↦ told.Adds told' ∧ fact x told') :
    Tells (xs.foldlM f b) told fun _ told' ↦ told.Adds told' ∧ ∀ x ∈ xs, fact x told' := by
  induction xs generalizing b told with
  | nil => exact tells_pure ⟨.refl, fun _ hx ↦ absurd hx List.not_mem_nil⟩
  | cons x xs ih =>
    rw [List.foldlM_cons]
    apply (h b x told).bind
    rintro b told' ⟨hadds, hx⟩
    apply ih.mono
    rintro _ told'' ⟨hadds', hxs⟩
    exact ⟨hadds.trans hadds', List.forall_mem_cons.mpr ⟨hmono x _ _ hadds' hx, hxs⟩⟩

theorem tells_forM {f : α → Settling Unit}
    (hmono : ∀ x told told', told.Adds told' → fact x told → fact x told')
    (h : ∀ x told, Tells (f x) told fun _ told' ↦ told.Adds told' ∧ fact x told') :
    Tells (xs.forM f) told fun _ told' ↦ told.Adds told' ∧ ∀ x ∈ xs, fact x told' := by
  induction xs generalizing told with
  | nil => exact tells_pure ⟨.refl, fun _ hx ↦ absurd hx List.not_mem_nil⟩
  | cons x xs ih =>
    change Tells (f x >>= fun _ ↦ xs.forM f) told _
    apply (h x told).bind
    rintro _ told' ⟨hadds, hx⟩
    apply ih.mono
    rintro _ told'' ⟨hadds', hxs⟩
    exact ⟨hadds.trans hadds', List.forall_mem_cons.mpr ⟨hmono x _ _ hadds' hx, hxs⟩⟩

end Rounds

/-! ### Settling a proposal -/

/-- The sessions are those with everyone on the roster, numbered in its order. -/
theorem tells_openSessions {roster : Roster} :
    Tells (openSessions roster) .none fun sessions told ↦
      told.opened = roster.counterparties.map Prod.fst ∧
        ∀ number party, told.opened[number]? = some party →
          ∃ s ∈ sessions, s.line = ⟨number, party⟩ := by
  refine (tells_mapM (fun x ↦ x.1.1) (fun x s ↦ s.line = ⟨x.2, x.1.1⟩) ?_).mono ?_
  · rintro ⟨⟨party, role⟩, number⟩ told
    apply tells_openSession.bind
    intro _ told' hopened
    apply tells_askForAck.bind
    rintro _ told'' ⟨hadds, -⟩
    exact tells_pure ⟨hadds.opened_eq.trans hopened, rfl⟩
  · rintro sessions told ⟨hopened, hlines⟩
    have hall : told.opened = roster.counterparties.map Prod.fst := by
      rw [hopened, ← List.zipIdx_map_fst 0 roster.counterparties, List.map_map,
        List.zipIdx_map_fst]
      rfl
    refine ⟨hall, fun number party hparty ↦ ?_⟩
    rw [hall, List.getElem?_map, Option.map_eq_some_iff] at hparty
    obtain ⟨counterparty, hcounterparty, rfl⟩ := hparty
    have hmem : (counterparty, number) ∈ roster.counterparties.zipIdx :=
      List.mem_zipIdx_iff_getElem?.mpr hcounterparty
    exact Outcome.exists_of_mem_left hlines hmem

variable [Cryptosystem]

/-- A counterparty agrees to the history, if there is any, before it is asked for anything else. -/
theorem tells_consult {required : List PublicKey} {given : Handover} {t : Transaction}
    {s : OpenSession} :
    Tells (consult required given t s) told fun _ told' ↦ told.Adds told' ∧
      (given.history ≠ [] → (s.line, .history given.history) ∈ told'.agreed) := by
  unfold consult
  apply tells_when told.Adds (fun _ ↦ tells_askForAck.mono fun _ _ h ↦ h.1) fun _ ↦ .refl
  intro _ told' hadds
  apply tells_when fun told'' ↦ told.Adds told'' ∧
    (given.history ≠ [] → (s.line, .history given.history) ∈ told''.agreed)
  · intro _
    refine tells_askForAck.mono ?_
    rintro _ told'' ⟨hadds', hagreed⟩
    exact ⟨hadds.trans hadds', fun _ ↦ hagreed⟩
  · intro hnone
    exact ⟨hadds, fun hsome ↦ absurd (by simpa using hsome) hnone⟩
  · rintro _ told'' ⟨hadds', hagreed⟩
    cases s.role with
    | observer => exact tells_pure ⟨hadds', hagreed⟩
    | signer =>
      have hcollect : Tells (collect required t s) told'' fun _ told ↦ told''.Adds told := by
        unfold collect
        apply tells_ask.bind
        intro reply told hadds''
        cases reply with
        | signatures endorsements =>
          refine tells_lift.mono ?_
          rintro _ told ⟨-, rfl⟩
          exact hadds''
        | _ => exact tells_throw
      apply hcollect.mono
      intro _ told hadds''
      exact ⟨hadds'.trans hadds'', fun hsome ↦ hadds''.mem (hagreed hsome)⟩

/-- What has been agreed to when a transaction comes out of settling a proposal. -/
structure Agreed (directory : Directory) (n : Node) (p : Proposal) (roster : Roster)
    (given : Handover) (t : Transaction) (told : Told) : Prop where
  build_eq :
    Roster.build directory n.keyring n.party (Node.signersOf p.content) p.observers = .ok roster
  exists_handover : ∃ endorsed, endorsed.content = p.content ∧ n.handover endorsed p = .ok given
  opened_eq : told.opened = roster.counterparties.map Prod.fst
  mem_finalised : t ∈ told.finalised
  history : given.history ≠ [] → told.AllAgree (.history given.history)
  finalised : told.AllAgree (.finalised t)

theorem tells_settle {directory : Directory} {n : Node} {p : Proposal} :
    Tells (settle directory n p) .none fun t told ↦
      ∃ roster given, Agreed directory n p roster given t told := by
  unfold settle
  apply tells_lift.bind
  rintro roster _ ⟨hroster, rfl⟩
  apply tells_lift.bind
  rintro endorsed _ ⟨hendorsed, rfl⟩
  apply tells_lift.bind
  rintro given _ ⟨hgiven, rfl⟩
  apply tells_openSessions.bind
  rintro sessions told ⟨hopened, hsessions⟩
  have hall {m : Message} {told' : Told} (hadds : told.Adds told')
      (hagreed : ∀ s ∈ sessions, (s.line, m) ∈ told'.agreed) : told'.AllAgree m := by
    intro number party hparty
    rw [hadds.opened_eq] at hparty
    obtain ⟨s, hs, hline⟩ := hsessions number party hparty
    exact hline ▸ hagreed s hs
  refine Tells.bind (tells_foldlM
    (fun (s : OpenSession) told ↦
      given.history ≠ [] → (s.line, Message.history given.history) ∈ told.agreed)
    (fun _ _ _ hadds h hsome ↦ hadds.mem (h hsome))
    fun _ _ _ ↦ tells_consult) ?_
  rintro t told' ⟨hadds, hhistory⟩
  apply tells_lift.bind
  rintro _ _ ⟨-, rfl⟩
  apply tells_finalise.bind
  rintro final told'' ⟨hadds', hfinalised⟩
  refine Tells.bind (tells_forM
    (fun (s : OpenSession) told ↦ (s.line, Message.finalised final) ∈ told.agreed)
    (fun _ _ _ hadds h ↦ hadds.mem h) fun _ _ ↦ tells_askForAck) ?_
  rintro _ told''' ⟨hadds'', hfinal⟩
  have hsame := hadds.trans (hadds'.trans hadds'')
  refine tells_pure ⟨roster, given, ?_, ⟨endorsed, ?_, hgiven⟩, hsame.opened_eq.trans hopened,
    hadds''.finalised hfinalised, ?_, hall hsame hfinal⟩
  · exact Outcome.mapError_eq_ok_iff.mp hroster
  · exact Node.content_of_endorseOwn hendorsed
  · exact fun hsome ↦
      (hall hadds fun s hs ↦ hhistory s hs hsome).mono (hadds'.trans hadds'')

end Settling

/-! ### What is handed over -/

namespace Node

variable [Cryptosystem] {n : Node} {t u : Transaction} {p : Proposal} {given : Handover}

/-- A node of a verified archive hands over all that the transaction consumes from and all that is
to be shared. -/
theorem exists_mem_of_handover (h : n.ledger.archive.Verified)
    (hgiven : n.handover t p = .ok given) {id : TransactionId}
    (hid : id ∈ p.history.map Transaction.id ++ t.sources) : ∃ u ∈ given.history, u.id = id := by
  obtain ⟨_, hlineage, hroots⟩ := (hands_of_handover hgiven).lineage
  exact h.exists_mem_of_lineage hlineage ((hroots id).mpr hid)

/-- As far as a node knows, the issuer of what is asked for takes part in an entity. -/
def Knows (n : Node) (terms : RequestTerms) (r : OutputRef) : Prop :=
  ∃ e, n.ledger.vault.live? r = some e ∧ terms.issuer.key ∈ e.entity.participants

variable {terms : RequestTerms}

omit [Cryptosystem] in
theorem knows_iff {r : OutputRef} : n.Knows terms r ↔
    ((n.ledger.vault.live? r).any (·.entity.participants.contains terms.issuer.key)) = true := by
  simp [Knows, Option.any_eq_true]

instance {r : OutputRef} : Decidable (n.Knows terms r) := decidable_of_iff' _ knows_iff

/-- The history for an issuer has whatever produced what the issuer is not known to take part in. -/
theorem exists_mem_of_historyForIssuer (h : n.ledger.archive.Verified) {ts : List Transaction}
    (hhistory : n.historyForIssuer terms = .ok ts) {r : OutputRef} (hr : r ∈ terms.entities)
    (hunknown : ¬ n.Knows terms r) : ∃ u ∈ ts, u.id = r.transaction := by
  unfold historyForIssuer at hhistory
  apply h.exists_mem_of_lineage (Outcome.mapError_eq_ok_iff.mp hhistory)
  rw [Std.TreeSet.mem_toList, Std.TreeSet.mem_ofList, List.contains_iff_mem]
  refine List.mem_map_of_mem (List.mem_filter.mpr ⟨hr, ?_⟩)
  rw [Bool.not_eq_true', Bool.eq_false_iff]
  exact fun hknown ↦ hunknown (knows_iff.mpr hknown)

omit [Cryptosystem] in
/-- A request whose history is shared is told to the issuer, and comes with the history for it. -/
theorem ends_draftRequest_shares {stamp : Stamp} (hissuer : terms.issuer ≠ n.party) :
    Outcome.Ends (n.draftRequest stamp terms true) fun p ↦ p.observers = [terms.issuer.key] ∧
      n.historyForIssuer terms = .ok p.history := by
  unfold draftRequest
  apply Outcome.ends_bind
  intro _ _
  apply Outcome.ends_unless
  · exact nofun
  intro _
  apply Outcome.ends_unless
  · exact nofun
  intro helsewhere
  have hapart : terms.isCoLocated = false := by simpa [hissuer] using helsewhere
  simp only [hapart, Bool.not_false, Bool.and_true, if_true]
  apply Outcome.ends_bind
  intro history hhistory
  exact Outcome.ends_pure ⟨rfl, hhistory⟩

end Node

end Custody
