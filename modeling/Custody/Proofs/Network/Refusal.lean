import Custody.Proofs.Network.Effects
import Custody.Proofs.Network.History
import Custody.Proofs.Operation.Arguments
import Custody.Proofs.Roster.Sessions

/-!
# What is refused has no consequences

Failures of others never look like failures of the arguments. Whatever a counterparty or the notary
answers, what becomes of it is sorted under another head; and whoever is needed for a settlement is
known, the transaction endorsed and its history gathered before the first session is opened. So a
settlement that blames the arguments does so at once, on every way through it, and the operation has
left no trace.
-/

namespace Custody

/-- What is kept of all ends of a dialogue holds at the end of each way through it. -/
theorem Dialogue.Keeps.of_goes {α : Type} {promise known : Transaction → Prop} {d : Dialogue α}
    {post : α → Prop} {acts : List Act} {a : α} (h : d.Keeps promise known post)
    (hgoes : d.Goes acts a) : post a := by
  induction hgoes generalizing known with
  | done => exact h
  | openSession answer _ ih => exact ih (h answer)
  | exchange answer _ ih => exact ih (h.2 answer)
  | finalise answer _ ih => exact ih (h.2 answer)

namespace Settling

open OperationError

variable {α β : Type} {m : Settling α} {f : α → Settling β}

/-! ### Settling that does not blame the arguments -/

/-- Whatever the answers are, a failure is not put down to the arguments. -/
def Blameless (m : Settling α) : Prop :=
  m.run.Keeps (fun _ ↦ True) (fun _ ↦ True) fun outcome ↦
    ∀ e, outcome = .error e → e.blamesArguments = false

theorem blameless_pure {a : α} : Blameless (pure a) := fun _ h ↦ nomatch h

theorem blameless_throw {e : OperationError} (h : e.blamesArguments = false) :
    Blameless (throw e : Settling α) := by
  intro e' he
  rwa [← Except.error.inj he]

theorem blameless_lift {outcome : Except OperationError α}
    (h : ∀ e, outcome = .error e → e.blamesArguments = false) : Blameless (lift outcome) := h

theorem Blameless.bind (h : Blameless m) (hf : ∀ a, Blameless (f a)) : Blameless (m >>= f) := by
  unfold Blameless
  rw [ExceptT.run_bind]
  apply Dialogue.Keeps.bind h
  intro outcome houtcome
  cases outcome with
  | error e =>
    intro e' he
    rw [← Except.error.inj he]
    exact houtcome e rfl
  | ok a => exact hf a

theorem blameless_when {p : Prop} [Decidable p] {m : Settling Unit} {next : Unit → Settling α}
    (h : Blameless m) (hnext : ∀ u, Blameless (next u)) :
    Blameless (if p then m >>= next else next ()) := by
  split
  · exact h.bind hnext
  · exact hnext ()

/-- A failure that is sorted under another head is none of the arguments. -/
theorem blamesArguments_of_mapError {ε : Type} {answer : Except ε α} {sort : ε → OperationError}
    (hsort : ∀ e, (sort e).blamesArguments = false) {e : OperationError}
    (h : answer.mapError sort = .error e) : e.blamesArguments = false := by
  cases answer with
  | ok a => cases h
  | error fault =>
    rw [← Except.error.inj h]
    exact hsort fault

theorem blameless_openSession {party : Party} : Blameless (openSession party) :=
  fun _ _ ↦ blamesArguments_of_mapError fun _ ↦ blamesArguments_ofNetwork

theorem blameless_ask {line : Line} {message : Message} : Blameless (ask line message) :=
  ⟨fun _ _ ↦ trivial, fun _ _ ↦ blamesArguments_of_mapError fun _ ↦ blamesArguments_ofNetwork⟩

theorem blameless_askForAck {line : Line} {message : Message} :
    Blameless (askForAck line message) :=
  ⟨fun _ _ ↦ trivial, fun _ _ ↦ blamesArguments_of_mapError fun _ ↦ blamesArguments_ofNetwork⟩

theorem blameless_finalise {t : Transaction} : Blameless (finalise t) :=
  ⟨trivial, fun _ _ ↦ blamesArguments_of_mapError fun _ ↦ blamesArguments_ofNotary⟩

theorem blameless_mapM {xs : List α} {f : α → Settling β} (h : ∀ x, Blameless (f x)) :
    Blameless (xs.mapM f) := by
  induction xs with
  | nil => exact blameless_pure
  | cons x xs ih =>
    rw [List.mapM_cons]
    exact (h x).bind fun _ ↦ ih.bind fun _ ↦ blameless_pure

theorem blameless_forM {xs : List α} {f : α → Settling Unit} (h : ∀ x, Blameless (f x)) :
    Blameless (xs.forM f) := by
  induction xs with
  | nil => exact blameless_pure
  | cons x xs ih =>
    change Blameless (f x >>= fun _ ↦ xs.forM f)
    exact (h x).bind fun _ ↦ ih

theorem blameless_foldlM {xs : List α} {f : β → α → Settling β} (h : ∀ b x, Blameless (f b x))
    {b : β} : Blameless (xs.foldlM f b) := by
  induction xs generalizing b with
  | nil => exact blameless_pure
  | cons x xs ih =>
    rw [List.foldlM_cons]
    exact (h b x).bind fun _ ↦ ih

/-! ### Once sessions are opened -/

theorem blameless_openSessions {roster : Roster} : Blameless (openSessions roster) := by
  refine blameless_mapM fun _ ↦ blameless_openSession.bind fun _ ↦ ?_
  exact blameless_askForAck.bind fun _ ↦ blameless_pure

variable [Cryptosystem]

theorem blameless_collect {required : List PublicKey} {t : Transaction} {s : OpenSession} :
    Blameless (collect required t s) := by
  unfold collect
  refine blameless_ask.bind fun reply ↦ ?_
  cases reply with
  | signatures endorsements =>
    refine blameless_lift fun e he ↦ ?_
    unfold acceptEndorsements at he
    split at he
    · cases he
    · rw [← Except.error.inj he]
      rfl
  | _ => exact blameless_throw blamesArguments_ofNetwork

theorem blameless_consult {required : List PublicKey} {given : Handover} {t : Transaction}
    {s : OpenSession} : Blameless (consult required given t s) := by
  unfold consult
  apply blameless_when blameless_askForAck
  intro _
  apply blameless_when blameless_askForAck
  intro _
  cases s.role with
  | signer => exact blameless_collect
  | observer => exact blameless_pure

/-! ### Settling a proposal -/

omit [Cryptosystem]

/-- Settling fails at once, or goes on without ever blaming the arguments. -/
def Prompt (m : Settling α) : Prop := (∃ e, m.run = .done (.error e)) ∨ Blameless m

theorem prompt_lift_bind {outcome : Except OperationError α}
    (h : ∀ a, outcome = .ok a → Prompt (f a)) : Prompt (lift outcome >>= f) := by
  cases outcome with
  | error e => exact .inl ⟨e, rfl⟩
  | ok a => exact h a rfl

/-- Whoever blames the arguments has done nothing. -/
theorem Prompt.acts_eq_nil {acts : List Act} {e : OperationError} (h : Prompt m)
    (hgoes : m.run.Goes acts (.error e)) (hblames : e.blamesArguments = true) : acts = [] := by
  rcases h with ⟨e', hdone⟩ | hblameless
  · rw [hdone] at hgoes
    exact (Dialogue.goes_done_iff.mp hgoes).1
  · rw [Dialogue.Keeps.of_goes hblameless hgoes e rfl] at hblames
    cases hblames

variable [Cryptosystem]

theorem prompt_settle {directory : Directory} {n : Node} {p : Proposal} :
    Prompt (settle directory n p) := by
  unfold settle
  apply prompt_lift_bind
  intro roster _
  apply prompt_lift_bind
  intro endorsed _
  apply prompt_lift_bind
  intro given _
  -- From here on others are involved.
  refine .inr (blameless_openSessions.bind fun sessions ↦ ?_)
  refine (blameless_foldlM fun _ _ ↦ blameless_consult).bind fun t ↦ ?_
  refine (blameless_lift fun _ ↦
    blamesArguments_of_mapError fun _ ↦ blamesArguments_ofTransaction).bind fun _ ↦ ?_
  refine blameless_finalise.bind fun final ↦ ?_
  exact (blameless_forM fun _ ↦ blameless_askForAck).bind fun _ ↦ blameless_pure

end Settling

/-! ### On a network -/

namespace Network

variable [Cryptosystem] {α : Type} {net : Network} {name : String} {salt : Block 32}
  {operation : Operation}

/-- All that is done, with the answers there are, when the node of a name goes through a
dialogue. -/
def acts (name : String) : Dialogue α → Network → List Peer → List Act
  | .done _, _, _ => []
  | .openSession party next, net, peers =>
    match net.connect? party with
    | some peer => .opens party (.ok ()) :: acts name (next (.ok ())) net (peers ++ [peer])
    | none =>
      let answer := .error (.peerNotFound party.name)
      .opens party answer :: acts name (next answer) net peers
  | .exchange line m next, net, peers =>
    match peers[line.number]? with
    | none =>
      let answer := .error (.sessionClosed line.party.name)
      .sends line m answer :: acts name (next answer) net peers
    | some peer =>
      let (net, peer, answer) := net.exchange line.party peer m
      .sends line m answer :: acts name (next answer) net (peers.set line.number peer)
  | .finalise t next, net, peers =>
    match net.notary.notarise t with
    | .error error => .finalises t (.error error) :: acts name (next (.error error)) net peers
    | .ok (notary, endorsement) =>
      let t' := t.endorse endorsement
      .finalises t (.ok t') ::
        acts name (next (.ok t')) ({ net with notary }.update name (·.record t')) peers

/-- A run is one of the ways through the dialogue. -/
theorem goes_acts {d : Dialogue α} {peers : List Peer} :
    d.Goes (acts name d net peers) (run name d net peers).2 := by
  induction d generalizing net peers with
  | done a => exact .done
  | openSession party next ih =>
    unfold run acts
    cases net.connect? party with
    | none => exact .openSession _ (ih _)
    | some peer => exact .openSession _ (ih _)
  | exchange line m next ih =>
    unfold run acts
    cases peers[line.number]? with
    | none => exact .exchange _ (ih _)
    | some peer => exact .exchange _ (ih _)
  | finalise t next ih =>
    unfold run acts
    cases net.notary.notarise t with
    | error e => exact .finalise _ (ih _)
    | ok signed => exact .finalise _ (ih _)

/-- Where nothing is done, nothing changes. -/
theorem run_eq_of_acts_eq_nil {d : Dialogue α} {peers : List Peer}
    (h : acts name d net peers = []) : (run name d net peers).1 = net := by
  cases d with
  | done a => rfl
  | openSession party next =>
    unfold acts at h
    split at h
    · cases h
    · cases h
  | exchange line m next =>
    unfold acts at h
    split at h
    · cases h
    · cases h
  | finalise t next =>
    unfold acts at h
    split at h
    · cases h
    · cases h

/-- All that is done when the node of a name does something. -/
def conduct (net : Network) (name : String) (salt : Block 32) (operation : Operation) : List Act :=
  match net.settlement? name salt operation with
  | some d => acts name d net []
  | none => []

theorem perform_eq_of_propose_eq_error {n : Node} {e : OperationError}
    (hnode : net.nodes[name]? = some n)
    (h : n.propose ⟨net.notary.party, salt⟩ operation = .error e) :
    net.perform name salt operation = some (net, .error e) := by
  unfold perform
  rw [hnode]
  simp only [Option.bind_eq_bind, Option.bind_some, h]
  rfl

/-- Either nothing comes to be settled, which is a failure and changes nothing, or the node goes
through the settlement. -/
theorem perform_cases {net' : Network} {outcome : Except OperationError Transaction}
    (h : net.perform name salt operation = some (net', outcome)) :
    net.settlement? name salt operation = none ∧ net' = net ∧ (∃ e, outcome = .error e) ∨
      ∃ d, net.settlement? name salt operation = some d ∧ run name d net [] = (net', outcome) := by
  unfold perform at h
  unfold settlement?
  cases hnode : net.nodes[name]? with
  | none =>
    rw [hnode] at h
    cases h
  | some n =>
    rw [hnode] at h
    simp only [Option.bind_eq_bind, Option.bind_some] at h
    cases hp : n.propose ⟨net.notary.party, salt⟩ operation with
    | error e =>
      rw [hp] at h
      obtain ⟨hsame, houtcome⟩ := Prod.mk.inj (Option.some.inj h)
      exact .inl ⟨by simp only [hp], hsame.symm, e, houtcome.symm⟩
    | ok p =>
      rw [hp] at h
      exact .inr ⟨_, by simp only [hp], Option.some.inj h⟩

/-- Whatever it would have been answered, an operation that blames its arguments has opened no
session and asked nobody anything, and everything is as it was. And it does blame them if an entity
that it was given differs from what the vault holds under the same reference, or if nothing is live
there. -/
theorem refusal {n : Node} (hnode : net.nodes[name]? = some n) (salt : Block 32)
    (operation : Operation) :
    (∀ net' e, net.perform name salt operation = some (net', .error e) →
      e.blamesArguments = true → net' = net ∧ net.conduct name salt operation = []) ∧
    (∀ d acts e, net.settlement? name salt operation = some d → d.Goes acts (.error e) →
      e.blamesArguments = true → acts = []) ∧
    ∀ e ∈ operation.given, n.ledger.vault.live? e.ref ≠ some e →
      ∃ fault, net.perform name salt operation = some (net, .error (.invalidArgument fault)) := by
  have hprompt : ∀ d acts e, net.settlement? name salt operation = some d →
      d.Goes acts (.error e) → e.blamesArguments = true → acts = [] := by
    intro d acts e hd hgoes hblames
    obtain ⟨node, p, -, -, rfl⟩ := settlement?_eq_some_iff.mp hd
    exact Settling.prompt_settle.acts_eq_nil hgoes hblames
  refine ⟨fun net' e hperform hblames ↦ ?_, hprompt, fun e he hlive ↦ ?_⟩
  · unfold conduct
    rcases perform_cases hperform with ⟨hnone, rfl, -⟩ | ⟨d, hd, hrun⟩
    · rw [hnone]
      exact ⟨rfl, rfl⟩
    · have hgoes : d.Goes (acts name d net []) (run name d net []).2 := goes_acts
      rw [hrun] at hgoes
      have hacts := hprompt d _ e hd hgoes hblames
      have hsame := run_eq_of_acts_eq_nil hacts
      rw [hrun] at hsame
      rw [hd]
      exact ⟨hsame, hacts⟩
  · obtain ⟨fault, hdraft⟩ : ∃ fault, n.draft ⟨net.notary.party, salt⟩ operation =
        .error (.invalidArgument fault) := Node.exists_draft_eq he hlive
    refine ⟨fault, perform_eq_of_propose_eq_error hnode ?_⟩
    unfold Node.propose
    rw [hdraft]
    rfl

omit [Cryptosystem]

open Activity Undelivered in
/-- An asset is not exited when it is handed in with other participants than it has. -/
theorem refusal_doctored :
    ∃ asset given fault, issued.ledger.vault.live? asset.ref = some asset ∧
      given.ref = asset.ref ∧ given.entity.payload = asset.entity.payload ∧
      @perform .clear Undelivered.net "Holder" (.replicate 32 2) (.exit given) =
        some (Undelivered.net, .error (.invalidArgument fault)) ∧
      @conduct .clear Undelivered.net "Holder" (.replicate 32 2) (.exit given) = [] := by
  have hnode : Undelivered.net.nodes["Holder"]? = some issued := Std.TreeMap.getElem?_insert_self
  have hheld : issued.ledger.vault.live.any (·.entity.participants != []) = true := by
    decide +kernel
  obtain ⟨asset, hmem, hparticipants⟩ := List.any_eq_true.mp hheld
  have hlive := Vault.mem_live_iff.mp hmem
  let given : Located := ⟨{ asset.entity with participants := [] }, asset.ref⟩
  have hdiffers : issued.ledger.vault.live? given.ref ≠ some given := by
    rw [show given.ref = asset.ref from rfl, hlive]
    intro hsame
    have hnone : asset.entity.participants = [] :=
      congrArg (·.entity.participants) (Option.some.inj hsame)
    rw [hnone] at hparticipants
    cases hparticipants
  obtain ⟨hconsequences, -, hblames⟩ :=
    @refusal .clear Undelivered.net "Holder" issued hnode (.replicate 32 2) (.exit given)
  obtain ⟨fault, hperform⟩ := hblames given List.mem_cons_self hdiffers
  exact ⟨asset, given, fault, hlive, rfl, rfl, hperform, (hconsequences _ _ hperform rfl).2⟩

end Network

end Custody
