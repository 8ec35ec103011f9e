import Custody.Proofs.Node.Activity
import Custody.Proofs.Rules.Consumption

/-!
# What the answering side of a session does

Every message that is understood gets one reply, from the role flag on and through the first
transaction that is handed out as finalised; a first message that is no role flag is refused, and
that is all. Only a reply that does not fit into a frame is not sent, and ends the session. Nothing
changes at the node but by what a later message hands over, and it signs only what it has just found
to obey the rules, with every required key it holds.
-/

namespace Custody

/-! ### The course of a session -/

/-- Where a session stands after a message, as long as replies can be sent. -/
def Phase.after : Phase → Message → Phase
  | .awaitingRole, .role signer => .serving (.ofFlag signer)
  | .awaitingRole, _ => .ended
  | .serving _, .finalised _ => .ended
  | .serving role, _ => .serving role
  | .ended, _ => .ended

namespace Phase

variable {ms : List Message} {role role' : SessionRole}

theorem foldl_after_ended : ms.foldl after .ended = .ended := by
  induction ms with
  | nil => rfl
  | cons m ms ih => exact ih

/-- The role of a session stays. -/
theorem eq_of_foldl_after (h : ms.foldl after (.serving role) = .serving role') : role = role' := by
  induction ms with
  | nil => exact serving.inj h
  | cons m ms ih =>
    cases m with
    | finalised t => exact nomatch foldl_after_ended.symm.trans h
    | _ => exact ih h

/-- A session that serves a role was opened with the flag of the role. -/
theorem head?_of_foldl_after (h : ms.foldl after .awaitingRole = .serving role) :
    ms.head? = some (.role role.flag) := by
  cases ms with
  | nil => cases h
  | cons m ms =>
    cases m with
    | role signer =>
      rw [← eq_of_foldl_after h]
      cases signer with
      | false => rfl
      | true => rfl
    | _ => exact nomatch foldl_after_ended.symm.trans h

end Phase

namespace Message

/-- The messages among frames that are due a reply: all that come before the end of the session and
before the first frame that is not understood. -/
def due : Phase → List Bytes → List Message
  | .ended, _ => []
  | _, [] => []
  | phase, frame :: frames =>
    match ofFrame frame with
    | .error _ => []
    | .ok m => m :: due (phase.after m) frames

/-- The messages that hand something over. -/
def handsOver : Message → Bool
  | history _ | attachments _ | finalised _ => true
  | role _ | signRequest _ | signatures _ | ack | rejected _ => false

/-- The replies that suit a message. -/
inductive Suits : Phase → Message → Message → Prop
  | opened {signer : Bool} : Suits .awaitingRole (.role signer) .ack
  | agreed {role : SessionRole} {m : Message} (h : m.handsOver = true) :
      Suits (.serving role) m .ack
  | signed {t : Transaction} {endorsements : List Endorsement} :
      Suits (.serving .signer) (.signRequest t) (.signatures endorsements)
  | refused {phase : Phase} {m : Message} {reason : String}
      (h : phase = .awaitingRole → ∀ signer, m ≠ .role signer) : Suits phase m (.rejected reason)

/-- Replies that suit the first messages of a session, one for each and in order. -/
inductive Answered : Phase → List Message → List Message → Prop
  | nil {phase : Phase} {ms : List Message} : Answered phase ms []
  | cons {phase : Phase} {m reply : Message} {ms replies : List Message} (h : Suits phase m reply)
      (hrest : Answered (phase.after m) ms replies) : Answered phase (m :: ms) (reply :: replies)

variable {m : Message} {frame : Bytes} {frames : List Bytes} {phase : Phase}

theorem due_ended : due .ended frames = [] := by
  unfold due
  rfl

theorem due_nil : due phase [] = [] := by
  cases phase with
  | _ => rfl

theorem due_cons (hphase : phase ≠ .ended) (hm : ofFrame frame = .ok m) :
    due phase (frame :: frames) = m :: due (phase.after m) frames := by
  cases phase with
  | ended => exact absurd rfl hphase
  | _ => simp only [due, hm]

theorem due_cons_of_silent (h : phase = .ended ∨ ∃ e, ofFrame frame = .error e) :
    due phase (frame :: frames) = [] := by
  rcases h with rfl | ⟨e, h⟩
  · exact due_ended
  · cases phase with
    | ended => exact due_ended
    | _ => simp only [due, h]

end Message

/-! ### One message -/

namespace Node

variable [Cryptosystem] {n n' : Node} {phase phase' : Phase} {m reply : Message} {frame : Bytes}

/-- What a node says to a message. -/
structure Replies (n : Node) (phase : Phase) (m reply : Message) : Prop where
  respond_eq : (n.respond phase m).2.2 = some reply
  suits : Message.Suits phase m reply

theorem Replies.phase_ne (h : n.Replies phase m reply) : phase ≠ .ended := by
  rintro rfl
  exact nomatch h.respond_eq

/-- A session is opened or refused in a few bytes. -/
theorem Replies.length_le_of_awaitingRole (h : n.Replies .awaitingRole m reply) :
    (encode reply).length ≤ Message.maxSize := by
  have hreply := h.respond_eq
  cases m with
  | role signer =>
    rw [← Option.some.inj hreply]
    decide
  | _ =>
    rw [← Option.some.inj hreply]
    decide

theorem phase_respond : (n.respond phase m).2.1 = phase.after m := by
  cases phase with
  | awaitingRole => cases m <;> rfl
  | ended => rfl
  | serving role =>
    cases m with
    | finalised t =>
      unfold respond serve
      simp only
      cases n.receive t <;> rfl
    | signRequest t =>
      unfold respond serve
      cases role with
      | observer => rfl
      | signer =>
        simp only
        cases n.endorsementsFor t <;> rfl
    | _ => rfl

omit [Cryptosystem] in
theorem suits_ofOutcome {role : SessionRole} {outcome : Except OperationError Unit}
    (h : m.handsOver = true) : Message.Suits (.serving role) m (.ofOutcome outcome) := by
  cases outcome with
  | ok u => exact .agreed h
  | error e => exact .refused nofun

/-- A session that has not ended has a reply to every message. -/
theorem exists_replies (hphase : phase ≠ .ended) : ∃ reply, n.Replies phase m reply := by
  cases phase with
  | ended => exact absurd rfl hphase
  | awaitingRole =>
    cases m with
    | role signer => exact ⟨_, rfl, .opened⟩
    | _ => exact ⟨_, rfl, .refused fun _ _ ↦ nofun⟩
  | serving role =>
    refine ⟨(n.serve role m).2.2, rfl, ?_⟩
    unfold serve
    cases m with
    | history ts => exact suits_ofOutcome rfl
    | attachments blobs => exact .agreed rfl
    | signRequest t =>
      cases role with
      | observer => exact .refused nofun
      | signer =>
        simp only
        split
        · exact .signed
        · exact .refused nofun
    | finalised t =>
      simp only
      split
      · exact .agreed rfl
      · exact .refused nofun
    | _ => exact .refused nofun

theorem replies_ack_role {signer : Bool} : n.Replies .awaitingRole (.role signer) .ack :=
  ⟨rfl, .opened⟩

theorem replies_rejected_of_endorsementsFor {t : Transaction} {e : OperationError}
    (h : n.endorsementsFor t = .error e) :
    n.Replies (.serving .signer) (.signRequest t) (.rejected e.message) := by
  refine ⟨?_, .refused nofun⟩
  simp only [respond, serve, h]

/-- Only what is handed over in a session that is open changes anything. -/
theorem respond_eq_self (h : m.handsOver = true → ∀ role, phase ≠ .serving role) :
    (n.respond phase m).1 = n := by
  cases phase with
  | ended => rfl
  | awaitingRole => cases m <;> rfl
  | serving role =>
    have hnot : m.handsOver ≠ true := fun hands ↦ h hands role rfl
    cases m with
    | history ts => exact absurd rfl hnot
    | attachments blobs => exact absurd rfl hnot
    | finalised t => exact absurd rfl hnot
    | signRequest t =>
      unfold respond serve
      cases role with
      | observer => rfl
      | signer =>
        simp only
        cases n.endorsementsFor t <;> rfl
    | _ => rfl

/-! ### One frame -/

/-- What may come of a frame: the node and the phase afterwards, and what is sent. -/
inductive Reacts (n : Node) (phase : Phase) (frame : Bytes) : Node → Phase → Option Bytes → Prop
  /-- The session has ended, or ends as the frame is not understood. -/
  | silent (h : phase = .ended ∨ ∃ e, Message.ofFrame frame = .error e) :
      Reacts n phase frame n .ended none
  | sent {m reply : Message} (hm : Message.ofFrame frame = .ok m)
      (hreplies : n.Replies phase m reply) (hsize : (encode reply).length ≤ Message.maxSize) :
      Reacts n phase frame (n.respond phase m).1 (phase.after m) (some (encode reply))
  /-- The session ends as the reply does not fit into a frame. -/
  | unsent {m reply : Message} (hm : Message.ofFrame frame = .ok m)
      (hreplies : n.Replies phase m reply) (hsize : Message.maxSize < (encode reply).length) :
      Reacts n phase frame (n.respond phase m).1 .ended none

/-- An answer travels as a frame does. -/
theorem respondToFrame_of_respond {answer : Bytes} (hframe : m.toFrame = .ok frame)
    (hanswer : reply.toFrame = .ok answer) (h : n.respond phase m = (n', phase', some reply)) :
    n.respondToFrame phase frame = (n', phase', some answer) := by
  unfold respondToFrame
  rw [Message.ofFrame_eq_ok_iff.mpr hframe]
  simp only [h, hanswer]

theorem Replies.respond_eq_mk (h : n.Replies phase m reply) :
    n.respond phase m = ((n.respond phase m).1, phase.after m, some reply) := by
  rw [← h.respond_eq, ← @phase_respond _ n]

theorem Replies.respondToFrame_of_le (h : n.Replies phase m reply)
    (hm : Message.ofFrame frame = .ok m) (hsize : (encode reply).length ≤ Message.maxSize) :
    n.respondToFrame phase frame =
      ((n.respond phase m).1, phase.after m, some (encode reply)) :=
  respondToFrame_of_respond (Message.ofFrame_eq_ok_iff.mp hm) (Message.toFrame_of_length_le hsize)
    h.respond_eq_mk

/-- A reply that is too long is not sent, and nothing is after it. -/
theorem Replies.respondToFrame_of_lt (h : n.Replies phase m reply)
    (hm : Message.ofFrame frame = .ok m) (hsize : Message.maxSize < (encode reply).length) :
    n.respondToFrame phase frame = ((n.respond phase m).1, .ended, none) := by
  unfold respondToFrame
  rw [hm]
  simp only
  rw [h.respond_eq_mk]
  simp only [Message.toFrame, if_neg (Nat.not_le_of_lt hsize)]

theorem exists_reacts (n : Node) (phase : Phase) (frame : Bytes) :
    ∃ n' phase' answer, n.respondToFrame phase frame = (n', phase', answer) ∧
      n.Reacts phase frame n' phase' answer := by
  cases hm : Message.ofFrame frame with
  | error e =>
    refine ⟨n, .ended, none, ?_, .silent (.inr ⟨e, hm⟩)⟩
    unfold respondToFrame
    rw [hm]
  | ok m =>
  by_cases hphase : phase = .ended
  · refine ⟨n, .ended, none, ?_, .silent (.inl hphase)⟩
    unfold respondToFrame
    rw [hm, hphase]
    rfl
  obtain ⟨reply, hreplies⟩ := exists_replies (n := n) (m := m) hphase
  rcases Nat.lt_or_ge Message.maxSize (encode reply).length with hsize | hsize
  · exact ⟨_, _, _, hreplies.respondToFrame_of_lt hm hsize, .unsent hm hreplies hsize⟩
  · exact ⟨_, _, _, hreplies.respondToFrame_of_le hm hsize, .sent hm hreplies hsize⟩

end Node

/-! ### Signing -/

namespace Keyring

variable [Cryptosystem] {k : Keyring} {seed : Seed}

theorem endorse_eq_ok_iff {key : PublicKey} {id : TransactionId} {e : Endorsement} :
    k.endorse key id = .ok e ↔ ∃ seed, k[key]? = some seed ∧ .make seed key id = e := by
  unfold endorse
  cases k[key]? with
  | none => simp
  | some seed => simp

/-- Every seed is kept under its own key. -/
def Genuine (k : Keyring) : Prop :=
  ∀ (key : PublicKey) (seed : Seed), k[key]? = some seed → Cryptosystem.publicKey seed = key

theorem genuine_empty : Genuine ∅ := fun _ _ h ↦ nomatch Std.TreeMap.getElem?_emptyc.symm.trans h

theorem Genuine.add (h : k.Genuine) : (k.add seed).Genuine := by
  intro key held hheld
  unfold Keyring.add at hheld
  rw [Std.TreeMap.getElem?_insert] at hheld
  split at hheld
  · rename_i hkey
    rw [← Option.some.inj hheld]
    exact Std.LawfulEqCmp.eq_of_compare hkey
  · exact h key held hheld

end Keyring

namespace Node

variable [Cryptosystem] {n : Node} {t : Transaction} {endorsements : List Endorsement}

/-- What a node that signs has made sure of, and the endorsements it gives: one for every required
key that it holds. -/
structure Signs (n : Node) (t : Transaction) (endorsements : List Endorsement) : Prop where
  id_eq : t.content.id = t.id
  exists_check : ∃ inputs, n.ledger.archive.resolveInputs t.content = .ok inputs ∧
    Rules.check t.content inputs n.attachments = .ok ()
  signer_iff : ∀ key, key ∈ endorsements.map Endorsement.signer ↔
    key ∈ t.content.requiredKeys ∧ n.keyring.owns key = true
  nodup : (endorsements.map Endorsement.signer).Nodup
  ne_nil : endorsements ≠ []
  isValid : ∀ e ∈ endorsements, e.isValidFor t.id = true

theorem signs_of_endorsementsFor [Cryptosystem.SignsVerifiably] (hkeyring : n.keyring.Genuine)
    (h : n.endorsementsFor t = .ok endorsements) : n.Signs t endorsements := by
  obtain ⟨_, hid, h⟩ := Outcome.bind_eq_ok_iff.mp h
  obtain ⟨_, hjudge, h⟩ := Outcome.bind_eq_ok_iff.mp h
  obtain ⟨made, hmade, h⟩ := Outcome.bind_eq_ok_iff.mp h
  obtain ⟨hsome, h⟩ := Outcome.ite_error_eq_ok_iff.mp h
  obtain rfl := Outcome.pure_eq_ok_iff.mp h
  have hmade : List.Forall₂ (fun key e ↦ ∃ seed, n.keyring[key]? = some seed ∧
      .make seed key t.id = e) (t.content.requiredKeys.filter n.keyring.owns) made := by
    simpa only [Outcome.mapError_eq_ok_iff, Keyring.endorse_eq_ok_iff]
      using Outcome.mapM_eq_ok_iff.mp hmade
  have hsigners : made.map Endorsement.signer =
      t.content.requiredKeys.filter n.keyring.owns := by
    rw [← List.forall₂_eq_eq_eq, List.forall₂_map_left_iff]
    refine hmade.flip.imp fun e key hmake ↦ ?_
    obtain ⟨seed, -, rfl⟩ := hmake
    rfl
  refine ⟨Transaction.checkId_eq_ok_iff.mp (Outcome.mapError_eq_ok_iff.mp hid),
    judge_eq_ok_iff.mp hjudge, fun key ↦ ?_, ?_, ?_, fun e he ↦ ?_⟩
  · rw [hsigners, List.mem_filter]
  · rw [hsigners]
    exact nodup_ascending.filter _
  · simpa using hsome
  · obtain ⟨key, -, seed, hseed, rfl⟩ := Outcome.exists_of_mem_right hmade he
    rw [← hkeyring key seed hseed]
    exact Endorsement.isValidFor_make

theorem endorsementsFor_of_judge {e : OperationError} (hid : t.content.id = t.id)
    (hjudge : n.judge t.content = .error e) : n.endorsementsFor t = .error e := by
  have hcheck : t.checkId = .ok () := Transaction.checkId_eq_ok_iff.mpr hid
  unfold endorsementsFor
  rw [hcheck, hjudge]
  rfl

/-- Signatures are sent only to a signer's request, and only if the node signs. -/
theorem Reacts.signs [Cryptosystem.SignsVerifiably] {phase phase' : Phase} {n' : Node}
    {frame answer : Bytes} (h : n.Reacts phase frame n' phase' (some answer))
    (hanswer : Message.ofFrame answer = .ok (.signatures endorsements))
    (hkeyring : n.keyring.Genuine) :
    phase = .serving .signer ∧ ∃ t, Message.ofFrame frame = .ok (.signRequest t) ∧
      n.Signs t endorsements := by
  cases h with
  | @sent m reply hm hreplies hsize =>
    have hreply : Message.ofFrame (encode reply) = .ok reply :=
      Message.ofFrame_eq_ok_iff.mpr (Message.toFrame_of_length_le hsize)
    obtain rfl := Except.ok.inj (hreply.symm.trans hanswer)
    cases hreplies.suits with
    | @signed t _ =>
      refine ⟨rfl, t, hm, signs_of_endorsementsFor hkeyring ?_⟩
      have hsaid := hreplies.respond_eq
      unfold respond serve at hsaid
      simp only at hsaid
      split at hsaid
      · rename_i hendorsements
        rw [hendorsements]
        simpa using hsaid
      · cases hsaid

/-- Only what is handed over in a session that is open changes anything. -/
theorem Reacts.eq_or_handsOver {phase phase' : Phase} {n' : Node} {frame : Bytes}
    {answer : Option Bytes} (h : n.Reacts phase frame n' phase' answer) :
    n' = n ∨ ∃ m role, Message.ofFrame frame = .ok m ∧ m.handsOver = true ∧
      phase = .serving role := by
  have hself {m : Message} (hm : Message.ofFrame frame = .ok m) :
      (n.respond phase m).1 = n ∨ ∃ m role, Message.ofFrame frame = .ok m ∧ m.handsOver = true ∧
        phase = .serving role := by
    rw [or_iff_not_imp_right]
    intro hnone
    exact respond_eq_self fun hands role hrole ↦ hnone ⟨m, role, hm, hands, hrole⟩
  cases h with
  | silent h => exact .inl rfl
  | sent hm hreplies hsize => exact hself hm
  | unsent hm hreplies hsize => exact hself hm

end Node

end Custody
