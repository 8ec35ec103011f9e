import Custody.Proofs.Node.Private
import Custody.Proofs.Respondent

/-!
# A session from its first frame to its last

Frames come in one after the other, and anything may happen to the node in between. The messages
that are due a reply get one each, in order, up to one whose reply does not fit into a frame, if
there is such a one; after that nothing is answered and nothing changes. A role flag is agreed to
only where it opens the session.
-/

namespace Custody

/-- A frame that comes in, after whatever else has happened to the node. -/
structure Arrival where
  meanwhile : List Event
  frame : Bytes

/-- What came of a frame: the node and the phase that it met, the node afterwards, and what was
sent. -/
structure Heard where
  before : Node
  phase : Phase
  frame : Bytes
  after : Node
  reply : Option Bytes

variable [Cryptosystem]

namespace Activity

/-- Frames come in in a session. -/
def hear (s : Activity) (phase : Phase) : List Arrival → List Heard
  | [] => []
  | arrival :: arrivals =>
    let s := s.run arrival.meanwhile
    match s.node.respondToFrame phase arrival.frame with
    | (node, phase', reply) =>
      ⟨s.node, phase, arrival.frame, node, reply⟩ :: hear { s with node } phase' arrivals

variable {s : Activity} {phase phase' : Phase} {arrival : Arrival} {arrivals : List Arrival}
  {node : Node} {reply : Option Bytes} {h : Heard}

theorem length_hear : (s.hear phase arrivals).length = arrivals.length := by
  induction arrivals generalizing s phase with
  | nil => rfl
  | cons arrival arrivals ih => exact congrArg Nat.succ ih

theorem hear_cons
    (h : (s.run arrival.meanwhile).node.respondToFrame phase arrival.frame =
      (node, phase', reply)) :
    s.hear phase (arrival :: arrivals) =
      ⟨(s.run arrival.meanwhile).node, phase, arrival.frame, node, reply⟩ ::
        hear { s.run arrival.meanwhile with node } phase' arrivals := by
  rw [hear]
  simp only [h]

/-! ### The node -/

/-- What a frame makes of a node is something that it may live through. -/
theorem exists_run_eq {frame : Bytes} (h : s.node.Reacts phase frame node phase' reply) :
    ∃ events, { s with node } = s.run events := by
  cases h with
  | silent _ => exact ⟨[], rfl⟩
  | @sent m _ _ _ _ => exact ⟨[.served phase m], rfl⟩
  | @unsent m _ _ _ _ => exact ⟨[.served phase m], rfl⟩

/-- Every frame meets the node in a state that it may live to see. -/
theorem exists_run_of_mem_hear (hmem : h ∈ s.hear phase arrivals) :
    (∃ events, h.before = (s.run events).node) ∧
      ∃ phase', h.before.Reacts h.phase h.frame h.after phase' h.reply := by
  induction arrivals generalizing s phase with
  | nil => exact absurd hmem List.not_mem_nil
  | cons arrival arrivals ih =>
    obtain ⟨node, phase', reply, hres, hreacts⟩ :=
      (s.run arrival.meanwhile).node.exists_reacts phase arrival.frame
    rw [hear_cons hres] at hmem
    rcases List.mem_cons.mp hmem with rfl | hmem
    · exact ⟨⟨arrival.meanwhile, rfl⟩, phase', hreacts⟩
    · obtain ⟨events, hnode⟩ := exists_run_eq hreacts
      rw [hnode] at hmem
      obtain ⟨⟨later, hbefore⟩, hlater⟩ := ih hmem
      refine ⟨⟨arrival.meanwhile ++ (events ++ later), ?_⟩, hlater⟩
      rw [hbefore, run_append, run_append]

/-! ### Replies -/

theorem hear_ended (hmem : h ∈ s.hear .ended arrivals) : h.phase = .ended ∧ h.reply = none := by
  induction arrivals generalizing s with
  | nil => exact absurd hmem List.not_mem_nil
  | cons arrival arrivals ih =>
    obtain ⟨node, phase', reply, hres, hreacts⟩ :=
      (s.run arrival.meanwhile).node.exists_reacts .ended arrival.frame
    rw [hear_cons hres] at hmem
    cases hreacts with
    | silent _ =>
      rcases List.mem_cons.mp hmem with rfl | hmem
      · exact ⟨rfl, rfl⟩
      · exact ih hmem
    | sent _ hreplies _ => exact absurd rfl hreplies.phase_ne
    | unsent _ hreplies _ => exact absurd rfl hreplies.phase_ne

theorem map_reply_hear_ended :
    (s.hear .ended arrivals).map Heard.reply = List.replicate arrivals.length none := by
  rw [List.eq_replicate_iff, List.length_map, length_hear]
  refine ⟨rfl, fun reply hreply ↦ ?_⟩
  obtain ⟨h, hmem, rfl⟩ := List.mem_map.mp hreply
  exact (hear_ended hmem).2

/-- The messages that are due a reply get a suitable one each, in order, unless there is one whose
reply does not fit into a frame: then that gets none, and neither does anything after it. -/
theorem exists_answered (s : Activity) (phase : Phase) (arrivals : List Arrival) :
    let log := s.hear phase arrivals
    let due := Message.due phase (arrivals.map Arrival.frame)
    ∃ replies, Message.Answered phase due replies ∧
      log.map Heard.reply = replies.map (fun reply ↦ some (encode reply)) ++
        List.replicate (arrivals.length - replies.length) none ∧
      (replies.length = due.length ∨ ∃ h m reply, log[replies.length]? = some h ∧
        Message.ofFrame h.frame = .ok m ∧ h.before.Replies h.phase m reply ∧
        Message.maxSize < (encode reply).length) := by
  induction arrivals generalizing s phase with
  | nil =>
    rw [List.map_nil, Message.due_nil]
    exact ⟨[], .nil, rfl, .inl rfl⟩
  | cons arrival arrivals ih =>
    obtain ⟨node, phase', reply, hres, hreacts⟩ :=
      (s.run arrival.meanwhile).node.exists_reacts phase arrival.frame
    rw [List.map_cons, hear_cons hres]
    simp only [List.map_cons]
    cases hreacts with
    | silent hsilent =>
      rw [Message.due_cons_of_silent hsilent, map_reply_hear_ended]
      exact ⟨[], .nil, rfl, .inl rfl⟩
    | @unsent m reply hm hreplies hsize =>
      rw [Message.due_cons hreplies.phase_ne hm, map_reply_hear_ended]
      exact ⟨[], .nil, rfl, .inr ⟨_, m, reply, rfl, hm, hreplies, hsize⟩⟩
    | @sent m reply hm hreplies hsize =>
      rw [Message.due_cons hreplies.phase_ne hm]
      obtain ⟨replies, hanswered, hlog, hrest⟩ :=
        ih { s.run arrival.meanwhile with node := _ } (phase.after m)
      refine ⟨reply :: replies, .cons hreplies.suits hanswered, ?_, ?_⟩
      · rw [hlog, List.length_cons, List.length_cons, Nat.add_sub_add_right]
        rfl
      · exact hrest.imp (congrArg Nat.succ) fun h ↦ h

/-! ### Phases -/

/-- As long as a session has not ended, its phase comes from the messages so far, and the message
that is understood next is due a reply. -/
theorem phase_of_getElem?_hear {index : Nat} {m : Message}
    (hindex : (s.hear phase arrivals)[index]? = some h) (hphase : h.phase ≠ .ended)
    (hm : Message.ofFrame h.frame = .ok m) :
    let due := Message.due phase (arrivals.map Arrival.frame)
    due[index]? = some m ∧ h.phase = (due.take index).foldl Phase.after phase := by
  induction arrivals generalizing s phase index with
  | nil => cases hindex
  | cons arrival arrivals ih =>
    obtain ⟨node, phase', reply, hres, hreacts⟩ :=
      (s.run arrival.meanwhile).node.exists_reacts phase arrival.frame
    rw [hear_cons hres] at hindex
    cases index with
    | zero =>
      obtain rfl := Option.some.inj hindex
      rw [List.map_cons, Message.due_cons hphase hm]
      exact ⟨rfl, rfl⟩
    | succ index =>
      rw [List.getElem?_cons_succ] at hindex
      cases hreacts with
      | silent _ => exact absurd (hear_ended (List.mem_of_getElem? hindex)).1 hphase
      | unsent _ _ _ => exact absurd (hear_ended (List.mem_of_getElem? hindex)).1 hphase
      | sent hfirst hreplies _ =>
        rw [List.map_cons, Message.due_cons hreplies.phase_ne hfirst]
        exact ih hindex

/-- What changes anything is a message that hands something over, due a reply and not the first. -/
theorem eq_or_handsOver {index : Nat}
    (hindex : (s.hear .awaitingRole arrivals)[index]? = some h) :
    h.after = h.before ∨ 0 < index ∧ ∃ m,
      (Message.due .awaitingRole (arrivals.map Arrival.frame))[index]? = some m ∧
        m.handsOver = true := by
  obtain ⟨-, phase', hreacts⟩ := exists_run_of_mem_hear (List.mem_of_getElem? hindex)
  rcases hreacts.eq_or_handsOver with hsame | ⟨m, role, hm, hands, hrole⟩
  · exact .inl hsame
  · obtain ⟨hdue, hphase⟩ := phase_of_getElem?_hear hindex (hrole ▸ nofun) hm
    refine .inr ⟨Nat.pos_of_ne_zero ?_, m, hdue, hands⟩
    rintro rfl
    exact nomatch hphase.symm.trans hrole

/-- After the role flag nothing is sent for a message whose reply is too long. -/
theorem reply_eq_none_of_replies {opening frame : Bytes} {signer : Bool} {m reply : Message}
    (hopening : Message.ofFrame opening = .ok (.role signer)) (hm : Message.ofFrame frame = .ok m)
    (hreplies : s.node.Replies (.serving (.ofFlag signer)) m reply)
    (hsize : Message.maxSize < (encode reply).length)
    (hindex : (s.hear .awaitingRole [⟨[], opening⟩, ⟨[], frame⟩])[1]? = some h) :
    h.reply = none := by
  have hopened : s.node.respondToFrame .awaitingRole opening =
      (s.node, .serving (.ofFlag signer), some (encode Message.ack)) :=
    Node.replies_ack_role.respondToFrame_of_le hopening (by decide)
  have hended := hreplies.respondToFrame_of_lt hm hsize
  have hfirst : s.hear .awaitingRole [⟨[], opening⟩, ⟨[], frame⟩] =
      ⟨s.node, .awaitingRole, opening, s.node, some (encode Message.ack)⟩ ::
        s.hear (.serving (.ofFlag signer)) [⟨[], frame⟩] := hear_cons hopened
  have hsecond : s.hear (.serving (.ofFlag signer)) [⟨[], frame⟩] =
      [⟨s.node, .serving (.ofFlag signer), frame, (s.node.respond _ m).1, none⟩] := hear_cons hended
  rw [hfirst, hsecond] at hindex
  rw [← Option.some.inj hindex]

/-! ### From the first frame to the last -/

theorem lasts_genuine : Node.Lasts (fun n ↦ n.keyring.Genuine) fun _ ↦ True where
  record h _ _ := h
  attach h := h
  propose _ _ _ _ _ _ _ _ _ := trivial

theorem genuine_run {settings : NodeSettings} {identity : Seed} {further : List Seed}
    {events : List Event} :
    ((start (Node.new settings identity further)).run events).node.keyring.Genuine := by
  have hnew : (Node.new settings identity further).keyring.Genuine :=
    List.foldlRecOn (motive := Keyring.Genuine) _ _ Keyring.genuine_empty fun _ h _ _ ↦ h.add
  exact (Upholds.run lasts_genuine (upholds_start hnew) fun event _ ↦
    event.suits_of_forall fun _ _ ↦ trivial).node

/-- Whatever a node has lived through before a session and lives through in the meantime: the
messages that are due a reply get one each, which suits them, in order, unless a reply after the
first does not fit into a frame, which ends the session; signatures are given only in a session that
was opened for a signer, for what the node has just found to obey the rules; and nothing changes but
by what is handed over after the role flag. -/
theorem session_answered [Cryptosystem.SignsVerifiably] (settings : NodeSettings) (identity : Seed)
    (further : List Seed) (events : List Event) (arrivals : List Arrival) :
    let s := (start (Node.new settings identity further)).run events
    let log := s.hear .awaitingRole arrivals
    let due := Message.due .awaitingRole (arrivals.map Arrival.frame)
    (∃ replies, Message.Answered .awaitingRole due replies ∧
      log.map Heard.reply = replies.map (fun reply ↦ some (encode reply)) ++
        List.replicate (arrivals.length - replies.length) none ∧
      (replies.length = due.length ∨ 0 < replies.length ∧ ∃ h m reply,
        log[replies.length]? = some h ∧ Message.ofFrame h.frame = .ok m ∧
        h.before.Replies h.phase m reply ∧ Message.maxSize < (encode reply).length)) ∧
    (∀ h ∈ log, ∀ answer endorsements, h.reply = some answer →
      Message.ofFrame answer = .ok (.signatures endorsements) →
      due.head? = some (.role true) ∧
        ∃ t, Message.ofFrame h.frame = .ok (.signRequest t) ∧ h.before.Signs t endorsements) ∧
    ∀ index h, log[index]? = some h → h.after = h.before ∨
      0 < index ∧ ∃ m, due[index]? = some m ∧ m.handsOver = true := by
  intro s log due
  refine ⟨?_, ?_, fun index h ↦ eq_or_handsOver⟩
  · obtain ⟨replies, hanswered, hlog, hrest⟩ := exists_answered s .awaitingRole arrivals
    refine ⟨replies, hanswered, hlog, hrest.imp_right ?_⟩
    rintro ⟨h, m, reply, hindex, hm, hreplies, hsize⟩
    refine ⟨Nat.pos_of_ne_zero fun hzero ↦ ?_, h, m, reply, hindex, hm, hreplies, hsize⟩
    -- Opening a session is agreed to or refused in a few words.
    obtain ⟨-, hphase⟩ := phase_of_getElem?_hear hindex hreplies.phase_ne hm
    rw [hzero] at hphase
    rw [hphase] at hreplies
    exact Nat.not_lt_of_le hreplies.length_le_of_awaitingRole hsize
  · intro h hmem answer endorsements hreply hanswer
    obtain ⟨⟨later, hbefore⟩, phase', hreacts⟩ := exists_run_of_mem_hear hmem
    have hkeyring : h.before.keyring.Genuine := by
      rw [hbefore, ← run_append]
      exact genuine_run
    rw [hreply] at hreacts
    obtain ⟨hphase, t, hm, hsigns⟩ := hreacts.signs hanswer hkeyring
    refine ⟨?_, t, hm, hsigns⟩
    obtain ⟨index, hindex⟩ := List.mem_iff_getElem?.mp hmem
    obtain ⟨-, hfold⟩ := phase_of_getElem?_hear hindex (hphase ▸ nofun) hm
    rw [hphase] at hfold
    have hhead := Phase.head?_of_foldl_after hfold.symm
    rw [List.head?_take] at hhead
    split at hhead
    · cases hhead
    · exact hhead

omit [Cryptosystem]

/-! ### A request that is signed -/

namespace Exit

open Trial (seed notary)

/-- The holder opens a session as a signer and asks to have what the holder has issued exited. -/
def requests : List Arrival :=
  let node := (@run .clear (start (@Node.new .clear settings (seed 2) [])) issue).node
  ⟨[], encode (Message.role true)⟩ :: node.ledger.vault.live.filterMap fun asset ↦
    (@Node.draft .clear node ⟨notary, .replicate 32 2⟩ (.exit asset)).toOption.map fun p ↦
      ⟨[], encode (Message.signRequest (@Transaction.ofContent .clear p.content))⟩

def heard : List Heard :=
  @hear .clear (@run .clear (start (@Node.new .clear settings (seed 2) [])) issue) .awaitingRole
    requests

/-- What was heard asks for signatures under a transaction that consumes something, and got them. -/
def isSigned (h : Heard) : Bool :=
  match h.reply.map Message.ofFrame, Message.ofFrame h.frame with
  | some (.ok (.signatures _)), .ok (.signRequest t) => !t.content.inputs.isEmpty
  | _, _ => false

end Exit

open Exit Trial in
theorem session_answered_signed :
    ∃ h ∈ heard, ∃ t endorsements, Message.ofFrame h.frame = .ok (.signRequest t) ∧
      t.content.inputs ≠ [] ∧ @Node.Signs .clear h.before t endorsements := by
  have hsigned : heard.any isSigned = true := by decide +kernel
  obtain ⟨h, hmem, hsent⟩ := List.any_eq_true.mp hsigned
  unfold isSigned at hsent
  split at hsent
  · rename_i endorsements t hanswer hm
    obtain ⟨answer, hreply, hanswer⟩ := Option.map_eq_some_iff.mp hanswer
    obtain ⟨-, hsigns, -⟩ := @session_answered .clear Cryptosystem.clear_signsVerifiably settings
      (seed 2) [] issue requests
    obtain ⟨-, t', hm', hsigned⟩ := hsigns h hmem answer endorsements hreply hanswer
    obtain rfl := Message.signRequest.inj (Except.ok.inj (hm'.symm.trans hm))
    exact ⟨h, hmem, t', endorsements, hm, by simpa using hsent, hsigned⟩
  · cases hsent

/-! ### A second role flag, and a reply that is too long -/

namespace Overlong

open Exit
open Trial (seed notary holder)

variable {command : String} {r : OutputRef}

def original : Located :=
  ⟨⟨.asset ⟨"Bond", [7]⟩, [holder.key], notary, none⟩, ⟨⟨.replicate 32 0⟩, 0⟩⟩

/-- The holder asks itself to re-issue the original under a command. -/
def terms (command : String) : RequestTerms :=
  ⟨holder, holder.key, [original.ref], command, [], true⟩

def stamp : Stamp := ⟨notary, .replicate 32 0⟩

def request (command : String) : Entity :=
  ⟨.request ⟨holder, holder.key, [original.ref], command, []⟩, [holder.key, holder.key], notary,
    none⟩

def requesting (command : String) : Proposal where
  content := stamp.content [] [request command] [.signedBy .createRequest [holder.key]] []
  observers := [holder.key]
  history := []
  attachments := []

/-- The id of the request. -/
def requested (command : String) : TransactionId := @Content.id .clear (requesting command).content

def requester : Node := @Node.new .clear settings (seed 2) []

/-- The holder has made the request. -/
def made (command : String) : Activity :=
  @run .clear (start requester)
    [.proposed ∅ stamp (.request (terms command) false), .decided 0 "Notary" (seed 9) ∅]

/-- Re-issues what an output asks for, but without its command. -/
def reissuing (r : OutputRef) : Content :=
  ⟨[r], [{ original.entity with encumbrance := some 1 }, ⟨.lock ⟨holder, holder.key, [original],
      .active, []⟩, [holder.key, holder.key], notary, some 0⟩],
    [.signedBy .acceptRequest [holder.key], .signedBy .createLock [holder.key, holder.key]], notary,
    [], .replicate 32 0⟩

theorem propose_terms (hcommand : command.isEmpty = false) :
    @Node.propose .clear requester stamp (.request (terms command) false) =
      .ok (requesting command) := by
  have hcheck : (terms command).check = .ok () := by
    unfold RequestTerms.check terms
    rw [hcommand]
    rfl
  apply (@Node.propose_eq_ok_iff _ .clear _ _ _).mpr
  constructor
  · unfold Node.draft Node.draftRequest
    simp only
    rw [hcheck]
    rfl
  · rfl

theorem exists_archive_made (hcommand : command.isEmpty = false) :
    ∃ t, (made command).node.ledger.archive[requested command]? = some t ∧
      t.content = (requesting command).content := by
  let _ : Cryptosystem := .clear
  let _ : Cryptosystem.SignsVerifiably := Cryptosystem.clear_signsVerifiably
  have hprivate : (requesting command).Private requester.party := ⟨rfl, rfl, rfl, rfl, rfl, rfl⟩
  have hheld : requester.keyring[requester.party.key]? = some (seed 2) := rfl
  have hnotary : (requesting command).content.notary =
      ⟨"Notary", Cryptosystem.publicKey (seed 9)⟩ := rfl
  obtain ⟨t, d, hrun, hid, hcontent⟩ := exists_run_eq_record (s := start requester) ∅
    (propose_terms hcommand) hprivate hheld rfl hnotary
  have hmade : (made command).node = requester.record t := congrArg Activity.node hrun
  have hnew : t.id ∉ requester.ledger.archive := by
    rw [Std.TreeMap.mem_iff_isSome_getElem?, requester, Node.getElem?_archive_new]
    exact Bool.false_ne_true
  rw [hmade]
  exact ⟨t, Ledger.getElem?_archive_record.mpr (.inr ⟨hnew, hid, rfl⟩), hcontent⟩

/-- The refusal names the command that is missing. -/
theorem check_reissuing {attachments : Attachments} :
    @Rules.check .clear (reissuing r) [⟨request command, r⟩] attachments =
      .error (.violation (.missingCommand (.asset command))) := by
  have hstructure : (reissuing r).checkStructure = .ok () := rfl
  have hmatches : (reissuing r).checkEncumbrances [⟨request command, r⟩] = .ok () :=
    Content.checkEncumbrances_eq_ok_iff.mpr
      ⟨rfl, List.forall_mem_singleton.mpr fun _ h ↦ nomatch h⟩
  unfold Rules.check
  rw [hstructure, hmatches]
  with_unfolding_all rfl

/-- The wording of the refusal. -/
def refusal (command : String) : String :=
  (OperationError.ofRule (.violation (.missingCommand (.asset command)))).message

/-- The request to sign a re-issuance of an output. -/
def asking (r : OutputRef) : Message := .signRequest (@Transaction.ofContent .clear (reissuing r))

theorem replies_refusal {n : Node} {id : TransactionId} {t : Transaction}
    (hn : n.ledger.archive[id]? = some t) (ht : t.content = (requesting command).content) :
    @Node.Replies .clear n (.serving .signer) (asking ⟨id, 0⟩) (.rejected (refusal command)) := by
  let _ : Cryptosystem := .clear
  have hresolve : n.ledger.archive.resolveInputs (reissuing ⟨id, 0⟩) =
      .ok [⟨request command, ⟨id, 0⟩⟩] := by
    apply Outcome.mapM_eq_ok_iff.mpr
    exact .cons (Archive.resolve_eq_ok_iff.mpr ⟨rfl, t, hn, congrArg (·.outputs[0]?) ht⟩) .nil
  apply Node.replies_rejected_of_endorsementsFor
  apply Node.endorsementsFor_of_judge rfl
  change (n.ledger.archive.resolveInputs (reissuing ⟨id, 0⟩)).mapError _ >>= _ = _
  rw [hresolve]
  change (Rules.check (reissuing ⟨id, 0⟩) [⟨request command, ⟨id, 0⟩⟩] _).mapError _ = _
  rw [check_reissuing]
  rfl

/-- The refusal is longer than the command. -/
theorem utf8ByteSize_lt_length_refusal :
    command.utf8ByteSize < (encode (Message.rejected (refusal command))).length := by
  change _ < (Wire.encodeVariant 7 ++ (Wire.encodeCount _ ++ Utf8.encode (refusal command))).length
  have hrefusal : refusal command =
      "verification failed: " ++ ("missing " ++ ("Asset(" ++ command ++ ")") ++ " command") := rfl
  rw [List.length_append, List.length_append, Wire.length_encodeVariant, Utf8.length_encode,
    hrefusal]
  simp only [String.utf8ByteSize_append]
  omega

theorem length_asking : (encode (asking r)).length ≤ Message.maxSize := by
  change (Wire.encodeVariant 3 ++ ((@Content.id .clear (reissuing r)).block.toList ++
    (Wire.encodeCount 1 ++ [r].flatMap encode ++ encode (reissuing original.ref).outputs ++
      encode (reissuing original.ref).commands ++ encode notary ++
      encode ([] : List AttachmentId) ++ encode (Block.replicate 32 0)) ++
    encode ([] : List Endorsement))).length ≤ _
  simp only [List.length_append, Block.length_toList, List.flatMap_singleton,
    OutputRef.length_encode]
  decide +kernel

/-- There are texts of every size. -/
theorem exists_utf8ByteSize (n : Nat) : ∃ text : String, text.utf8ByteSize = n := by
  induction n with
  | zero => exact ⟨"", rfl⟩
  | succ n ih =>
    obtain ⟨text, htext⟩ := ih
    refine ⟨text ++ "a", ?_⟩
    rw [String.utf8ByteSize_append, htext]
    rfl

theorem ofFrame_opening : Message.ofFrame (encode (Message.role true)) = .ok (.role true) :=
  Message.ofFrame_eq_ok_iff.mpr (Message.toFrame_of_length_le (by decide))

theorem ofFrame_asking : Message.ofFrame (encode (asking r)) = .ok (asking r) :=
  Message.ofFrame_eq_ok_iff.mpr (Message.toFrame_of_length_le length_asking)

/-- The role flag comes twice. -/
def twice : List Arrival :=
  [⟨[], encode (Message.role true)⟩, ⟨[], encode (Message.role true)⟩]

/-- What was heard is a role flag that was not agreed to. -/
def isRefused (h : Heard) : Bool :=
  match Message.ofFrame h.frame, h.reply with
  | .ok (.role _), some answer => Message.ofFrame answer != .ok .ack
  | _, _ => false

/-- After the role flag a re-issuance is to be signed. -/
def asked (command : String) : List Arrival :=
  [⟨[], encode (Message.role true)⟩, ⟨[], encode (asking ⟨requested command, 0⟩)⟩]

theorem due_asked : Message.due .awaitingRole ((asked command).map Arrival.frame) =
    [.role true, asking ⟨requested command, 0⟩] := by
  have hawaiting : Phase.awaitingRole ≠ .ended := nofun
  have hserving : Phase.serving .signer ≠ .ended := nofun
  have hrest : Message.due (.serving .signer) [encode (asking ⟨requested command, 0⟩)] =
      [asking ⟨requested command, 0⟩] := by
    rw [Message.due_cons hserving ofFrame_asking, Message.due_nil]
  exact (Message.due_cons hawaiting ofFrame_opening).trans (congrArg (Message.role true :: ·) hrest)

end Overlong

open Exit Overlong Trial in
/-- A further role flag is refused, and there are messages that are understood but get no reply. -/
theorem not_agreed_and_not_answered :
    (¬ ∀ settings identity further events arrivals signer answer,
      ∀ h ∈ @hear .clear (@run .clear (start (@Node.new .clear settings identity further)) events)
          .awaitingRole arrivals,
        Message.ofFrame h.frame = .ok (.role signer) → h.reply = some answer →
          Message.ofFrame answer = .ok .ack) ∧
    ¬ ∀ settings identity further events arrivals (index : Nat) m,
      (Message.due .awaitingRole (arrivals.map Arrival.frame))[index]? = some m →
        ∃ h answer,
          (@hear .clear (@run .clear (start (@Node.new .clear settings identity further)) events)
            .awaitingRole arrivals)[index]? = some h ∧ h.reply = some answer := by
  constructor
  · intro hagreed
    have hrefused : (@hear .clear (start (@Node.new .clear settings (seed 2) [])) .awaitingRole
        twice).any isRefused = true := by
      decide +kernel
    obtain ⟨h, hmem, hrefused⟩ := List.any_eq_true.mp hrefused
    unfold isRefused at hrefused
    split at hrefused
    · rename_i signer answer hm hreply
      exact bne_iff_ne.mp hrefused
        (hagreed settings (seed 2) [] [] twice signer answer h hmem hm hreply)
    · cases hrefused
  · intro hanswered
    obtain ⟨command, hsize⟩ := exists_utf8ByteSize Message.maxSize
    have hcommand : command.isEmpty = false := by
      rw [← Bool.not_eq_true, String.isEmpty_iff_utf8ByteSize_eq_zero, hsize]
      decide
    obtain ⟨h, answer, hindex, hreply⟩ := hanswered settings (seed 2) []
      [.proposed ∅ stamp (.request (terms command) false), .decided 0 "Notary" (seed 9) ∅]
      (asked command) 1 (asking ⟨requested command, 0⟩) (congrArg (·[1]?) due_asked)
    obtain ⟨t, ht, hcontent⟩ := exists_archive_made hcommand
    have hnone : h.reply = none :=
      @reply_eq_none_of_replies .clear (made command) _ _ _ _ _ _ ofFrame_opening ofFrame_asking
        (replies_refusal ht hcontent)
        (hsize.symm.trans_lt utf8ByteSize_lt_length_refusal) hindex
    rw [hnone] at hreply
    cases hreply

end Activity

end Custody
