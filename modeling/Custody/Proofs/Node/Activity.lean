import Custody.Proofs.Dialogue
import Custody.Proofs.Ledger.Ancestors
import Custody.Proofs.Node.Integrity
import Custody.Proofs.Operation
import Custody.Proofs.Trial

/-!
# Whatever a node lives through

A node begins operations, goes on with those under way as answers come in, and answers others in
between. The order is arbitrary, and so is what others say: replies, messages, blobs, even what the
notary has signed before. Only the notary itself is honest, in that it signs with the key it is
known by. The node's stores change in two ways only, and its archive stays sound: everything in it
is finalised, obeys the rules, and rests on what is in it too.
-/

namespace Custody

/-- A node with the settlements it has under way. -/
structure Activity where
  node : Node
  underway : List (Dialogue (Except OperationError Transaction))

/-- What happens next. -/
inductive Event where
  | proposed (directory : Directory) (stamp : Stamp) (operation : Operation)
  /-- A session of a settlement is opened, or not. -/
  | opened (settlement : Nat) (answer : Except NetworkError Unit)
  /-- A message of a settlement is answered. -/
  | answered (settlement : Nat) (answer : Except NetworkError Message)
  /-- A notary of this name and key, having seen this much, decides about a settlement. -/
  | decided (settlement : Nat) (name : String) (seed : Seed)
      (spent : Std.TreeMap OutputRef TransactionId)
  /-- A message comes in from another. -/
  | served (phase : Phase) (message : Message)
  | attached (blob : Bytes)

namespace Activity

variable [Cryptosystem]

/-- A node that has nothing under way. -/
def start (n : Node) : Activity := ⟨n, []⟩

/-- The settlement goes on as its dialogue does. -/
def proceed (s : Activity) (settlement : Nat)
    (d : Dialogue (Except OperationError Transaction)) : Activity :=
  { s with underway := s.underway.set settlement d }

/-- An operation is begun. -/
def propose (s : Activity) (directory : Directory) (stamp : Stamp) (operation : Operation) :
    Activity :=
  match s.node.propose stamp operation with
  | .error _ => s
  | .ok p => { s with underway := s.underway ++ [(Settling.settle directory s.node p).run] }

/-- An answer to the opening of a session. -/
def resumeOpening (s : Activity) (settlement : Nat) (answer : Except NetworkError Unit) :
    Activity :=
  match s.underway[settlement]? with
  | some (.openSession _ next) => s.proceed settlement (next answer)
  | _ => s

/-- An answer to a message. -/
def resumeExchange (s : Activity) (settlement : Nat) (answer : Except NetworkError Message) :
    Activity :=
  match s.underway[settlement]? with
  | some (.exchange _ _ next) => s.proceed settlement (next answer)
  | _ => s

/-- The decision of a notary: what it signs is recorded. -/
def resumeFinalisation (s : Activity) (settlement : Nat) (notary : Notary) : Activity :=
  match s.underway[settlement]? with
  | some (.finalise t next) =>
    match notary.notarise t with
    | .error error => s.proceed settlement (next (.error error))
    | .ok (_, endorsement) =>
      let t := t.endorse endorsement
      { s with node := s.node.record t }.proceed settlement (next (.ok t))
  | _ => s

/-- One event. What does not fit the state of a settlement is passed over. -/
def step (s : Activity) : Event → Activity
  | .proposed directory stamp operation => s.propose directory stamp operation
  | .opened settlement answer => s.resumeOpening settlement answer
  | .answered settlement answer => s.resumeExchange settlement answer
  | .decided settlement name seed spent =>
    s.resumeFinalisation settlement ⟨⟨name, Cryptosystem.publicKey seed⟩, seed, spent⟩
  | .served phase message => { s with node := (s.node.respond phase message).1 }
  | .attached blob => { s with node := s.node.attach blob }

/-- Any number of events. -/
def run (s : Activity) (events : List Event) : Activity := events.foldl step s

theorem run_append {s : Activity} {before rest : List Event} :
    s.run (before ++ rest) = (s.run before).run rest := List.foldl_append

end Activity

/-! ### What lasts -/

section Lasting

variable [Cryptosystem] {inv : Node → Prop} {fit : Transaction → Prop}

/-- Whatever an honest notary endorses of a content is fit to be recorded. -/
def Settles (fit : Transaction → Prop) (c : Content) : Prop :=
  ∀ (notary notary' : Notary) (t : Transaction) (e : Endorsement),
    notary.party.key = Cryptosystem.publicKey notary.seed → t.content = c →
    notary.notarise t = .ok (notary', e) → fit (t.endorse e)

/-- A message hands over nothing finalised that is not fit to be recorded. -/
def Event.Suits (fit : Transaction → Prop) : Event → Prop
  | .served _ m => ∀ t ∈ m.transactions, t.Finalised → fit t
  | .proposed _ _ _ | .opened _ _ | .answered _ _ | .decided _ _ _ _ | .attached _ => True

/-- What holds of everything finalised suits every event. -/
theorem Event.suits_of_forall (h : ∀ t : Transaction, t.Finalised → fit t) (event : Event) :
    event.Suits fit := by
  cases event with
  | served phase m => exact fun t _ ↦ h t
  | _ => exact trivial

/-- A property of nodes that recording keeps, if what is recorded is fit and has been judged, and
under which what is proposed will be fit. -/
structure Node.Lasts (inv : Node → Prop) (fit : Transaction → Prop) : Prop where
  record : ∀ {n : Node} {t : Transaction}, inv n → fit t → n.judge t.content = .ok () →
    inv (n.record t)
  attach : ∀ {n : Node} {blob : Bytes}, inv n → inv (n.attach blob)
  propose : ∀ {n : Node} {stamp : Stamp} {operation : Operation} {p : Proposal}, inv n →
    n.propose stamp operation = .ok p → Settles fit p.content

theorem Node.Lasts.advances (h : Node.Lasts inv fit) {n n' : Node} {known : Transaction → Prop}
    (hn : inv n) (hadvances : n.Advances known n') (hfit : ∀ t, known t → t.Finalised → fit t) :
    inv n' := by
  induction hadvances with
  | refl => exact hn
  | record _ hknown hfinalised hjudge ih => exact h.record ih (hfit _ hknown hfinalised) hjudge
  | attach _ ih => exact h.attach ih

namespace Activity

variable {s : Activity}

/-- The node is as it should be, and what is under way will finalise nothing but content that the
node has judged and that will be fit to be recorded. -/
structure Upholds (inv : Node → Prop) (fit : Transaction → Prop) (s : Activity) : Prop where
  node : inv s.node
  underway : ∀ d ∈ s.underway, ∃ c known, s.node.judge c = .ok () ∧ Settles fit c ∧
    d.Keeps (fun t ↦ t.content = c) known fun _ ↦ True

namespace Upholds

theorem of_grows (h : s.Upholds inv fit) {n : Node} (hn : inv n) (hgrows : s.node.Grows n) :
    ({ s with node := n } : Activity).Upholds inv fit := by
  refine ⟨hn, ?_⟩
  intro d hd
  obtain ⟨c, known, hjudge, hkeeps⟩ := h.underway d hd
  exact ⟨c, known, Node.judge_mono hgrows hjudge, hkeeps⟩

theorem proceed (h : s.Upholds inv fit) {settlement : Nat}
    {d d' : Dialogue (Except OperationError Transaction)} (hd : s.underway[settlement]? = some d)
    (hkeeps : ∀ c known, d.Keeps (fun t ↦ t.content = c) known (fun _ ↦ True) →
      ∃ known', d'.Keeps (fun t ↦ t.content = c) known' fun _ ↦ True) :
    (s.proceed settlement d').Upholds inv fit := by
  refine ⟨h.node, ?_⟩
  intro other hother
  rcases List.mem_or_eq_of_mem_set hother with hmem | rfl
  · exact h.underway other hmem
  · obtain ⟨c, known, hjudge, hsettles, hd⟩ := h.underway d (List.mem_of_getElem? hd)
    obtain ⟨known', hkeeps⟩ := hkeeps c known hd
    exact ⟨c, known', hjudge, hsettles, hkeeps⟩

theorem propose (hlasts : Node.Lasts inv fit) (h : s.Upholds inv fit) {directory : Directory}
    {stamp : Stamp} {operation : Operation} :
    (s.propose directory stamp operation).Upholds inv fit := by
  unfold Activity.propose
  split
  · exact h
  · rename_i p hp
    refine ⟨h.node, ?_⟩
    intro d hd
    rcases List.mem_append.mp hd with hmem | hmem
    · exact h.underway d hmem
    · rw [List.mem_singleton.mp hmem]
      refine ⟨p.content, s.node.ledger.archive.Stores, (Node.takes_of_propose hp).judge_eq,
        hlasts.propose h.node hp, ?_⟩
      exact Settling.ensures_settle.mono (fun _ ht ↦ ht) fun _ _ ↦ trivial

theorem resumeOpening (h : s.Upholds inv fit) {settlement : Nat}
    {answer : Except NetworkError Unit} : (s.resumeOpening settlement answer).Upholds inv fit := by
  unfold Activity.resumeOpening
  split
  · rename_i hd
    exact h.proceed hd fun _ known hkeeps ↦ ⟨known, hkeeps answer⟩
  · exact h

theorem resumeExchange (h : s.Upholds inv fit) {settlement : Nat}
    {answer : Except NetworkError Message} :
    (s.resumeExchange settlement answer).Upholds inv fit := by
  unfold Activity.resumeExchange
  split
  · rename_i hd
    exact h.proceed hd fun _ known hkeeps ↦ ⟨known, hkeeps.2 answer⟩
  · exact h

/-- What is recorded is the content judged when the settlement was begun, with the endorsement that
was missing. -/
theorem resumeFinalisation (hlasts : Node.Lasts inv fit) (h : s.Upholds inv fit)
    {settlement : Nat} {notary : Notary}
    (hkey : notary.party.key = Cryptosystem.publicKey notary.seed) :
    (s.resumeFinalisation settlement notary).Upholds inv fit := by
  unfold Activity.resumeFinalisation
  split
  · rename_i t next hd
    split
    · exact h.proceed hd fun _ _ hkeeps ↦ ⟨_, hkeeps.2 _⟩
    · rename_i n endorsement hnotarise
      obtain ⟨c, known, hjudge, hsettles, hkeeps⟩ := h.underway _ (List.mem_of_getElem? hd)
      have hfit := hsettles notary n t endorsement hkey hkeeps.1 hnotarise
      rw [← hkeeps.1, ← Transaction.content_endorse] at hjudge
      have hrecorded := h.of_grows (hlasts.record h.node hfit hjudge) Node.grows_record
      exact hrecorded.proceed hd fun _ _ hkeeps ↦ ⟨_, hkeeps.2 _⟩
  · exact h

/-- Every event upholds what lasts. -/
theorem step (hlasts : Node.Lasts inv fit) (h : s.Upholds inv fit) {event : Event}
    (hsuits : event.Suits fit) : (s.step event).Upholds inv fit := by
  cases event with
  | proposed directory stamp operation => exact h.propose hlasts
  | opened settlement answer => exact h.resumeOpening
  | answered settlement answer => exact h.resumeExchange
  | decided settlement name seed spent => exact h.resumeFinalisation hlasts rfl
  | served phase message =>
    have hadvances : s.node.Advances (· ∈ message.transactions) (s.node.respond phase message).1 :=
      Node.advances_respond fun _ ht ↦ ht
    exact h.of_grows (hlasts.advances h.node hadvances hsuits) hadvances.grows
  | attached blob => exact h.of_grows (hlasts.attach h.node) Node.grows_attach

theorem run (hlasts : Node.Lasts inv fit) (h : s.Upholds inv fit) {events : List Event}
    (hsuits : ∀ event ∈ events, event.Suits fit) : (s.run events).Upholds inv fit := by
  unfold Activity.run
  induction events generalizing s with
  | nil => exact h
  | cons event events ih =>
    obtain ⟨hevent, hevents⟩ := List.forall_mem_cons.mp hsuits
    exact ih (h.step hlasts hevent) hevents

end Upholds

theorem lasts_grows {n : Node} : Node.Lasts n.Grows fun _ ↦ True where
  record h _ _ := h.trans Node.grows_record
  attach h := h.trans Node.grows_attach
  propose _ _ _ _ _ _ _ _ _ := trivial

/-- Whatever happens, the stores of the node only grow. -/
theorem Upholds.grows_run (h : s.Upholds inv fun _ ↦ True) (events : List Event) :
    s.node.Grows (s.run events).node :=
  (Upholds.run lasts_grows ⟨.refl, h.underway⟩ fun event _ ↦
    event.suits_of_forall fun _ _ ↦ trivial).node

theorem upholds_start {n : Node} (h : inv n) : (start n).Upholds inv fit :=
  ⟨h, fun _ hd ↦ absurd hd List.not_mem_nil⟩

end Activity

end Lasting

/-! ### Soundness -/

theorem Node.lasts_sound [Cryptosystem] [Cryptosystem.SignsVerifiably] :
    Node.Lasts Node.Sound Transaction.Finalised where
  record h hfinalised hjudge := h.record hfinalised hjudge
  attach h := h.attach
  propose _ _ _ _ _ _ hkey _ hnotarise := Notary.finalised_endorse_of_notarise hkey hnotarise

namespace Activity

variable [Cryptosystem] {s : Activity}

/-- The archive is sound, and what is under way will finalise nothing but content that the node has
judged. -/
def Sound (s : Activity) : Prop := s.Upholds Node.Sound Transaction.Finalised

theorem Sound.run [Cryptosystem.SignsVerifiably] (h : s.Sound) (events : List Event) :
    (s.run events).Sound :=
  Upholds.run Node.lasts_sound h fun event _ ↦ event.suits_of_forall fun _ ht ↦ ht

theorem sound_start {settings : NodeSettings} {identity : Seed} {further : List Seed} :
    (start (Node.new settings identity further)).Sound :=
  upholds_start Node.sound_new

/-- Whatever a node that starts with nothing lives through, each transaction in its archive declares
its own id, carries valid endorsements only, those of its signers and its notary among them, finds
what it consumes in the same archive, and obeys the rules; and its ancestors are all there. -/
theorem archive_integrity [Cryptosystem.SignsVerifiably] (settings : NodeSettings) (identity : Seed)
    (further : List Seed) (events : List Event) :
    let n := ((start (Node.new settings identity further)).run events).node
    ∀ id t, n.ledger.archive[id]? = some t →
      t.id = id ∧ t.content.id = id ∧
      (∀ e ∈ t.endorsements, e.isValidFor id = true) ∧
      (∀ key ∈ t.content.requiredKeys, t.isSignedBy key = true) ∧
      t.isNotarisedBy t.content.notary = true ∧
      (∃ inputs, inputs.map Located.ref = t.content.inputs ∧
        (∀ input ∈ inputs, ∃ source, n.ledger.archive[input.ref.transaction]? = some source ∧
          source.content.outputs[input.ref.index.toNat]? = some input.entity) ∧
        Rules.check t.content inputs n.attachments = .ok ()) ∧
      ∃ ancestors, n.ledger.archive.ancestors [id] = .ok ancestors := by
  intro n id t ht
  have hsound : n.Sound := (Sound.run sound_start events).node
  obtain ⟨hid, hfinalised, hjudge⟩ := hsound id t ht
  obtain ⟨inputs, hinputs, hcheck⟩ := Node.judge_eq_ok_iff.mp hjudge
  have hmatch := (Rules.check_eq_ok_iff.mp hcheck).2.1
  have hvalid := hfinalised.isValid
  rw [hid] at hvalid
  refine ⟨hid, hfinalised.id_eq.trans hid, hvalid, hfinalised.isSigned, hfinalised.isNotarised,
    ⟨inputs, hmatch.refs_eq, fun _ ↦ Archive.exists_source_of_mem hinputs, hcheck⟩, ?_⟩
  apply Archive.exists_ancestors hsound.closed
  intro held hheld
  rw [List.mem_singleton.mp hheld, Std.TreeMap.mem_iff_isSome_getElem?, ht]
  rfl

/-! ### An issue and an exit -/

omit [Cryptosystem]

namespace Exit

open Trial (seed notary holder)

def settings : NodeSettings where
  legalName := "Holder"

/-- The holder issues an asset to itself. -/
def issue : List Event :=
  [.proposed ∅ ⟨notary, .replicate 32 1⟩ (.issue ⟨"Bond", [7]⟩ holder),
    .decided 0 "Notary" (seed 9) ∅]

/-- Then it exits whatever it holds. -/
def events : List Event :=
  let issued := @run .clear (start (@Node.new .clear settings (seed 2) [])) issue
  issue ++ issued.node.ledger.vault.live.map (fun asset ↦
    .proposed ∅ ⟨notary, .replicate 32 2⟩ (.exit asset)) ++ [.decided 1 "Notary" (seed 9) ∅]

/-- The node afterwards. -/
def final : Node :=
  (@run .clear (start (@Node.new .clear settings (seed 2) [])) events).node

end Exit

open Exit Trial in
theorem archive_integrity_exit :
    ∃ id t ancestors, final.ledger.archive[id]? = some t ∧ t.content.inputs ≠ [] ∧
      final.ledger.archive.ancestors [id] = .ok ancestors := by
  have hexit : (final.ledger.archive.toList.find? fun (_, t) ↦ !t.content.inputs.isEmpty).isSome =
      true := by
    decide +kernel
  obtain ⟨⟨id, t⟩, hfound⟩ := Option.isSome_iff_exists.mp hexit
  have hheld : final.ledger.archive[id]? = some t :=
    Std.TreeMap.mem_toList_iff_getElem?_eq_some.mp (List.mem_of_find?_eq_some hfound)
  obtain ⟨-, -, -, -, -, -, ancestors, hancestors⟩ :=
    @archive_integrity .clear Cryptosystem.clear_signsVerifiably settings (seed 2) [] events id t
      hheld
  exact ⟨id, t, ancestors, hheld, by simpa using List.find?_some hfound, hancestors⟩

/-! ### Runs that follow plans -/

namespace Course

open Exit (settings)
open Trial (seed notary holder)

/-- The holder, who is its own issuer, after some events. -/
def after (events : List Event) : Activity :=
  @run .clear (start (@Node.new .clear settings (seed 2) [])) events

/-- What happens next, in view of how things stand. -/
abbrev Plan := Activity → List Event

def follow (events : List Event) (plan : Plan) : List Event := events ++ plan (after events)

/-- An operation is carried out; the notary knows of everything that has been consumed. -/
def perform (s : Activity) (operation : Operation) : List Event :=
  let number := s.underway.length
  [.proposed ∅ ⟨notary, .ofNatLE 32 number⟩ operation,
    .decided number "Notary" (seed 9) s.node.ledger.vault.consumed]

def issue : Plan := fun s ↦ perform s (.issue ⟨"Bond", [7]⟩ holder)

/-- The bonds that pass a filter are to be re-issued. -/
def ask (filter : EncumbranceFilter) : Plan := fun s ↦
  (s.node.ledger.vault.assets "Bond" filter).flatMap fun bond ↦
    perform s (.request ⟨holder, holder.key, [bond.ref], "Issue", [], true⟩ false)

def accept : Plan := fun s ↦
  s.node.ledger.vault.requests.flatMap fun request ↦ perform s (.accept ⟨request, none, []⟩)

end Course

end Activity

end Custody
