import Custody.Proofs.Node.Activity
import Custody.Proofs.Operation.Release

/-!
# A node stays coherent

Whatever a node lives through, it stays coherent and its vault reflects its archive, if what comes
in from others came in frames: these are too short for more outputs than can be counted, and what
the node proposes itself can be counted too.
-/

namespace Custody

/-- Whether something does not come in from others. -/
def Event.isOwn : Event → Bool
  | .served _ _ => false
  | .proposed _ _ _ | .opened _ _ | .answered _ _ | .decided _ _ _ _ | .attached _ => true

theorem framed_of_isOwn {events : List Event} (h : events.all Event.isOwn = true) (phase : Phase)
    (m : Message) (hserved : .served phase m ∈ events) : ∃ frame, m.toFrame = .ok frame := by
  cases List.all_eq_true.mp h _ hserved

variable [Cryptosystem]

/-- The outputs can be counted in 32 bits. -/
def Transaction.Countable (t : Transaction) : Prop := t.content.outputs.length ≤ 2 ^ 32

/-- Recording what can be counted keeps a node coherent, and what it proposes can be counted. -/
theorem Node.lasts_coherent : Node.Lasts Node.Coherent Transaction.Countable where
  record h hsize hjudge := h.record hjudge hsize
  attach h := ⟨h.verified, h.grounded, h.countable⟩
  propose {_ _ _ p} h hp notary notary' t e _ hcontent _ := by
    have hsize := h.length_outputs_lt_of_propose hp
    unfold Transaction.Countable
    rw [Transaction.content_endorse, hcontent]
    omega

theorem Node.lasts_faithful : Node.Lasts (fun n ↦ n.ledger.Faithful) fun _ ↦ True where
  record h _ _ := h.record
  attach h := h
  propose _ _ _ _ _ _ _ _ _ := trivial

namespace Activity

/-- A node that starts with nothing, and to which everything comes in frames, stays coherent. -/
theorem coherent_run {settings : NodeSettings} {identity : Seed} {further : List Seed}
    {events : List Event}
    (hframes : ∀ phase m, .served phase m ∈ events → ∃ frame, m.toFrame = .ok frame) :
    ((start (Node.new settings identity further)).run events).node.Coherent := by
  refine (Upholds.run Node.lasts_coherent (upholds_start Node.coherent_new) ?_).node
  intro event hevent
  cases event with
  | served phase m =>
    obtain ⟨frame, hframe⟩ := hframes phase m hevent
    intro t ht _
    exact (Message.length_outputs_lt_maxSize hframe ht).le.trans (by decide)
  | _ => exact trivial

/-- The vault of a node to which everything comes in frames reflects its archive. -/
theorem mirrors_run {settings : NodeSettings} {identity : Seed} {further : List Seed}
    {events : List Event}
    (hframes : ∀ phase m, .served phase m ∈ events → ∃ frame, m.toFrame = .ok frame) :
    ((start (Node.new settings identity further)).run events).node.ledger.Mirrors := by
  let s := start (Node.new settings identity further)
  have hstart : s.Upholds (fun n ↦ n.ledger.Faithful) fun _ ↦ True :=
    upholds_start Ledger.faithful_empty
  have hfaithful : (s.run events).node.ledger.Faithful :=
    (Upholds.run Node.lasts_faithful hstart fun event _ ↦
      event.suits_of_forall fun _ _ ↦ trivial).node
  have hcoherent : (s.run events).node.Coherent := coherent_run hframes
  exact Ledger.mirrors_of_faithful hfaithful hcoherent.grounded hcoherent.countable

end Activity

end Custody
