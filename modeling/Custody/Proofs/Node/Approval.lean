import Custody.Proofs.Node.Stock

/-!
# Drafts of a node

What a node drafts obeys the rules as long as each operation is used as it is meant: only a
spendable asset is moved or exited, a release names each proof once, and what a re-issuance produces
can be counted in 32 bits. No operation checks this of its arguments, and each condition matters.
Where it fails, the node finds its own draft to break the rules before anybody hears of it.
-/

namespace Custody

namespace Activity

variable [Cryptosystem]

/-- Whatever a node that starts with nothing lives through, it finds what it drafts to obey the
rules exactly if the operation is used as it is meant and, if a re-issuance, has outputs that can be
counted in 32 bits. It proposes to issue any asset, and to move or exit any live one that can be
spent. -/
theorem judge_of_draft (settings : NodeSettings) (identity : Seed) (further : List Seed)
    (events : List Event)
    (hframes : ∀ phase m, .served phase m ∈ events → ∃ frame, m.toFrame = .ok frame) :
    let n := ((start (Node.new settings identity further)).run events).node
    (∀ stamp operation p, n.draft stamp operation = .ok p →
      (n.judge p.content = .ok () ↔ operation.Suits ∧
        (operation.step? = some .reissue → p.content.outputs.length < 2 ^ 32))) ∧
    ∀ stamp, (∀ asset holder, ∃ p, n.propose stamp (.issue asset holder) = .ok p) ∧
      ∀ asset : Located, n.ledger.vault.live? asset.ref = some asset →
        Node.Spendable asset.entity →
          (∀ holder, ∃ p, n.propose stamp (.move asset holder) = .ok p) ∧
          ∃ p, n.propose stamp (.exit asset) = .ok p := by
  intro n
  have hcoherent : n.Coherent := coherent_run hframes
  refine ⟨fun stamp operation p ↦ hcoherent.approves_iff_of_draft,
    fun stamp ↦ ⟨fun asset holder ↦ ?_, fun asset hlive hspendable ↦ ⟨fun holder ↦ ?_, ?_⟩⟩⟩
  · exact ⟨_, Node.propose_eq_ok_iff.mpr ⟨rfl, Node.approves_draftIssue hcoherent⟩⟩
  · obtain ⟨p, hdraft⟩ := Node.exists_draftMove hlive
    have happroves := (Node.ends_draftMove_approves_iff hcoherent p hdraft).mpr hspendable
    exact ⟨p, Node.propose_eq_ok_iff.mpr ⟨hdraft, happroves⟩⟩
  · obtain ⟨p, hdraft⟩ := Node.exists_draftExit hlive
    have happroves := (Node.ends_draftExit_approves_iff hcoherent p hdraft).mpr hspendable
    exact ⟨p, Node.propose_eq_ok_iff.mpr ⟨hdraft, happroves⟩⟩

omit [Cryptosystem]

/-! ### Drafts that obey the rules -/

namespace Holding

open Course

/-- The holder issues a bond to itself and asks itself to re-issue it. -/
def own : List Event := [issue, ask .unencumbered].foldl follow []

/-- Then a session is opened. -/
def events : List Event := own ++ [.served .awaitingRole (.role true)]

theorem framed_events (phase : Phase) (m : Message) (h : .served phase m ∈ events) :
    ∃ frame, m.toFrame = .ok frame := by
  rcases List.mem_append.mp h with hown | hserved
  · have hall : own.all Event.isOwn = true := by decide +kernel
    exact framed_of_isOwn hall phase m hown
  · obtain ⟨rfl, rfl⟩ : phase = .awaitingRole ∧ m = .role true := by simpa using hserved
    exact ⟨_, rfl⟩

def holder : Node := (after events).node

def stamp : Stamp := ⟨Trial.notary, .replicate 32 2⟩

/-- Whether a draft has this many outputs. -/
def hasOutputs (count : Nat) : Except OperationError Proposal → Bool
  | .ok p => p.content.outputs.length == count
  | .error _ => false

theorem exists_of_hasOutputs {count : Nat} {draft : Except OperationError Proposal}
    (h : hasOutputs count draft = true) :
    ∃ p, draft = .ok p ∧ p.content.outputs.length = count := by
  cases draft with
  | ok p => exact ⟨p, rfl, beq_iff_eq.mp h⟩
  | error _ => cases h

end Holding

open Holding in
/-- A re-issuance and an exit are drafted, and found to obey the rules. -/
theorem judge_of_draft_holding :
    (∃ terms p, @Node.draft .clear holder stamp (.accept terms) = .ok p ∧
      p.content.outputs.length = 2 ∧ @Node.judge .clear holder p.content = .ok ()) ∧
    ∃ asset p, @Node.draft .clear holder stamp (.exit asset) = .ok p ∧
      p.content.outputs.length = 0 ∧ @Node.judge .clear holder p.content = .ok () := by
  have haccepted : (holder.ledger.vault.requests.any fun request ↦
      hasOutputs 2 (@Node.draft .clear holder stamp (.accept ⟨request, none, []⟩))) = true := by
    decide +kernel
  have hexited : (holder.ledger.vault.live.any fun e ↦ e.entity.payload.isAsset &&
      e.entity.encumbrance.isNone && !e.entity.participants.isEmpty &&
      hasOutputs 0 (@Node.draft .clear holder stamp (.exit e))) = true := by
    decide +kernel
  obtain ⟨hjudge, -⟩ :=
    @judge_of_draft .clear Exit.settings (Trial.seed 2) [] events framed_events
  obtain ⟨request, -, haccepted⟩ := List.any_eq_true.mp haccepted
  obtain ⟨p, hp, houtputs⟩ := exists_of_hasOutputs haccepted
  obtain ⟨asset, -, hexited⟩ := List.any_eq_true.mp hexited
  simp only [Bool.and_eq_true, Option.isNone_iff_eq_none, Bool.not_eq_true',
    List.isEmpty_eq_false_iff] at hexited
  obtain ⟨⟨⟨hasset, hfree⟩, hparticipants⟩, hexited⟩ := hexited
  obtain ⟨p', hp', houtputs'⟩ := exists_of_hasOutputs hexited
  have hsmall : p.content.outputs.length < 2 ^ 32 := by rw [houtputs]; decide
  exact ⟨⟨_, p, hp, houtputs, (hjudge _ _ p hp).mpr ⟨trivial, fun _ ↦ hsmall⟩⟩, asset, p', hp',
    houtputs', (hjudge _ _ p' hp').mpr ⟨⟨hasset, hfree, hparticipants⟩, nofun⟩⟩

/-! ### Drafts that break them -/

namespace Unfit

open Course

theorem salted_tellsSalts : @Cryptosystem.TellsSalts .salted := by
  have hid (c : Content) : (@Content.id .salted c).block = c.salt := by
    obtain ⟨rest, hrest⟩ : ∃ rest, encode c = rest ++ c.salt.toList := ⟨_, rfl⟩
    change Block.fit 32 ((encode c).drop ((encode c).length - 32)) = c.salt
    rw [hrest, List.length_append, c.salt.length_toList, Nat.add_sub_cancel, List.drop_left]
    exact Block.fit_toList
  intro c c' h
  rw [← hid, ← hid, h]

/-- A holder that can be told from its notary. -/
def solitary : @Solitary .salted := @Solitary.mk .salted Exit.settings (Trial.seed 2) "Notary"
  (Trial.seed 9) (by decide)

/-- So many bonds that their copies can be counted, but not with the lock. -/
def tooMany : Nat := 2 ^ 32 - 1

/-- The re-issuance that the holder has asked itself for is made. -/
def copied : List Event := follow Holding.own accept

end Unfit

open Unfit in
/-- A re-issuance may produce too much to be counted, and what is encumbered may be moved: both are
drafted, and found to break the rules. -/
theorem not_judge_of_draft :
    (¬ ∀ settings identity further events,
      (∀ phase m, .served phase m ∈ events → ∃ frame, m.toFrame = .ok frame) →
      let n := (@run .salted (start (@Node.new .salted settings identity further)) events).node
      ∀ stamp terms p, @Node.draft .salted n stamp (.accept terms) = .ok p →
        @Node.judge .salted n p.content = .ok ()) ∧
    ¬ ∀ settings identity further events,
      (∀ phase m, .served phase m ∈ events → ∃ frame, m.toFrame = .ok frame) →
      let n := (@run .clear (start (@Node.new .clear settings identity further)) events).node
      ∀ stamp asset holder p, @Node.draft .clear n stamp (.move asset holder) = .ok p →
        @Node.judge .clear n p.content = .ok () := by
  constructor
  · intro hobeys
    let _ : Cryptosystem := .salted
    let _ : Cryptosystem.SignsVerifiably := Cryptosystem.salted_signsVerifiably
    have hown : (solitary.asking tooMany).all Event.isOwn = true := Solitary.isOwn_asking
    have hframed := framed_of_isOwn hown
    have hpos : 0 < tooMany := by decide
    have hfits : tooMany < 256 ^ 32 := by decide
    obtain ⟨stamp, terms, p, hdraft, hlength⟩ :=
      solitary.exists_draft_accept salted_tellsSalts hpos hfits
    have hjudge := hobeys _ _ _ _ hframed _ _ p hdraft
    have hsize := ((coherent_run hframed).approves_iff_of_draft hdraft).mp hjudge
    rw [hlength] at hsize
    exact absurd (hsize.2 rfl) (by decide)
  · intro hobeys
    let _ : Cryptosystem := .clear
    have hown : copied.all Event.isOwn = true := by decide +kernel
    have hframed := framed_of_isOwn hown
    let n := (Course.after copied).node
    have hany : n.ledger.vault.live.any (·.entity.isEncumbered) = true := by decide +kernel
    obtain ⟨copy, hmem, hencumbered⟩ := List.any_eq_true.mp hany
    obtain ⟨p, hdraft⟩ : ∃ p, n.draftMove Holding.stamp copy Trial.issuer = .ok p :=
      Node.exists_draftMove (Vault.mem_live_iff.mp hmem)
    have hjudge := hobeys Exit.settings (Trial.seed 2) [] copied hframed _ _ _ p hdraft
    have hspendable :=
      (Node.ends_draftMove_approves_iff (coherent_run hframed) p hdraft).mp hjudge
    rw [Entity.isEncumbered, hspendable.isFree] at hencumbered
    cases hencumbered

end Activity

end Custody
