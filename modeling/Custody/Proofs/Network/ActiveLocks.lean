import Custody.Proofs.Network.Interleaving
import Custody.Proofs.Network.OwnLocks

/-!
# Active locks over one original

Before a node accepts a request, it looks for active locks over the originals in its own vault, and
the re-issuance does not consume the originals, so the notary has nothing to compare. What the look
can rule out is a second lock of the node's own. From the look to the finalisation, several rounds
later, no lock of the node's own can come in between, as long as the node has no other acceptance
under way. That is the invariant here. It says nothing about locks of other issuers, and it takes
the condition: the end of this file has a vault with two locks by two issuers, and one with two by
the issuer itself.
-/

namespace Custody

/-! ### Sound scenes -/

section

variable [Cryptosystem] {u v : Underway} {h h' : History}

/-- An operation under way is about a content that its node accepts and issues under its name,
brings up nothing else for finalisation, hands over only what was finalised, and accepts a request
if an active lock comes of it. -/
structure Underway.Valid (u : Underway) (h : History) : Prop where
  accepts : h.net.Accepts u.name u.content
  issuedBy : u.content.IssuedBy u.name
  step?_eq : ∀ r, u.content.LocksOver r → u.operation.step? = some .reissue
  exists_keeps : ∃ known, (∀ t, known t → ∃ owner, (owner, t) ∈ h.finalised) ∧
    u.rest.Keeps (fun t ↦ t.content = u.content) known fun _ ↦ True

/-- As long as it is not over, an operation that an active lock comes of is accepting. -/
theorem Underway.Valid.isAccepting (hvalid : u.Valid h) (hopen : u.rest.isOver = false)
    {r : OutputRef} (hlocks : u.content.LocksOver r) : u.isAccepting = true := by
  rw [Underway.isAccepting, hvalid.step?_eq r hlocks, hopen]
  rfl

theorem Underway.Valid.mono (hvalid : u.Valid h) (hgrows : h.net.Grows h'.net)
    (hfinalised : h.finalised ⊆ h'.finalised) : u.Valid h' := by
  refine ⟨hvalid.accepts.mono hgrows, hvalid.issuedBy, hvalid.step?_eq, ?_⟩
  obtain ⟨known, hknown, hkeeps⟩ := hvalid.exists_keeps
  exact ⟨known, fun t ht ↦ (hknown t ht).imp fun _ hmem ↦ hfinalised hmem, hkeeps⟩

namespace Scene

/-- The history is proper and the operations under way are valid. No two nodes of one name are
accepting; a node has one lock of its own over a reference at most; and while it is accepting, that
lock can only be the one that comes of it. -/
structure Sound (s : Scene) : Prop where
  proper : s.toHistory.Proper
  valid : ∀ u ∈ s.underway, u.Valid s.toHistory
  alone : ∀ (i j : Nat) (u v : Underway), s.underway[i]? = some u → s.underway[j]? = some v →
    u.isAccepting = true → v.isAccepting = true → u.name = v.name → i = j
  unique : ∀ name r lockRef lockRef', s.Governs name lockRef r → s.Governs name lockRef' r →
    lockRef = lockRef'
  pending : ∀ u ∈ s.underway, u.isAccepting = true → ∀ r lockRef, u.content.LocksOver r →
    s.Governs u.name lockRef r → lockRef.transaction = u.content.id

variable {s : Scene} {name : String}

/-- When a network grows and nothing is finalised, no node gets a further lock of its own. -/
theorem Sound.grow (hs : s.Sound) {net : Network} (hproper : History.Proper ⟨net, s.finalised⟩)
    (hgrows : s.net.Grows net) : Sound { s with net } := by
  have hbefore : ∀ {name : String} {lockRef r : OutputRef},
      History.Governs ⟨net, s.finalised⟩ name lockRef r → s.Governs name lockRef r := by
    intro name lockRef r hgoverns
    rcases hs.proper.governs_cases hproper hgrows (List.append_nil _).symm hgoverns with
      hold | ⟨_, hnew, -⟩
    · exact hold
    · exact absurd hnew List.not_mem_nil
  exact {
    proper := hproper
    valid := fun u hu ↦ (hs.valid u hu).mono hgrows (List.Subset.refl _)
    alone := hs.alone
    unique := fun _ _ _ _ hgoverns hgoverns' ↦
      hs.unique _ _ _ _ (hbefore hgoverns) (hbefore hgoverns')
    pending := fun u hu haccepting r lockRef hlocks hgoverns ↦
      hs.pending u hu haccepting r lockRef hlocks (hbefore hgoverns) }

/-- What an operation under way has finalised may add the one lock that its node did not have. -/
theorem Sound.finalise [Cryptosystem.SignsVerifiably] (hs : s.Sound) (hu : u ∈ s.underway)
    (hopen : u.rest.isOver = false) {t : Transaction} {notary : Notary} {e : Endorsement}
    (hcontent : t.content = u.content) (hnotarise : s.net.notary.notarise t = .ok (notary, e)) :
    Sound {
      net := ({ s.net with notary } : Network).update u.name (·.record (t.endorse e))
      finalised := s.finalised ++ [(u.name, t.endorse e)]
      underway := s.underway } := by
  have hvalid := hs.valid u hu
  have haccepts : s.net.Accepts u.name t.content := hcontent ▸ hvalid.accepts
  have hproper := hs.proper.finalise haccepts hnotarise (hcontent ▸ hvalid.issuedBy)
  have hgrows : ({ s.net with notary } : Network).Grows
      (({ s.net with notary } : Network).update u.name (·.record (t.endorse e))) :=
    Network.grows_update_of_advances (hs.proper.toSound.advances_record haccepts hnotarise)
  have hid : u.content.id = t.id := hcontent ▸ Notary.id_eq_of_notarise hnotarise
  have hcases : ∀ {name : String} {lockRef r : OutputRef},
      History.Governs ⟨({ s.net with notary } : Network).update u.name (·.record (t.endorse e)),
        s.finalised ++ [(u.name, t.endorse e)]⟩ name lockRef r →
      s.Governs name lockRef r ∨
        name = u.name ∧ lockRef.transaction = u.content.id ∧ u.content.LocksOver r := by
    intro name lockRef r hgoverns
    refine (hs.proper.governs_cases hproper hgrows rfl hgoverns).imp_right ?_
    rintro ⟨t', hmem, htransaction, hlocks⟩
    obtain ⟨rfl, rfl⟩ := Prod.mk.inj (List.mem_singleton.mp hmem)
    rw [Transaction.id_endorse] at htransaction
    rw [Transaction.content_endorse, hcontent] at hlocks
    exact ⟨rfl, htransaction.symm.trans hid.symm, hlocks⟩
  have hcomes : ∀ {lockRef r : OutputRef}, u.content.LocksOver r →
      History.Governs ⟨({ s.net with notary } : Network).update u.name (·.record (t.endorse e)),
        s.finalised ++ [(u.name, t.endorse e)]⟩ u.name lockRef r →
      lockRef.transaction = u.content.id := by
    intro lockRef r hlocks hgoverns
    rcases hcases hgoverns with hold | ⟨-, hnew, -⟩
    · exact hs.pending u hu (hvalid.isAccepting hopen hlocks) r lockRef hlocks hold
    · exact hnew
  refine ⟨hproper, ?_, hs.alone, ?_, ?_⟩
  · exact fun v hv ↦ (hs.valid v hv).mono hgrows (List.subset_append_left _ _)
  · intro name r lockRef lockRef' hgoverns hgoverns'
    -- Unless both locks are old, each comes of this operation.
    rcases hcases hgoverns with hold | ⟨rfl, -, hlocks⟩
    · rcases hcases hgoverns' with hold' | ⟨rfl, -, hlocks⟩
      · exact hs.unique name r lockRef lockRef' hold hold'
      · exact hproper.eq_of_governs hgoverns hgoverns'
          ((hcomes hlocks hgoverns).trans (hcomes hlocks hgoverns').symm)
    · exact hproper.eq_of_governs hgoverns hgoverns'
        ((hcomes hlocks hgoverns).trans (hcomes hlocks hgoverns').symm)
  · intro v hv hvaccepting r lockRef hvlocks hgoverns
    rcases hcases hgoverns with hold | ⟨hname, hnew, hlocks⟩
    · exact hs.pending v hv hvaccepting r lockRef hvlocks hold
    · obtain ⟨i, hi⟩ := List.mem_iff_getElem?.mp hu
      obtain ⟨j, hj⟩ := List.mem_iff_getElem?.mp hv
      obtain rfl :=
        hs.alone i j u v hi hj (hvalid.isAccepting hopen hlocks) hvaccepting hname.symm
      rw [hnew, Option.some.inj (hi.symm.trans hj)]

/-- An operation under way may go on as long as it remains about the same. -/
theorem Sound.replace (hs : s.Sound) {number : Nat} (hu : s.underway[number]? = some u)
    (hname : v.name = u.name) (hcontent : v.content = u.content) (hvalid : v.Valid s.toHistory)
    (haccepting : v.isAccepting = true → u.isAccepting = true) :
    Sound { s with underway := s.underway.set number v } := by
  have hsame : ∀ {i : Nat} {w : Underway}, (s.underway.set number v)[i]? = some w →
      ∃ w', s.underway[i]? = some w' ∧ w.name = w'.name ∧ w.content = w'.content ∧
        (w.isAccepting = true → w'.isAccepting = true) ∧ (w' = w ∨ w = v) := by
    intro i w hw
    rw [List.getElem?_set] at hw
    split at hw
    · rename_i hi
      subst hi
      split at hw
      · obtain rfl := Option.some.inj hw
        exact ⟨u, hu, hname, hcontent, haccepting, .inr rfl⟩
      · cases hw
    · exact ⟨w, hw, rfl, rfl, id, .inl rfl⟩
  refine ⟨hs.proper, ?_, ?_, hs.unique, ?_⟩
  · intro w hw
    obtain ⟨i, hi⟩ := List.mem_iff_getElem?.mp hw
    obtain ⟨w', hw', -, -, -, rfl | rfl⟩ := hsame hi
    · exact hs.valid w' (List.mem_of_getElem? hw')
    · exact hvalid
  · intro i j w x hw hx hwaccepting hxaccepting hnames
    obtain ⟨w', hw', hwname, -, hwold, -⟩ := hsame hw
    obtain ⟨x', hx', hxname, -, hxold, -⟩ := hsame hx
    exact hs.alone i j w' x' hw' hx' (hwold hwaccepting) (hxold hxaccepting)
      (hwname ▸ hxname ▸ hnames)
  · intro w hw hwaccepting r lockRef hlocks hgoverns
    obtain ⟨i, hi⟩ := List.mem_iff_getElem?.mp hw
    obtain ⟨w', hw', hwname, hwcontent, hwold, -⟩ := hsame hi
    rw [hwname] at hgoverns
    rw [hwcontent] at hlocks ⊢
    exact hs.pending w' (List.mem_of_getElem? hw') (hwold hwaccepting) r lockRef hlocks hgoverns

/-- The network goes on with an operation under way. -/
theorem Sound.move [Cryptosystem.SignsVerifiably] (hs : s.Sound) (hu : u ∈ s.underway) :
    Sound {
      net := (Stage.round u.name ⟨s.net, u.rest, u.peers⟩).1.net
      finalised := s.finalised ++
        (Stage.round u.name ⟨s.net, u.rest, u.peers⟩).2.map fun t ↦ (u.name, t)
      underway := s.underway } := by
  obtain ⟨known, hknown, hkeeps⟩ := (hs.valid u hu).exists_keeps
  have hopen := @Stage.isOver_eq_false_of_mem _ _ u.name ⟨s.net, u.rest, u.peers⟩
  obtain ⟨-, ⟨hnone, hnet⟩ | ⟨t, notary, e, hcontent, hnotarise, hts, hnet⟩⟩ :=
    @Stage.round_cases _ _ u.name ⟨s.net, u.rest, u.peers⟩ _ _ _ hkeeps
  · rw [hnone, List.map_nil, List.append_nil]
    rcases hnet with hnet | ⟨other, change, handed, hchange, hhanded, hnet⟩
    · rw [hnet]
      exact hs
    · rw [hnet]
      have hadvances : ∀ node, s.net.nodes[other]? = some node →
          node.Advances handed (change node) := fun node _ ↦ hchange node
      exact hs.grow (hs.proper.advance hadvances fun t ht ↦ hknown t (hhanded t ht))
        (Network.grows_update_of_advances hadvances)
  · rw [hts] at hopen
    rw [hts, hnet]
    exact hs.finalise hu (hopen List.mem_cons_self) hcontent hnotarise

theorem Sound.resume [Cryptosystem.SignsVerifiably] (hs : s.Sound) (number : Nat) :
    (s.resume number).Sound := by
  unfold Scene.resume
  cases hu : s.underway[number]? with
  | none => exact hs
  | some u =>
  have hmem := List.mem_of_getElem? hu
  obtain ⟨known, hknown, hkeeps⟩ := (hs.valid u hmem).exists_keeps
  obtain ⟨⟨known', hknown', hkeeps'⟩, -⟩ :=
    @Stage.round_cases _ _ u.name ⟨s.net, u.rest, u.peers⟩ _ _ _ hkeeps
  -- First the network goes on with the operation as it was, then the operation itself.
  have hmoved := hs.move hmem
  have hsame := hmoved.valid u hmem
  have hopen := @Stage.isOver_eq_false_of_round _ _ u.name ⟨s.net, u.rest, u.peers⟩
  refine hmoved.replace hu rfl rfl ?_ ?_
  · refine ⟨hsame.accepts, hsame.issuedBy, hsame.step?_eq, known', ?_, hkeeps'⟩
    intro t ht
    rcases hknown' t ht with hold | hnew
    · exact (hknown t hold).imp fun _ ↦ List.mem_append_left _
    · exact ⟨u.name, List.mem_append_right _ (List.mem_map_of_mem hnew)⟩
  · simp only [Underway.isAccepting, Bool.and_eq_true, Bool.not_eq_true']
    exact And.imp_right hopen

/-- A further operation may begin, alone if it accepts, and on what is under no lock of its node's
own. -/
theorem Sound.add (hs : s.Sound) (hvalid : v.Valid s.toHistory)
    (halone : v.isAccepting = true → ∀ u ∈ s.underway, u.isAccepting = true → u.name ≠ v.name)
    (hfree : ∀ r lockRef, v.content.LocksOver r → ¬ s.Governs v.name lockRef r) :
    Sound { s with underway := s.underway ++ [v] } := by
  refine ⟨hs.proper, ?_, ?_, hs.unique, ?_⟩
  · intro w hw
    rcases List.mem_append.mp hw with hold | hnew
    · exact hs.valid w hold
    · rw [List.mem_singleton.mp hnew]
      exact hvalid
  · intro i j w x hw hx hwaccepting hxaccepting hnames
    rcases Rules.getElem?_concat_cases hw with ⟨rfl, rfl⟩ | hw
    · rcases Rules.getElem?_concat_cases hx with ⟨rfl, -⟩ | hx
      · rfl
      · exact absurd hnames.symm (halone hwaccepting x (List.mem_of_getElem? hx) hxaccepting)
    · rcases Rules.getElem?_concat_cases hx with ⟨rfl, rfl⟩ | hx
      · exact absurd hnames (halone hxaccepting w (List.mem_of_getElem? hw) hwaccepting)
      · exact hs.alone i j w x hw hx hwaccepting hxaccepting hnames
  · intro w hw hwaccepting r lockRef hlocks hgoverns
    rcases List.mem_append.mp hw with hold | hnew
    · exact hs.pending w hold hwaccepting r lockRef hlocks hgoverns
    · rw [List.mem_singleton.mp hnew] at hlocks hgoverns
      exact absurd hgoverns (hfree r lockRef hlocks)

theorem Sound.launch (hs : s.Sound) {salt : Block 32} {operation : Operation}
    (hadmits : s.admits (.launch name salt operation) = true) :
    (s.launch name salt operation).Sound := by
  unfold Scene.launch
  cases hnode : s.net.nodes[name]? with
  | none => exact hs
  | some node =>
  simp only
  cases hp : node.propose ⟨s.net.notary.party, salt⟩ operation with
  | error error => exact hs
  | ok p =>
  simp only
  have hnamed := hs.proper.named name node hnode
  have horderly := hs.proper.orderly name node hnode
  have hissue : ∀ e ∈ p.content.outputs, ∀ lock, e.lock? = some lock → lock.isActive = true →
      operation.step? = some .reissue ∧ lock.issuer = node.party ∧
        ∀ r ∈ lock.snapshotRefs, node.Reissuable r :=
    fun _ he _ ↦ Node.reissuable_of_propose hp he
  refine hs.add ⟨⟨node, hnode, (Node.takes_of_propose hp).judge_eq⟩, ?_, ?_, _,
    hs.proper.archived name node hnode, ?_⟩ ?_ ?_
  · intro e he lock hlock hactive
    rw [(hissue e he lock hlock hactive).2.1, hnamed]
  · rintro r ⟨e, he, lock, hlock, hactive, -⟩
    exact (hissue e he lock hlock hactive).1
  · exact Dialogue.Keeps.mono Settling.ensures_settle (fun _ ht ↦ ht) fun _ _ ↦ trivial
  · intro haccepting
    rw [Underway.isAccepting, Bool.and_eq_true, beq_iff_eq] at haccepting
    exact admits_launch_iff.mp hadmits haccepting.1
  · -- What is proposed to be re-issued is under no lock of the node's own.
    rintro r lockRef ⟨e, he, lock, hlock, hactive, hr⟩ ⟨node', held, hnode', hgoverns, -⟩
    obtain rfl := Option.some.inj (hnode.symm.trans hnode')
    have hfree := horderly.leavesFree ((hissue e he lock hlock hactive).2.2 r hr)
    exact hfree.not_governs horderly.sound hgoverns

theorem sound_start {settings : NotarySettings} {net : Network}
    (hnew : Network.new settings = .ok net) : (start net).Sound where
  proper := History.proper_start hnew
  valid _ hu := absurd hu List.not_mem_nil
  alone _ _ _ _ hu := nomatch List.getElem?_nil.symm.trans hu
  unique := by
    rintro name r lockRef lockRef' ⟨node, _, hnode, -⟩
    cases (Network.getElem?_nodes_of_new hnew).symm.trans hnode
  pending _ hu := absurd hu List.not_mem_nil

/-- Whatever comes next, the scene stays sound, unless a node that is accepting begins to accept. -/
theorem Sound.take [Cryptosystem.SignsVerifiably] (hs : s.Sound) {turn : Turn}
    (hadmits : s.admits turn = true) : (s.take turn).Sound := by
  cases turn with
  | launch name salt operation => exact hs.launch hadmits
  | resume number => exact hs.resume number
  | attach name blob =>
    have hattach : ∀ node, s.net.nodes[name]? = some node →
        node.Advances (fun _ ↦ False) (node.attach blob) := fun _ _ ↦ Node.Advances.refl.attach
    exact hs.grow (hs.proper.advance hattach fun _ h ↦ h.elim)
      (Network.grows_update_of_advances hattach)
  | start settings further =>
    unfold Scene.take Network.after
    simp only
    split
    · exact hs
    · rename_i hnew
      split
      · rename_i hinstall
        refine hs.grow (hs.proper.install hnew hinstall) ?_
        obtain ⟨seed, -, hnodes⟩ := Network.exists_of_install hnew hinstall
        exact fun other node hnode ↦ ⟨node, hnodes.mpr (.inr hnode), .refl⟩
      · exact hs

theorem Sound.run [Cryptosystem.SignsVerifiably] {turns : List Turn} (hs : s.Sound)
    (hturn : s.AcceptsInTurn turns = true) : (s.run turns).Sound := by
  unfold Scene.run
  induction turns generalizing s with
  | nil => exact hs
  | cons turn turns ih =>
    rw [AcceptsInTurn, Bool.and_eq_true] at hturn
    exact ih (hs.take hturn.1) hturn.2

/-- However operations overlap on a new network, as long as every node is done with one acceptance
before it begins the next, every vault has at most one live active lock over a reference that its
own node issued. -/
theorem eq_of_mem_locksGoverning [Cryptosystem.SignsVerifiably] {settings : NotarySettings}
    {net : Network} (hnew : Network.new settings = .ok net) (turns : List Turn)
    (hturn : (start net).AcceptsInTurn turns = true) {name : String} {node : Node}
    (hnode : ((start net).run turns).net.nodes[name]? = some node) (r : OutputRef) :
    ∀ e ∈ node.ledger.vault.locksGoverning r, ∀ e' ∈ node.ledger.vault.locksGoverning r,
      ∀ lock lock', e.entity.lock? = some lock → e'.entity.lock? = some lock' →
        lock.issuer = node.party → lock'.issuer = node.party → e = e' := by
  intro e he e' he' lock lock' hlock hlock' hissuer hissuer'
  have hs := (sound_start hnew).run hturn
  have hnamed := hs.proper.named name node hnode
  have horderly := hs.proper.orderly name node hnode
  have hgrounded := hs.proper.grounded name node hnode
  obtain ⟨_, hheld, hgoverns⟩ := horderly.governs_of_mem hgrounded he
  obtain ⟨_, hheld', hgoverns'⟩ := horderly.governs_of_mem hgrounded he'
  obtain rfl := Option.some.inj (hlock.symm.trans hheld)
  obtain rfl := Option.some.inj (hlock'.symm.trans hheld')
  have href : e.ref = e'.ref :=
    hs.unique name r e.ref e'.ref ⟨node, lock, hnode, hgoverns, by rw [hissuer, hnamed]⟩
      ⟨node, lock', hnode, hgoverns', by rw [hissuer', hnamed]⟩
  have hlive := (Vault.mem_locksGoverning_iff.mp he).2.1
  have hlive' := (Vault.mem_locksGoverning_iff.mp he').2.1
  rw [href, hlive'] at hlive
  exact (Option.some.inj hlive).symm

/-- What is to happen next, in view of how far the scene has come. -/
abbrev Plan := Scene → List Turn

/-- What happens when plans are carried out one after the other. -/
def planned (s : Scene) : List Plan → List Turn
  | [] => []
  | plan :: plans => plan s ++ (s.run (plan s)).planned plans

/-- A plan is carried out, and it is watched whether acceptances have been in turn so far. -/
def follow (seen : Bool × Scene) (plan : Plan) : Bool × Scene :=
  (seen.1 && seen.2.AcceptsInTurn (plan seen.2), seen.2.run (plan seen.2))

theorem run_append {turns turns' : List Turn} :
    s.run (turns ++ turns') = (s.run turns).run turns' :=
  List.foldl_append

theorem acceptsInTurn_append {turns turns' : List Turn} :
    s.AcceptsInTurn (turns ++ turns') =
      (s.AcceptsInTurn turns && (s.run turns).AcceptsInTurn turns') := by
  induction turns generalizing s with
  | nil => rfl
  | cons turn turns ih =>
    rw [List.cons_append, AcceptsInTurn, ih, ← Bool.and_assoc]
    rfl

theorem foldl_follow {plans : List Plan} {inTurn : Bool} :
    plans.foldl follow (inTurn, s) =
      (inTurn && s.AcceptsInTurn (s.planned plans), s.run (s.planned plans)) := by
  induction plans generalizing s inTurn with
  | nil =>
    rw [List.foldl_nil, planned, AcceptsInTurn, Bool.and_true]
    rfl
  | cons plan plans ih =>
    rw [List.foldl_cons, follow, ih, planned, run_append, acceptsInTurn_append, Bool.and_assoc]

end Scene

end

/-! ### Two acceptances that overlap -/

namespace Scene.Overlap

open History.Twice (salt party notary net output new_eq)

/-- The original is issued, the holder asks its issuer and a second one to re-issue it, and both
accept in step. The second may be the first once more. -/
def plans (second : String) : List Plan := [
  fun _ ↦ [
    .start { legalName := "Issuer" } [],
    .start { legalName := second } [],
    .start { legalName := "Holder" } [],
    .launch "Issuer" (salt 0) (.issue ⟨"Bond", [7]⟩ (party "Holder"))] ++
    List.replicate 5 (.resume 0),
  fun s ↦ (output s.toHistory 0 0).flatMap fun original ↦ [
    .launch "Holder" (salt 1) <|
      .request ⟨party "Issuer", (party "Holder").key, [original.ref], "Issue", [], false⟩ false,
    .launch "Holder" (salt 2) <|
      .request ⟨party second, (party "Holder").key, [original.ref], "Issue", [], false⟩ true] ++
    List.replicate 6 (.resume 1) ++ List.replicate 6 (.resume 2),
  fun s ↦ (output s.toHistory 1 0).flatMap fun request ↦
    (output s.toHistory 2 0).flatMap fun request' ↦ [
      .launch "Issuer" (salt 3) (.accept ⟨request, none, []⟩),
      .launch second (salt 4) (.accept ⟨request', none, []⟩)] ++
      (List.replicate 8 [.resume 3, .resume 4]).flatten]

def turns (second : String) : List Turn := @planned .clear (start net) (plans second)

def seen (second : String) : Bool × Scene :=
  (plans second).foldl (@follow .clear) (true, start net)

theorem seen_eq {second : String} :
    seen second = (@AcceptsInTurn .clear (start net) (turns second),
      @run .clear (start net) (turns second)) := by
  rw [seen, turns, @foldl_follow .clear, Bool.true_and]

/-- Whether a node issued a lock. -/
def isOwn (node : Node) (e : Located) : Bool := e.entity.lock?.any (·.issuer == node.party)

theorem isOwn_eq_true_iff {node : Node} {e : Located} :
    isOwn node e = true ↔ ∃ lock, e.entity.lock? = some lock ∧ lock.issuer = node.party := by
  simp [isOwn, Option.any_eq_true]

/-- What a node finds to govern the original passes a test. -/
def finds (s : Scene) (name : String) (test : Node → List Located → Bool) : Bool :=
  (output s.toHistory 0 0).any fun original ↦ s.net.nodes[name]?.any fun node ↦
    test node (node.ledger.vault.locksGoverning original.ref)

theorem exists_of_finds {s : Scene} {name : String} {test : Node → List Located → Bool}
    (h : finds s name test = true) :
    ∃ node r, s.net.nodes[name]? = some node ∧
      test node (node.ledger.vault.locksGoverning r) = true := by
  obtain ⟨original, -, h⟩ := List.any_eq_true.mp h
  obtain ⟨node, hnode, htest⟩ := (Option.any_eq_true _ _).mp h
  exact ⟨node, original.ref, hnode, htest⟩

/-- The issuers each have one acceptance under way, and the holder gets a lock of either. -/
theorem two_issuers :
    @AcceptsInTurn .clear (start net) (turns "Other") = true ∧
      finds (@run .clear (start net) (turns "Other")) "Holder" (fun _ es ↦ es.length == 2) = true ∧
      finds (@run .clear (start net) (turns "Other")) "Issuer"
        (fun node es ↦ es.any (isOwn node)) = true := by
  have h : (seen "Other").1 = true ∧
      finds (seen "Other").2 "Holder" (fun _ es ↦ es.length == 2) = true ∧
      finds (seen "Other").2 "Issuer" (fun node es ↦ es.any (isOwn node)) = true := by
    decide +kernel
  rwa [seen_eq] at h

/-- Two issuers give a vault two active locks over one original, even in turn. -/
theorem not_length_locksGoverning_le_one :
    ¬ ∀ settings net turns (name : String) (node : Node) r,
      @Network.new .clear settings = .ok net →
      (@run .clear (start net) turns).net.nodes[name]? = some node →
      (node.ledger.vault.locksGoverning r).length ≤ 1 := by
  intro hone
  obtain ⟨node, r, hnode, htwo⟩ := exists_of_finds two_issuers.2.1
  have hle := hone {} net (turns "Other") "Holder" node r new_eq hnode
  rw [beq_iff_eq.mp htwo] at hle
  exact absurd hle (by decide)

/-- The issuer of the two that issued the original has one lock of its own. -/
theorem exists_own_lock :
    ∃ (node : Node) (r : OutputRef) (e : Located) (lock : Lock),
      @AcceptsInTurn .clear (start net) (turns "Other") = true ∧
      (@run .clear (start net) (turns "Other")).net.nodes["Issuer"]? = some node ∧
      e ∈ node.ledger.vault.locksGoverning r ∧ e.entity.lock? = some lock ∧
      lock.issuer = node.party ∧
      ∀ e' ∈ node.ledger.vault.locksGoverning r, ∀ lock', e'.entity.lock? = some lock' →
        lock'.issuer = node.party → e = e' := by
  obtain ⟨hturn, -, hown⟩ := two_issuers
  obtain ⟨node, r, hnode, hown⟩ := exists_of_finds hown
  obtain ⟨e, he, hown⟩ := List.any_eq_true.mp hown
  obtain ⟨lock, hlock, hissuer⟩ := isOwn_eq_true_iff.mp hown
  refine ⟨node, r, e, lock, hturn, hnode, he, hlock, hissuer, ?_⟩
  intro e' he' lock' hlock' hissuer'
  exact @eq_of_mem_locksGoverning .clear Cryptosystem.clear_signsVerifiably {} net new_eq
    (turns "Other") hturn "Issuer" node hnode r e he e' he' lock lock' hlock hlock' hissuer hissuer'

/-- An issuer that begins to accept while it is accepting gives itself two. -/
theorem exists_own_locks_of_overlap :
    ∃ (node : Node) (r : OutputRef) (e e' : Located) (lock lock' : Lock),
      (@run .clear (start net) (turns "Issuer")).net.nodes["Issuer"]? = some node ∧
      e ∈ node.ledger.vault.locksGoverning r ∧ e' ∈ node.ledger.vault.locksGoverning r ∧
      e.entity.lock? = some lock ∧ e'.entity.lock? = some lock' ∧
      lock.issuer = node.party ∧ lock'.issuer = node.party ∧ e.ref ≠ e'.ref := by
  have hpair : finds (seen "Issuer").2 "Issuer" (fun node es ↦
      es.any fun e ↦ isOwn node e && es.any fun e' ↦ isOwn node e' && e.ref != e'.ref) = true := by
    decide +kernel
  rw [seen_eq] at hpair
  obtain ⟨node, r, hnode, hpair⟩ := exists_of_finds hpair
  obtain ⟨e, he, hpair⟩ := List.any_eq_true.mp hpair
  obtain ⟨hown, hpair⟩ := Bool.and_eq_true_iff.mp hpair
  obtain ⟨e', he', hpair⟩ := List.any_eq_true.mp hpair
  obtain ⟨hown', hne⟩ := Bool.and_eq_true_iff.mp hpair
  obtain ⟨lock, hlock, hissuer⟩ := isOwn_eq_true_iff.mp hown
  obtain ⟨lock', hlock', hissuer'⟩ := isOwn_eq_true_iff.mp hown'
  exact ⟨node, r, e, e', lock, lock', hnode, he, he', hlock, hlock', hissuer, hissuer',
    bne_iff_ne.mp hne⟩

end Scene.Overlap

end Custody
