import Custody.Proofs.Ledger.Lifecycle
import Custody.Proofs.Network.Release

/-!
# Locks of a node's own

Whoever has a re-issuance finalised is the issuer that its lock names. A node therefore gets a lock
of its own over a reference through its own finalisations only, whatever it is handed by others, and
each of them creates no more than one.
-/

namespace Custody

/-! ### Locks in an archive -/

/-- An archived lock is active, names a reference in its snapshot, and has not been consumed as far
as is archived. -/
structure Archive.Governs (archive : Archive) (lockRef r : OutputRef) (lock : Lock) : Prop where
  lock_eq : archive.lockAt? lockRef = some lock
  isActive : lock.isActive = true
  mem : r ∈ lock.snapshotRefs
  notMem_inputs : ∀ (id : TransactionId) (t : Transaction), archive[id]? = some t →
    lockRef ∉ t.content.inputs

namespace Archive.Governs

variable {archive archive' : Archive} {lockRef r : OutputRef} {lock : Lock}

/-- The transaction that created the lock. -/
theorem exists_transaction (h : archive.Governs lockRef r lock) :
    ∃ t e, archive[lockRef.transaction]? = some t ∧
      t.content.outputs[lockRef.index.toNat]? = some e ∧ e.lock? = some lock := by
  obtain ⟨e, he, hlock⟩ := lockAt?_eq_some_iff.mp h.lock_eq
  obtain ⟨-, t, ht, houtput⟩ := resolve_eq_ok_iff.mp he
  exact ⟨t, e.entity, ht, houtput, hlock⟩

/-- A lock that is not consumed now was not consumed before, if it was archived then. -/
theorem before (h : archive'.Governs lockRef r lock) (hle : Extends archive archive')
    (hheld : lockRef.transaction ∈ archive) : archive.Governs lockRef r lock := by
  obtain ⟨t, e, ht, houtput, hlock⟩ := h.exists_transaction
  rw [Std.TreeMap.mem_iff_isSome_getElem?] at hheld
  obtain ⟨held, hheld⟩ := Option.isSome_iff_exists.mp hheld
  obtain rfl := Option.some.inj (ht.symm.trans (hle _ _ hheld))
  refine ⟨lockAt?_eq_some_iff.mpr ⟨⟨e, lockRef⟩, ?_, hlock⟩, h.isActive, h.mem, ?_⟩
  · exact resolve_eq_ok_iff.mpr ⟨rfl, t, hheld, houtput⟩
  · exact fun id u hu ↦ h.notMem_inputs id u (hle id u hu)

end Archive.Governs

namespace Node

variable [Cryptosystem] {n : Node} {r lockRef lockRef' : OutputRef} {lock lock' : Lock}

/-- One transaction creates one lock over a reference. -/
theorem Sound.eq_of_governs (h : n.Sound) (hgoverns : n.ledger.archive.Governs lockRef r lock)
    (hgoverns' : n.ledger.archive.Governs lockRef' r lock')
    (htransaction : lockRef.transaction = lockRef'.transaction) : lockRef = lockRef' := by
  obtain ⟨t, e, ht, houtput, hlock⟩ := hgoverns.exists_transaction
  obtain ⟨t', e', ht', houtput', hlock'⟩ := hgoverns'.exists_transaction
  have hlast := (h.locks_last ht ⟨e, lock, houtput, hlock, hgoverns.isActive, hgoverns.mem⟩).2
  have hlast' :=
    (h.locks_last ht' ⟨e', lock', houtput', hlock', hgoverns'.isActive, hgoverns'.mem⟩).2
  obtain rfl : t = t' := Option.some.inj (ht.symm.trans (htransaction ▸ ht'))
  have hindex : lockRef.index = lockRef'.index := UInt32.toNat_inj.mp (by omega)
  calc
    lockRef = ⟨lockRef.transaction, lockRef.index⟩ := rfl
    _ = lockRef' := by rw [htransaction, hindex]

/-- A transaction with an active lock is short enough for references to tell its outputs apart. -/
theorem Sound.length_outputs_lt (h : n.Sound) {id : TransactionId} {t : Transaction} {e : Entity}
    (ht : n.ledger.archive[id]? = some t) (hmem : e ∈ t.content.outputs)
    (hlock : e.lock? = some lock) (hactive : lock.isActive = true) :
    t.content.outputs.length < 2 ^ 32 := by
  obtain ⟨index, houtput⟩ := List.mem_iff_getElem?.mp hmem
  obtain ⟨inputs, -, hcheck⟩ := judge_eq_ok_iff.mp (h id t ht).2.2
  obtain ⟨_, _, -, -, hreissues, -⟩ := Rules.reissues_of_isActive hcheck houtput hlock hactive
  exact hreissues.length_outputs_lt (Rules.check_eq_ok_iff.mp hcheck).1

/-- What a vault finds to govern a reference is an archived lock over it. -/
theorem Orderly.governs_of_mem (h : n.Orderly) (hgrounded : n.ledger.Grounded) {e : Located}
    (hmem : e ∈ n.ledger.vault.locksGoverning r) :
    ∃ lock, e.entity.lock? = some lock ∧ n.ledger.archive.Governs e.ref r lock := by
  obtain ⟨hindexes, hlive, lock, hlock, hactive⟩ := Vault.mem_locksGoverning_iff.mp hmem
  obtain ⟨hconsumed, hentity, -⟩ := Vault.live?_eq_some_iff.mp hlive
  obtain ⟨t, ht, hlocated⟩ := hgrounded.produced e.ref e.entity hentity
  obtain ⟨t', ht', e', he', href, lock', hlock', hr⟩ := hgrounded.named r e.ref hindexes
  obtain rfl := Option.some.inj (ht.symm.trans ht')
  obtain ⟨index, houtput, -⟩ := Transaction.mem_located_iff.mp hlocated
  have hsize := h.sound.length_outputs_lt ht (List.mem_of_getElem? houtput) hlock hactive
  have hsame : e'.entity = e.entity := by
    have hknown := h.faithful.known _ t ht (Nat.le_of_lt hsize) e' he'
    rw [href, hentity] at hknown
    exact (Option.some.inj hknown).symm
  rw [hsame, hlock, Option.some.injEq] at hlock'
  refine ⟨lock, hlock, ?_, hactive, hlock' ▸ hr, ?_⟩
  · have hentity := Transaction.getElem?_of_mem_located (Nat.le_of_lt hsize) hlocated
    have hresolve : n.ledger.archive.resolve e.ref = .ok e :=
      Archive.resolve_eq_ok_iff.mpr ⟨rfl, t, ht, hentity⟩
    exact Archive.lockAt?_eq_some_iff.mpr ⟨e, hresolve, hlock⟩
  · intro id u hu hinput
    have hsome := h.faithful.consumed id u hu e.ref hinput
    rw [hconsumed] at hsome
    cases hsome

/-- Nothing governs what an archive leaves free. -/
theorem LeavesFree.not_governs (h : n.LeavesFree r) (hsound : n.Sound) :
    ¬ n.ledger.archive.Governs lockRef r lock := by
  intro hgoverns
  obtain ⟨t, e, ht, houtput, hlock⟩ := hgoverns.exists_transaction
  have hlocks : t.Locks lockRef.index r :=
    ⟨e, lock, houtput, hlock, hgoverns.isActive, hgoverns.mem⟩
  obtain ⟨consumer, u, hu, hinput, -⟩ := h.exists_consumer _ t lockRef.index ht hlocks
  rw [Transaction.outputRef, (hsound _ t ht).1] at hinput
  exact hgoverns.notMem_inputs consumer u hu hinput

end Node

/-! ### Locks of a node's own -/

namespace Network

variable [Cryptosystem] {net net' : Network} {name : String} {change : Node → Node}

/-- Every node is still there and has let go of nothing. -/
def Grows (net net' : Network) : Prop :=
  ∀ (name : String) (node : Node), net.nodes[name]? = some node →
    ∃ node', net'.nodes[name]? = some node' ∧ node.Grows node'

omit [Cryptosystem] in
theorem Grows.refl : net.Grows net := fun _ node hnode ↦ ⟨node, hnode, .refl⟩

omit [Cryptosystem] in
theorem grows_update (hchange : ∀ node, net.nodes[name]? = some node → node.Grows (change node)) :
    net.Grows (net.update name change) := by
  intro other node hnode
  rw [getElem?_update, hnode]
  split
  · rename_i hsame
    exact ⟨change node, rfl, hchange node (hsame ▸ hnode)⟩
  · exact ⟨node, rfl, .refl⟩

theorem grows_update_of_advances {known : Transaction → Prop}
    (hchange : ∀ node, net.nodes[name]? = some node → node.Advances known (change node)) :
    net.Grows (net.update name change) :=
  grows_update fun node hnode ↦ (hchange node hnode).grows

theorem Accepts.mono {c : Content} (h : net.Accepts name c) (hgrows : net.Grows net') :
    net'.Accepts name c := by
  obtain ⟨node, hnode, hjudge⟩ := h
  obtain ⟨node', hnode', hgrown⟩ := hgrows name node hnode
  exact ⟨node', hnode', Node.judge_mono hgrown hjudge⟩

end Network

namespace Content

/-- The active locks that a content produces are issued under a name. -/
def IssuedBy (c : Content) (name : String) : Prop :=
  ∀ e ∈ c.outputs, ∀ lock, e.lock? = some lock → lock.isActive = true → lock.issuer.name = name

/-- A content produces an active lock over a reference. -/
def LocksOver (c : Content) (r : OutputRef) : Prop :=
  ∃ e ∈ c.outputs, ∃ lock, e.lock? = some lock ∧ lock.isActive = true ∧ r ∈ lock.snapshotRefs

end Content

namespace History

variable [Cryptosystem] {h h' : History} {name : String} {r lockRef lockRef' : OutputRef}

/-- A sound history in which every node goes by its own name, in the vault as in what it issues. -/
structure Proper (h : History) : Prop extends h.Sound where
  named : ∀ (name : String) (node : Node), h.net.nodes[name]? = some node → node.party.name = name
  grounded : ∀ (name : String) (node : Node), h.net.nodes[name]? = some node →
    node.ledger.Grounded
  issued : ∀ (name : String) (t : Transaction), (name, t) ∈ h.finalised → t.content.IssuedBy name

/-- A lock of the node's own is active in its archive, names a reference and is not consumed. -/
def Governs (h : History) (name : String) (lockRef r : OutputRef) : Prop :=
  ∃ node lock, h.net.nodes[name]? = some node ∧ node.ledger.archive.Governs lockRef r lock ∧
    lock.issuer.name = name

/-- A lock of a node's own either was there before or is finalised since by that node. -/
theorem Proper.governs_cases {further : List (String × Transaction)} (hproper : h.Proper)
    (hproper' : h'.Proper) (hgrows : h.net.Grows h'.net)
    (hfurther : h'.finalised = h.finalised ++ further) (hgoverns : h'.Governs name lockRef r) :
    h.Governs name lockRef r ∨
      ∃ t, (name, t) ∈ further ∧ t.id = lockRef.transaction ∧ t.content.LocksOver r := by
  obtain ⟨node', lock, hnode', hgoverns, hissuer⟩ := hgoverns
  obtain ⟨t, e, ht, houtput, hlock⟩ := hgoverns.exists_transaction
  have hmem := List.mem_of_getElem? houtput
  have hid := ((hproper'.orderly name node' hnode').sound _ t ht).1
  -- Whoever had the transaction finalised issued the lock, so it is this node.
  obtain ⟨owner, howner⟩ := hproper'.archived name node' hnode' t ⟨_, ht⟩
  obtain rfl : owner = name :=
    (hproper'.issued owner t howner e hmem lock hlock hgoverns.isActive).symm.trans hissuer
  rw [hfurther, List.mem_append] at howner
  rcases howner with hpast | hnew
  · obtain ⟨node, hnode, hheld, -⟩ := hproper.recorded owner t hpast
    obtain ⟨grown, hgrown, hextends⟩ := hgrows owner node hnode
    obtain rfl := Option.some.inj (hnode'.symm.trans hgrown)
    rw [hid] at hheld
    exact .inl ⟨node, lock, hnode, hgoverns.before hextends.archive hheld, hissuer⟩
  · exact .inr ⟨t, hnew, hid, e, hmem, lock, hlock, hgoverns.isActive, hgoverns.mem⟩

/-- Locks of a node's own that one transaction created are one. -/
theorem Proper.eq_of_governs (hproper : h.Proper) (hgoverns : h.Governs name lockRef r)
    (hgoverns' : h.Governs name lockRef' r)
    (htransaction : lockRef.transaction = lockRef'.transaction) :
    lockRef = lockRef' := by
  obtain ⟨node, lock, hnode, hlock, -⟩ := hgoverns
  obtain ⟨node', lock', hnode', hlock', -⟩ := hgoverns'
  obtain rfl := Option.some.inj (hnode.symm.trans hnode')
  exact (hproper.orderly name node hnode).sound.eq_of_governs hlock hlock' htransaction

/-! ### Proper histories -/

variable {net : Network} {past : List (String × Transaction)} {change : Node → Node}

theorem Proper.update {known : Transaction → Prop} (hproper : Proper ⟨net, past⟩)
    (hchange : ∀ node, net.nodes[name]? = some node → node.Advances known (change node))
    {further : List (String × Transaction)}
    (hsound : Sound ⟨net.update name change, past ++ further⟩)
    (hissued : ∀ owner t, (owner, t) ∈ further → t.content.IssuedBy owner) :
    Proper ⟨net.update name change, past ++ further⟩ := by
  have hnodes : ∀ (other : String) (node' : Node),
      (net.update name change).nodes[other]? = some node' →
        ∃ node, net.nodes[other]? = some node ∧ node.Advances known node' := by
    intro other node' hnode'
    rw [Network.getElem?_update] at hnode'
    split at hnode'
    · rename_i hsame
      obtain ⟨node, hnode, rfl⟩ := Option.map_eq_some_iff.mp hnode'
      exact ⟨node, hnode, hchange node (hsame ▸ hnode)⟩
    · exact ⟨node', hnode', .refl⟩
  refine ⟨hsound, ?_, ?_, ?_⟩
  · intro other node' hnode'
    obtain ⟨node, hnode, hadvances⟩ := hnodes other node' hnode'
    rw [hadvances.party_eq]
    exact hproper.named other node hnode
  · intro other node' hnode'
    obtain ⟨node, hnode, hadvances⟩ := hnodes other node' hnode'
    exact hadvances.grounded (hproper.grounded other node hnode)
  · intro owner t ht
    rcases List.mem_append.mp ht with hold | hnew
    · exact hproper.issued owner t hold
    · exact hissued owner t hnew

/-- A node may advance by what was finalised. -/
theorem Proper.advance {known : Transaction → Prop} (hproper : Proper ⟨net, past⟩)
    (hchange : ∀ node, net.nodes[name]? = some node → node.Advances known (change node))
    (hknown : ∀ t, known t → ∃ owner, (owner, t) ∈ past) :
    Proper ⟨net.update name change, past⟩ := by
  have hsound := hproper.toSound.advance hchange hknown
  have hupdated := @Proper.update _ _ _ _ _ _ hproper hchange []
  rw [List.append_nil] at hupdated
  exact hupdated hsound fun _ _ ht ↦ absurd ht List.not_mem_nil

/-- The notary signs what a node accepts and issues under its name, and the node records it. -/
theorem Proper.finalise [Cryptosystem.SignsVerifiably] {t : Transaction} {notary : Notary}
    {e : Endorsement} (hproper : Proper ⟨net, past⟩) (haccepts : net.Accepts name t.content)
    (hnotarise : net.notary.notarise t = .ok (notary, e)) (hissued : t.content.IssuedBy name) :
    Proper ⟨({ net with notary } : Network).update name (·.record (t.endorse e)),
      past ++ [(name, t.endorse e)]⟩ := by
  have hsigned : Proper ⟨{ net with notary }, past⟩ :=
    ⟨hproper.toSound.notarise hnotarise, hproper.named, hproper.grounded, hproper.issued⟩
  apply hsigned.update (hproper.toSound.advances_record haccepts hnotarise)
    (hproper.toSound.finalise haccepts hnotarise)
  intro owner u hu
  obtain ⟨rfl, rfl⟩ := Prod.mk.inj (List.mem_singleton.mp hu)
  rwa [Transaction.content_endorse]

theorem proper_start {settings : NotarySettings} (hnew : Network.new settings = .ok net) :
    (start net).Proper := by
  have hnone : ∀ (name : String) (node : Node), (start net).net.nodes[name]? ≠ some node :=
    fun _ _ hnode ↦ nomatch (Network.getElem?_nodes_of_new hnew).symm.trans hnode
  exact ⟨sound_start hnew, fun name node hnode ↦ absurd hnode (hnone name node),
    fun name node hnode ↦ absurd hnode (hnone name node), fun _ _ ht ↦ absurd ht List.not_mem_nil⟩

/-- A node of a new name joins with nothing recorded, and goes by that name. -/
theorem Proper.install {settings : NodeSettings} {further : List Seed} {joined : Network × Party}
    (hproper : Proper ⟨net, past⟩) (hnew : settings.legalName ∉ net.nodes)
    (hinstall : net.install settings further = .ok joined) : Proper ⟨joined.1, past⟩ := by
  obtain ⟨seed, -, hnodes⟩ := Network.exists_of_install hnew hinstall
  refine ⟨hproper.toSound.install hnew hinstall, ?_, ?_, hproper.issued⟩
  · intro name node hnode
    rcases hnodes.mp hnode with ⟨rfl, rfl⟩ | hold
    · rfl
    · exact hproper.named name node hold
  · intro name node hnode
    rcases hnodes.mp hnode with ⟨-, rfl⟩ | hold
    · exact Ledger.grounded_empty
    · exact hproper.grounded name node hold

end History

end Custody
