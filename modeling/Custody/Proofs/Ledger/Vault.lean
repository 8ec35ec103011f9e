import Custody.Proofs.Ledger.Growth
import Custody.Proofs.Transaction.Outputs

/-!
# The vault follows the archive

What a vault knows is what the archived transactions produced, and what it holds for consumed is
what they consumed. Transactions are kept under their ids, so the outputs of one never take the
place of another's. A lock is found under every reference of its snapshot from the time it is
recorded, and governs it until a transaction that consumes the lock is recorded.
-/

namespace Custody

namespace Vault

variable {v : Vault} {e : Located} {es : List Located} {t : Transaction} {r lockRef : OutputRef}

/-! ### What is consumed -/

theorem consumeAll_eq {refs : List OutputRef} {consumer : TransactionId} :
    refs.foldl (fun v r ↦ v.consume r consumer) v = { v with
      consumed := refs.foldl (fun consumed r ↦ consumed.insert r consumer) v.consumed } := by
  induction refs generalizing v with
  | nil => rfl
  | cons ref refs ih => exact ih

theorem consumed_putAll : (es.foldl put v).consumed = v.consumed := by
  induction es generalizing v with
  | nil => rfl
  | cons e es ih => exact ih

theorem consumedBy?_apply :
    (v.apply t).consumedBy? r = if r ∈ t.content.inputs then some t.id else v.consumedBy? r := by
  unfold apply consumedBy?
  rw [consumed_putAll, consumeAll_eq]
  exact getElem?_insertAll

/-! ### What is known -/

theorem entities_putAll_of_notMem (h : r ∉ es.map Located.ref) :
    (es.foldl put v).entities[r]? = v.entities[r]? := by
  induction es generalizing v with
  | nil => rfl
  | cons e es ih =>
    rw [List.map_cons, List.mem_cons, not_or] at h
    rw [List.foldl_cons, ih h.2]
    unfold put
    rw [Std.TreeMap.getElem?_insert, if_neg]
    exact fun heq ↦ h.1 (Std.LawfulEqOrd.eq_of_compare heq).symm

theorem entities_putAll_of_mem (hnodup : (es.map Located.ref).Nodup) (h : e ∈ es) :
    (es.foldl put v).entities[e.ref]? = some e.entity := by
  induction es generalizing v with
  | nil => exact absurd h List.not_mem_nil
  | cons first es ih =>
    rw [List.map_cons, List.nodup_cons] at hnodup
    rw [List.foldl_cons]
    rcases List.mem_cons.mp h with rfl | hmem
    · rw [entities_putAll_of_notMem hnodup.1]
      exact Std.TreeMap.getElem?_insert_self
    · exact ih hnodup.2 hmem

/-- The outputs of one transaction do not take the place of another's. -/
theorem entities_apply_of_ne (h : r.transaction ≠ t.id) :
    (v.apply t).entities[r]? = v.entities[r]? := by
  unfold apply
  rw [entities_putAll_of_notMem, consumeAll_eq]
  intro hmem
  obtain ⟨e, he, rfl⟩ := List.mem_map.mp hmem
  exact h (Transaction.transaction_eq_of_mem_located he)

theorem entities_apply_of_mem (hsize : t.content.outputs.length ≤ 2 ^ 32) (h : e ∈ t.located) :
    (v.apply t).entities[e.ref]? = some e.entity :=
  entities_putAll_of_mem (Transaction.nodup_refs_located hsize) h

theorem entities_putAll_cases {entity : Entity}
    (h : (es.foldl put v).entities[r]? = some entity) :
    ⟨entity, r⟩ ∈ es ∨ v.entities[r]? = some entity := by
  induction es generalizing v with
  | nil => exact .inr h
  | cons e es ih =>
    rw [List.foldl_cons] at h
    rcases ih h with hmem | hput
    · exact .inl (List.mem_cons_of_mem e hmem)
    · unfold put at hput
      rw [Std.TreeMap.getElem?_insert] at hput
      split at hput
      · rename_i hsame
        obtain rfl := Option.some.inj hput
        obtain rfl := Std.LawfulEqOrd.eq_of_compare hsame
        cases e with
        | mk held ref => exact .inl List.mem_cons_self
      · exact .inr hput

theorem entities_apply_cases {entity : Entity} (h : (v.apply t).entities[r]? = some entity) :
    ⟨entity, r⟩ ∈ t.located ∨ v.entities[r]? = some entity := by
  have hcases := entities_putAll_cases h
  rwa [consumeAll_eq] at hcases

theorem live?_eq_some_iff :
    v.live? r = some e ↔ v.consumedBy? r = none ∧ v.entities[r]? = some e.entity ∧ e.ref = r := by
  unfold live? consumedBy?
  simp only [Std.TreeMap.mem_iff_isSome_getElem?]
  cases v.consumed[r]? with
  | some consumer => simp
  | none =>
    simp only [Option.isSome_none, Bool.false_eq_true, if_false, true_and, Option.map_eq_some_iff]
    constructor
    · rintro ⟨entity, hentity, rfl⟩
      exact ⟨hentity, rfl⟩
    · rintro ⟨hentity, rfl⟩
      cases e with
      | mk held ref => exact ⟨held, hentity, rfl⟩

/-! ### The index -/

/-- The index leads from a reference to that of a lock. -/
def Indexes (v : Vault) (r lockRef : OutputRef) : Prop := lockRef ∈ v.lockIndex.getD r ∅

/-- An entity with a lock whose snapshot names a reference. -/
def Names (e : Located) (r : OutputRef) : Prop :=
  ∃ lock, e.entity.lock? = some lock ∧ r ∈ lock.snapshotRefs

theorem mem_indexLock_iff {index : Std.TreeMap OutputRef (Std.TreeSet OutputRef)}
    {newRef : OutputRef} {lock : Lock} :
    lockRef ∈ (indexLock index newRef lock).getD r ∅ ↔
      newRef = lockRef ∧ r ∈ lock.snapshotRefs ∨ lockRef ∈ index.getD r ∅ := by
  unfold indexLock
  induction lock.snapshotRefs generalizing index with
  | nil => simp
  | cons entry entries ih =>
    rw [List.foldl_cons, ih, Std.TreeMap.getD_insert]
    by_cases hentry : entry = r
    · simp only [hentry, Std.ReflCmp.compare_self, if_true, Std.TreeSet.mem_insert,
        Std.LawfulEqCmp.compare_eq_iff_eq, List.mem_cons_self, and_true]
      exact or_iff_right_of_imp fun h ↦ .inl h.1
    · simp [hentry, Ne.symm hentry]

theorem indexes_put_iff :
    (v.put e).Indexes r lockRef ↔ e.ref = lockRef ∧ Names e r ∨ v.Indexes r lockRef := by
  unfold put Indexes Names
  cases e.entity.lock? with
  | none => simp
  | some lock => simp [mem_indexLock_iff]

theorem indexes_putAll_iff :
    (es.foldl put v).Indexes r lockRef ↔
      (∃ e ∈ es, e.ref = lockRef ∧ Names e r) ∨ v.Indexes r lockRef := by
  induction es generalizing v with
  | nil => simp
  | cons e es ih =>
    rw [List.foldl_cons, ih, indexes_put_iff, ← or_assoc]
    simp only [List.mem_cons, exists_eq_or_imp]
    rw [or_comm (a := ∃ e ∈ es, _)]

theorem indexes_apply_iff :
    (v.apply t).Indexes r lockRef ↔
      (∃ e ∈ t.located, e.ref = lockRef ∧ Names e r) ∨ v.Indexes r lockRef := by
  unfold apply
  rw [indexes_putAll_iff, consumeAll_eq]
  exact Iff.rfl

theorem mem_locksGoverning_iff :
    e ∈ v.locksGoverning r ↔ v.Indexes r e.ref ∧ v.live? e.ref = some e ∧
      ∃ lock, e.entity.lock? = some lock ∧ lock.isActive = true := by
  unfold locksGoverning Indexes
  simp only [List.mem_filter, List.mem_filterMap, Std.TreeSet.mem_toList, Option.any_eq_true]
  rw [← and_assoc]
  apply and_congr_left'
  constructor
  · rintro ⟨ref, hmem, hlive⟩
    obtain ⟨-, -, rfl⟩ := live?_eq_some_iff.mp hlive
    exact ⟨hmem, hlive⟩
  · rintro ⟨hmem, hlive⟩
    exact ⟨e.ref, hmem, hlive⟩

end Vault

/-! ### The vault of a ledger -/

namespace Ledger

variable {l : Ledger} {t u : Transaction} {id : TransactionId} {e : Located}

/-- The vault agrees with the archive. -/
structure Faithful (l : Ledger) : Prop where
  id_eq : ∀ (id : TransactionId) (t : Transaction), l.archive[id]? = some t → t.id = id
  consumer : ∀ (r : OutputRef) (id : TransactionId), l.vault.consumedBy? r = some id →
    ∃ t : Transaction, l.archive[id]? = some t ∧ r ∈ t.content.inputs
  consumed : ∀ (id : TransactionId) (t : Transaction), l.archive[id]? = some t →
    ∀ r ∈ t.content.inputs, (l.vault.consumedBy? r).isSome = true
  known : ∀ (id : TransactionId) (t : Transaction), l.archive[id]? = some t →
    t.content.outputs.length ≤ 2 ^ 32 →
    ∀ e ∈ t.located, l.vault.entities[e.ref]? = some e.entity
  indexed : ∀ (id : TransactionId) (t : Transaction), l.archive[id]? = some t →
    ∀ e ∈ t.located, ∀ r, Vault.Names e r → l.vault.Indexes r e.ref

theorem faithful_empty : empty.Faithful := by
  have hempty : ∀ (id : TransactionId) (t : Transaction), empty.archive[id]? ≠ some t := by
    intro id t h
    rw [show empty.archive = ∅ from rfl, Std.TreeMap.getElem?_emptyc] at h
    cases h
  refine ⟨fun id t h ↦ absurd h (hempty id t), ?_, fun id t h ↦ absurd h (hempty id t),
    fun id t h ↦ absurd h (hempty id t), fun id t h ↦ absurd h (hempty id t)⟩
  intro r id h
  rw [Vault.consumedBy?, show empty.vault.consumed = ∅ from rfl, Std.TreeMap.getElem?_emptyc] at h
  cases h

theorem record_of_mem (h : t.id ∈ l.archive) : (l.record t).1 = l := by
  unfold record
  rw [if_pos h]

theorem vault_record_of_notMem (h : t.id ∉ l.archive) :
    (l.record t).1.vault = l.vault.apply t := by
  unfold record
  rw [if_neg h]

/-- Recording keeps the vault in step with the archive. -/
theorem Faithful.record (h : l.Faithful) : (l.record t).1.Faithful := by
  by_cases hheld : t.id ∈ l.archive
  · rwa [record_of_mem hheld]
  have hvault := vault_record_of_notMem hheld
  -- No output of an older transaction has a reference of the new one.
  have holder : ∀ (id : TransactionId) (u : Transaction), l.archive[id]? = some u →
      ∀ e ∈ u.located, e.ref.transaction ≠ t.id := by
    intro id u hu e he heq
    rw [Transaction.transaction_eq_of_mem_located he, h.id_eq id u hu] at heq
    apply hheld
    rw [← heq, Std.TreeMap.mem_iff_isSome_getElem?, hu]
    rfl
  constructor
  · intro id u hu
    rcases getElem?_archive_record.mp hu with hold | ⟨-, hid, rfl⟩
    · exact h.id_eq id u hold
    · exact hid
  · intro r id hconsumed
    rw [hvault, Vault.consumedBy?_apply] at hconsumed
    split at hconsumed
    · rename_i hinput
      have hid := Option.some.inj hconsumed
      exact ⟨t, getElem?_archive_record.mpr (.inr ⟨hheld, hid, rfl⟩), hinput⟩
    · obtain ⟨u, hu, hinput⟩ := h.consumer r id hconsumed
      exact ⟨u, getElem?_archive_record.mpr (.inl hu), hinput⟩
  · intro id u hu r hinput
    rw [hvault, Vault.consumedBy?_apply]
    rcases getElem?_archive_record.mp hu with hold | ⟨-, -, rfl⟩
    · split
      · rfl
      · exact h.consumed id u hold r hinput
    · rw [if_pos hinput]
      rfl
  · intro id u hu hsize e he
    rw [hvault]
    rcases getElem?_archive_record.mp hu with hold | ⟨-, -, rfl⟩
    · rw [Vault.entities_apply_of_ne (holder id u hold e he)]
      exact h.known id u hold hsize e he
    · exact Vault.entities_apply_of_mem hsize he
  · intro id u hu e he r hnames
    rw [hvault, Vault.indexes_apply_iff]
    rcases getElem?_archive_record.mp hu with hold | ⟨-, -, rfl⟩
    · exact .inr (h.indexed id u hold e he r hnames)
    · exact .inl ⟨e, he, rfl, hnames⟩

/-- The vault knows and indexes nothing but outputs of archived transactions. -/
structure Grounded (l : Ledger) : Prop where
  produced : ∀ (r : OutputRef) (entity : Entity), l.vault.entities[r]? = some entity →
    ∃ t : Transaction, l.archive[r.transaction]? = some t ∧ ⟨entity, r⟩ ∈ t.located
  named : ∀ r lockRef : OutputRef, l.vault.Indexes r lockRef →
    ∃ t : Transaction, l.archive[lockRef.transaction]? = some t ∧
      ∃ e ∈ t.located, e.ref = lockRef ∧ Vault.Names e r

theorem grounded_empty : empty.Grounded := by
  constructor
  · intro r entity h
    rw [show empty.vault.entities = ∅ from rfl, Std.TreeMap.getElem?_emptyc] at h
    cases h
  · intro r lockRef h
    rw [Vault.Indexes, show empty.vault.lockIndex = ∅ from rfl, Std.TreeMap.getD_emptyc] at h
    exact absurd h Std.TreeSet.not_mem_emptyc

theorem Grounded.record (h : l.Grounded) : (l.record t).1.Grounded := by
  by_cases hheld : t.id ∈ l.archive
  · rwa [record_of_mem hheld]
  have hvault := vault_record_of_notMem hheld
  have hold : ∀ (id : TransactionId) (u : Transaction), l.archive[id]? = some u →
      (l.record t).1.archive[id]? = some u :=
    fun _ _ hu ↦ getElem?_archive_record.mpr (.inl hu)
  have hnew : ∀ e ∈ t.located, (l.record t).1.archive[e.ref.transaction]? = some t := by
    intro e he
    rw [Transaction.transaction_eq_of_mem_located he]
    exact getElem?_archive_record.mpr (.inr ⟨hheld, rfl, rfl⟩)
  constructor
  · intro r entity hentity
    rw [hvault] at hentity
    rcases Vault.entities_apply_cases hentity with hmem | hentity
    · exact ⟨t, hnew _ hmem, hmem⟩
    · obtain ⟨u, hu, hmem⟩ := h.produced r entity hentity
      exact ⟨u, hold _ u hu, hmem⟩
  · intro r lockRef hindexed
    rw [hvault, Vault.indexes_apply_iff] at hindexed
    rcases hindexed with ⟨e, he, rfl, hnames⟩ | hindexed
    · exact ⟨t, hnew e he, e, he, rfl, hnames⟩
    · obtain ⟨u, hu, hmem⟩ := h.named r lockRef hindexed
      exact ⟨u, hold _ u hu, hmem⟩

/-- An active lock governs what its snapshot names until its consumer is recorded. -/
theorem Faithful.mem_locksGoverning (h : l.Faithful) (ht : l.archive[id]? = some t)
    (hsize : t.content.outputs.length ≤ 2 ^ 32) (he : e ∈ t.located) {lock : Lock}
    (hlock : e.entity.lock? = some lock) (hactive : lock.isActive = true) {r : OutputRef}
    (hr : r ∈ lock.snapshotRefs) :
    e ∈ l.vault.locksGoverning r ∨
      ∃ (consumer : TransactionId) (u : Transaction), l.archive[consumer]? = some u ∧
        e.ref ∈ u.content.inputs := by
  cases hconsumed : l.vault.consumedBy? e.ref with
  | some consumer =>
    obtain ⟨u, hu, hinput⟩ := h.consumer e.ref consumer hconsumed
    exact .inr ⟨consumer, u, hu, hinput⟩
  | none =>
    have hindexed := h.indexed id t ht e he r ⟨lock, hlock, hr⟩
    have hlive := Vault.live?_eq_some_iff.mpr ⟨hconsumed, h.known id t ht hsize e he, rfl⟩
    exact .inl (Vault.mem_locksGoverning_iff.mpr ⟨hindexed, hlive, lock, hlock, hactive⟩)

end Ledger

end Custody
