import Custody.Operation.Release
import Custody.Proofs.Rules.RoundTrip

/-!
# Gathering the copies under a lock

A release is given the copies of a lock in any order. They are taken if they are the outputs of the
lock's transaction from the first on, as many as its snapshot has entries, each once and each
encumbered by the lock, and they are handed on in that order with the lock at the end. The operation
sorts them and compares each with its place; the rules look for the lock among the inputs, filter
out the others and count them. Neither depends on the order in which the entities are given: the
numbers below a bound are sorted in one way only, and there is one lock to be found. What the
operation gathers the rules accept, if the payloads are those of the snapshot, and what the rules
accept without repeats the operation gathers.
-/

namespace Custody

/-! ### Entities by position -/

namespace Located

variable {es es' : List Located} {count : Nat}

/-- Entities in the order of their positions. -/
def byPosition (es : List Located) : List Located :=
  es.mergeSort fun a b ↦ a.ref.index ≤ b.ref.index

theorem byPosition_perm : (byPosition es).Perm es := List.mergeSort_perm _ _

theorem pairwise_byPosition :
    (byPosition es).Pairwise fun a b ↦ a.ref.index.toNat ≤ b.ref.index.toNat := by
  have hsorted : (byPosition es).Pairwise fun a b ↦ decide (a.ref.index ≤ b.ref.index) = true := by
    apply List.pairwise_mergeSort
    · intro a b c hab hbc
      rw [decide_eq_true_eq] at hab hbc ⊢
      exact UInt32.le_trans hab hbc
    · intro a b
      rw [Bool.or_eq_true, decide_eq_true_eq, decide_eq_true_eq]
      exact UInt32.le_total _ _
  exact hsorted.imp fun hle ↦ UInt32.le_iff_toNat_le.mp (of_decide_eq_true hle)

theorem byPosition_eq_self (h : es.Pairwise fun a b ↦ a.ref.index ≤ b.ref.index) :
    byPosition es = es :=
  List.mergeSort_of_pairwise (h.imp fun hle ↦ decide_eq_true hle)

/-- Entities at different positions are put in one order, however they are given. -/
theorem byPosition_eq_of_perm (hnodup : (es.map fun e ↦ e.ref.index).Nodup)
    (hperm : es.Perm es') : byPosition es = byPosition es' := by
  have hsorted : (byPosition es).Perm (byPosition es') :=
    calc
      (byPosition es).Perm es := byPosition_perm
      es.Perm es' := hperm
      es'.Perm (byPosition es') := byPosition_perm.symm
  refine hsorted.eq_of_pairwise ?_ pairwise_byPosition pairwise_byPosition
  intro a b ha hb hle hge
  have hindex : a.ref.index = b.ref.index := UInt32.toNat_inj.mp (Nat.le_antisymm hle hge)
  exact List.inj_on_of_nodup_map hnodup (byPosition_perm.mem_iff.mp ha)
    (hperm.mem_iff.mpr (byPosition_perm.mem_iff.mp hb)) hindex

/-- The positions in order are all those below a bound exactly when they are in some order. -/
theorem map_byPosition_eq_range_iff :
    (byPosition es).map (fun e ↦ e.ref.index.toNat) = List.range count ↔
      (es.map fun e ↦ e.ref.index.toNat).Perm (List.range count) := by
  have hperm : ((byPosition es).map fun e ↦ e.ref.index.toNat).Perm
      (es.map fun e ↦ e.ref.index.toNat) := byPosition_perm.map _
  constructor
  · intro hrange
    rw [← hrange]
    exact hperm.symm
  · intro hrange
    refine (hperm.trans hrange).eq_of_pairwise (fun _ _ _ _ ↦ Nat.le_antisymm) ?_
      List.pairwise_le_range
    rw [List.pairwise_map]
    exact pairwise_byPosition

end Located

/-- Numbers are those from zero on when each is its own place. -/
theorem map_eq_range_iff {α : Type} {f : α → Nat} {xs : List α} :
    xs.map f = List.range xs.length ↔ ∀ (place : Nat) (x : α), xs[place]? = some x → f x = place := by
  constructor
  · intro hrange place x hx
    have hplace := congrArg (·[place]?) hrange
    simp only [List.getElem?_map, hx, Option.map_some] at hplace
    rw [List.getElem?_range (List.getElem?_eq_some_iff.mp hx).1] at hplace
    exact Option.some.inj hplace
  · intro hplaces
    apply List.ext_getElem
    · rw [List.length_map, List.length_range]
    · intro place hplace _
      rw [List.length_map] at hplace
      rw [List.getElem_map, List.getElem_range]
      exact hplaces place _ (List.getElem?_eq_getElem hplace)

/-! ### What is gathered -/

/-- The entities that a lock encumbers, in any order: the first outputs of its transaction, a given
number of them, each once. -/
structure CopiesUnder (lock : Located) (count : Nat) (copies : List Located) : Prop where
  positions_perm : (copies.map fun copy ↦ copy.ref.index.toNat).Perm (List.range count)
  transaction_eq : ∀ copy ∈ copies, copy.ref.transaction = lock.ref.transaction
  encumbrance_eq : ∀ copy ∈ copies, copy.entity.encumbrance = some lock.ref.index

namespace CopiesUnder

variable {lock : Located} {count : Nat} {copies copies' : List Located}

theorem length_eq (h : CopiesUnder lock count copies) : copies.length = count := by
  have hlength := h.positions_perm.length_eq
  rwa [List.length_map, List.length_range] at hlength

theorem nodup_indices (h : CopiesUnder lock count copies) :
    (copies.map fun copy ↦ copy.ref.index).Nodup := by
  apply List.Nodup.of_map UInt32.toNat
  rw [List.map_map]
  exact h.positions_perm.nodup_iff.mpr List.nodup_range

theorem of_perm (h : CopiesUnder lock count copies) (hperm : copies.Perm copies') :
    CopiesUnder lock count copies' where
  positions_perm := (hperm.map _).symm.trans h.positions_perm
  transaction_eq copy hcopy := h.transaction_eq copy (hperm.mem_iff.mpr hcopy)
  encumbrance_eq copy hcopy := h.encumbrance_eq copy (hperm.mem_iff.mpr hcopy)

theorem index_lt (h : CopiesUnder lock count copies) {copy : Located} (hcopy : copy ∈ copies) :
    copy.ref.index.toNat < count :=
  List.mem_range.mp (h.positions_perm.mem_iff.mp (List.mem_map_of_mem hcopy))

/-- Put in order, the copy at each place is the output at that position. -/
theorem position_eq (h : CopiesUnder lock count copies) {place : Nat} {copy : Located}
    (hcopy : (Located.byPosition copies)[place]? = some copy) : copy.ref.index.toNat = place := by
  have hrange : (Located.byPosition copies).map (fun e ↦ e.ref.index.toNat) =
      List.range (Located.byPosition copies).length := by
    rw [Located.byPosition_perm.length_eq, h.length_eq]
    exact Located.map_byPosition_eq_range_iff.mpr h.positions_perm
  exact map_eq_range_iff.mp hrange place copy hcopy

end CopiesUnder

section Gathering

open Outcome

variable {lock : Located} {state : Lock} {governed governed' inputs : List Located}

/-- No copy is out of its place exactly when the copies are those under the lock. -/
theorem find?_stray_eq_none_iff :
    ((Located.byPosition governed).zipIdx.find? fun (copy, place) ↦
      !(copy.ref.transaction == lock.ref.transaction && copy.ref.index.toNat == place &&
        copy.entity.encumbrance == some lock.ref.index)) = none ↔
      CopiesUnder lock governed.length governed := by
  simp only [List.find?_eq_none, Prod.forall, List.mem_zipIdx_iff_getElem?, Bool.not_eq_true',
    Bool.not_eq_false, Bool.and_eq_true, beq_iff_eq]
  constructor
  · intro h
    -- Each copy stands at the place of its number, so the numbers are those below the count.
    have hrange : (Located.byPosition governed).map (fun e ↦ e.ref.index.toNat) =
        List.range governed.length := by
      rw [← Located.byPosition_perm.length_eq, map_eq_range_iff]
      exact fun place copy hcopy ↦ (h copy place hcopy).1.2
    have hunder : ∀ copy ∈ governed, copy.ref.transaction = lock.ref.transaction ∧
        copy.entity.encumbrance = some lock.ref.index := by
      intro copy hcopy
      obtain ⟨place, hplace⟩ :=
        List.mem_iff_getElem?.mp (Located.byPosition_perm.mem_iff.mpr hcopy)
      exact ⟨(h copy place hplace).1.1, (h copy place hplace).2⟩
    exact {
      positions_perm := Located.map_byPosition_eq_range_iff.mp hrange
      transaction_eq := fun copy hcopy ↦ (hunder copy hcopy).1
      encumbrance_eq := fun copy hcopy ↦ (hunder copy hcopy).2 }
  · intro h copy place hcopy
    have hmem := Located.byPosition_perm.mem_iff.mp (List.mem_of_getElem? hcopy)
    exact ⟨⟨h.transaction_eq copy hmem, h.position_eq hcopy⟩, h.encumbrance_eq copy hmem⟩

/-- Copies are gathered exactly when they are those under the lock, and then in order. -/
theorem governedInputs_eq_ok_iff :
    governedInputs lock state governed = .ok inputs ↔
      CopiesUnder lock state.snapshot.length governed ∧
        inputs = Located.byPosition governed ++ [lock] := by
  unfold governedInputs
  simp only [invalidArgument, error_bind_eq, ite_error_eq_ok_iff, ne_eq, not_not]
  constructor
  · rintro ⟨hcount, h⟩
    split at h
    · cases h
    · rename_i hstray
      rw [← hcount]
      exact ⟨find?_stray_eq_none_iff.mp hstray, (pure_eq_ok_iff.mp h).symm⟩
  · rintro ⟨hunder, rfl⟩
    refine ⟨hunder.length_eq, ?_⟩
    have hstray := find?_stray_eq_none_iff.mpr (hunder.length_eq ▸ hunder)
    unfold Located.byPosition at hstray
    rw [hstray]
    rfl

/-- What is gathered, or refused, depends on the order only where positions repeat. -/
theorem governedInputs_eq_of_perm (hnodup : (governed.map fun copy ↦ copy.ref.index).Nodup)
    (hperm : governed.Perm governed') :
    governedInputs lock state governed' = governedInputs lock state governed := by
  have hordered := Located.byPosition_eq_of_perm hnodup hperm
  unfold Located.byPosition at hordered
  unfold governedInputs
  rw [hperm.length_eq, hordered]

theorem toOption_governedInputs_eq_none (h : ¬ CopiesUnder lock state.snapshot.length governed) :
    (governedInputs lock state governed).toOption = none := by
  cases hgathered : governedInputs lock state governed with
  | error _ => rfl
  | ok _ => exact absurd (governedInputs_eq_ok_iff.mp hgathered).1 h

/-- In another order the same entities give the same inputs, or are refused as well. -/
theorem toOption_governedInputs_eq_of_perm (hperm : governed.Perm governed') :
    (governedInputs lock state governed').toOption =
      (governedInputs lock state governed).toOption := by
  by_cases hunder : CopiesUnder lock state.snapshot.length governed
  · rw [governedInputs_eq_of_perm hunder.nodup_indices hperm]
  · have hunder' : ¬ CopiesUnder lock state.snapshot.length governed' :=
      fun h ↦ hunder (h.of_perm hperm.symm)
    rw [toOption_governedInputs_eq_none hunder, toOption_governedInputs_eq_none hunder']

end Gathering

/-! ### What the rules accept -/

/-- A lock and entities that agree with its snapshot: the lock is active, over assets and not among
the first outputs, and each entity has the payload of the entry at its position. -/
structure CopiesOf (lock : Located) (state : Lock) (copies : List Located) : Prop where
  lock_eq : lock.entity.lock? = some state
  isActive : state.isActive = true
  holdsAssets : state.HoldsAssets
  length_le : state.snapshot.length ≤ lock.ref.index.toNat
  payload_eq : ∀ copy ∈ copies, ∃ entry, state.snapshot[copy.ref.index.toNat]? = some entry ∧
    entry.entity.payload = copy.entity.payload

section Acceptance

variable {lock : Located} {state : Lock} {copies inputs : List Located}

/-- The rules accept what is under a lock and agrees with its snapshot, in any order. -/
theorem CopiesOf.consumesLock (h : CopiesOf lock state copies)
    (hunder : CopiesUnder lock state.snapshot.length copies)
    (hperm : inputs.Perm (copies ++ [lock])) : Rules.ConsumesLock inputs lock.ref state := by
  apply Rules.ConsumesLock.of_perm h.lock_eq h.isActive h.holdsAssets ?_ ?_ hunder.length_eq
    h.payload_eq hperm
  · -- The lock is not among the first outputs, where the copies are.
    intro copy hcopy href
    have hlt := hunder.index_lt hcopy
    rw [href] at hlt
    exact absurd h.length_le (Nat.not_le_of_lt hlt)
  · intro copy hcopy
    exact Rules.isGoverned_eq_true_iff.mpr
      ⟨hunder.transaction_eq copy hcopy, hunder.encumbrance_eq copy hcopy⟩

/-- Conversely, what the rules accept without repeats is gathered: copies at different positions of
the snapshot, as many as it has entries, leave none out. -/
theorem exists_governedInputs_of_consumesLock (h : Rules.ConsumesLock inputs lock.ref state)
    (hnodup : (inputs.map Located.ref).Nodup) :
    ∃ gathered, governedInputs lock state (inputs.filter (·.ref != lock.ref)) = .ok gathered := by
  have hgoverned : ∀ copy ∈ inputs.filter (·.ref != lock.ref),
      Rules.isGoverned lock.ref copy = true := by
    intro copy hcopy
    rw [List.mem_filter, bne_iff_ne] at hcopy
    exact h.isGoverned copy hcopy.1 hcopy.2
  have hunder : CopiesUnder lock state.snapshot.length (inputs.filter (·.ref != lock.ref)) := {
    positions_perm := h.positions_perm hnodup
    transaction_eq := fun copy hcopy ↦ (Rules.isGoverned_eq_true_iff.mp (hgoverned copy hcopy)).1
    encumbrance_eq := fun copy hcopy ↦ (Rules.isGoverned_eq_true_iff.mp (hgoverned copy hcopy)).2 }
  exact ⟨_, governedInputs_eq_ok_iff.mpr ⟨hunder, rfl⟩⟩

end Acceptance

/-- Copies are gathered exactly when they are, in any order, the first outputs of the lock's
transaction, as many as its snapshot has entries, each once and each encumbered by the lock; then
they come in the order of their positions, followed by the lock. In another order they give the same
inputs or are refused too, in the same words unless a position repeats. If they agree with the
snapshot of an active lock over assets, the rules accept what was gathered in any order. -/
theorem copies_in_order (lock : Located) (state : Lock) (governed : List Located) :
    ((∃ inputs, governedInputs lock state governed = .ok inputs) ↔
      CopiesUnder lock state.snapshot.length governed) ∧
    (∀ inputs, governedInputs lock state governed = .ok inputs →
      ∃ copies, copies.Perm governed ∧
        copies.map (fun copy ↦ copy.ref.index.toNat) = List.range state.snapshot.length ∧
        inputs = copies ++ [lock]) ∧
    (∀ governed', governed.Perm governed' →
      (governedInputs lock state governed').toOption =
          (governedInputs lock state governed).toOption ∧
        ((governed.map fun copy ↦ copy.ref.index).Nodup →
          governedInputs lock state governed' = governedInputs lock state governed)) ∧
    (CopiesOf lock state governed → ∀ inputs, governedInputs lock state governed = .ok inputs →
      ∀ inputs', inputs'.Perm inputs → Rules.consumedLock inputs' = .ok state) := by
  refine ⟨⟨?_, ?_⟩, ?_, ?_, ?_⟩
  · intro ⟨inputs, h⟩
    exact (governedInputs_eq_ok_iff.mp h).1
  · intro hunder
    exact ⟨_, governedInputs_eq_ok_iff.mpr ⟨hunder, rfl⟩⟩
  · intro inputs h
    obtain ⟨hunder, hinputs⟩ := governedInputs_eq_ok_iff.mp h
    exact ⟨_, Located.byPosition_perm,
      Located.map_byPosition_eq_range_iff.mpr hunder.positions_perm, hinputs⟩
  · intro governed' hperm
    exact ⟨toOption_governedInputs_eq_of_perm hperm,
      fun hnodup ↦ governedInputs_eq_of_perm hnodup hperm⟩
  · intro hcopies inputs h inputs' hperm
    obtain ⟨hunder, rfl⟩ := governedInputs_eq_ok_iff.mp h
    have hordered : (Located.byPosition governed ++ [lock]).Perm (governed ++ [lock]) :=
      Located.byPosition_perm.append_right _
    exact Rules.consumedLock_eq_ok_iff.mpr
      ⟨lock.ref, hcopies.consumesLock hunder (hperm.trans hordered)⟩

/-! ### Two copies, the second one first -/

namespace Swapped

open ExitProof.Pair Rules.Pair
open Trial (key notary)

/-- The lock of a re-issuance of two entities, as it is found. -/
def held : Located := ⟨⟨.lock lock, [key 2, key 1], notary, some 0⟩, reissue.outputRef 2⟩

/-- Its copies, in the opposite order. -/
def copies : List Located := reissue.located.dropLast.reverse

theorem copiesOf_held : CopiesOf held lock copies where
  lock_eq := rfl
  isActive := rfl
  holdsAssets := by
    unfold Lock.HoldsAssets
    decide
  length_le := by decide
  payload_eq := by decide +kernel

/-- The copies are put in order, and the rules accept them after their lock as well. -/
theorem copies_in_order_swapped :
    CopiesOf held lock copies ∧ CopiesUnder held 2 copies ∧ copies.Perm copies.reverse ∧
      governedInputs held lock copies = .ok reissue.located ∧
      governedInputs held lock copies.reverse = .ok reissue.located ∧
      Rules.consumedLock reissue.located.reverse = .ok lock := by
  have hunder : CopiesUnder held 2 copies := ⟨by decide, by decide +kernel, by decide +kernel⟩
  have hperm : copies.Perm copies.reverse := (List.reverse_perm _).symm
  have hsorted : governedInputs held lock copies.reverse = .ok reissue.located := by
    rw [governedInputs_eq_ok_iff, Located.byPosition_eq_self (by decide +kernel)]
    exact ⟨hunder.of_perm hperm, by decide +kernel⟩
  obtain ⟨-, -, horder, haccepted⟩ := copies_in_order held lock copies
  have hgathered : governedInputs held lock copies = .ok reissue.located :=
    ((horder copies.reverse hperm).2 (by decide +kernel)).symm.trans hsorted
  have haccept := haccepted copiesOf_held _ hgathered _ (List.reverse_perm _)
  exact ⟨copiesOf_held, hunder, hperm, hgathered, hsorted, haccept⟩

end Swapped

end Custody
