import Mathlib.Algebra.Order.BigOperators.Group.List
import Mathlib.Algebra.Order.Group.Nat
import Custody.Proofs.Ledger.Ancestors
import Custody.Proofs.Ledger.Order
import Custody.Proofs.Ledger.Verified

/-!
# Lineages without cycles

Where nothing that is reached consumes from itself, through any number of transactions, a lineage
leaves nothing out. The transactions can then be ranked by how many others each one reaches, which
is fewer for its sources than for itself. So whatever is reached is listed, once, and after all of
its sources, however many outputs it consumes of each. A verified archive has no cycles, as every
transaction came after its sources.
-/

namespace Custody

namespace Archive

section

variable {archive : Archive} {ids : List TransactionId} {ts : List Transaction} {t : Transaction}

/-- Nothing that is reached from the given ids consumes from itself, directly or not. -/
def AcyclicFrom (archive : Archive) (ids : List TransactionId) : Prop :=
  ∀ id, archive.ReachedFrom ids id → ¬ Relation.TransGen archive.Consumes id id

/-- Among finitely many ids none of which consumes from itself, each reaches fewer than what
consumes from it. -/
theorem exists_rank_of_acyclic {among : Finset TransactionId}
    (hacyclic : ∀ id ∈ among, ¬ Relation.TransGen archive.Consumes id id) :
    ∃ rank : TransactionId → Nat, ∀ id source, source ∈ among → archive.Consumes id source →
      rank source < rank id := by
  classical
  refine ⟨fun id ↦ (among.filter (Relation.TransGen archive.Consumes id)).card, ?_⟩
  intro id source hsource hconsumes
  apply Finset.card_lt_card
  rw [Finset.ssubset_iff_of_subset]
  · refine ⟨source, ?_, ?_⟩
    · exact Finset.mem_filter.mpr ⟨hsource, .single hconsumes⟩
    · exact fun hself ↦ hacyclic source hsource (Finset.mem_filter.mp hself).2
  · intro other hother
    obtain ⟨hmem, hreaches⟩ := Finset.mem_filter.mp hother
    exact Finset.mem_filter.mpr ⟨hmem, .head hconsumes hreaches⟩

/-- A rank that falls towards the sources of whatever is reached rules cycles out. -/
theorem acyclicFrom_of_rank {rank : TransactionId → Nat}
    (hrank : ∀ id source, archive.ReachedFrom ids id → archive.Consumes id source →
      rank source < rank id) : archive.AcyclicFrom ids := by
  rintro id ⟨start, hstart, hreaches⟩ hcycle
  have hlt : ∀ other, Relation.TransGen archive.Consumes id other → rank other < rank id := by
    intro other h
    induction h with
    | single hconsumes => exact hrank _ _ ⟨start, hstart, hreaches⟩ hconsumes
    | tail h hconsumes ih =>
      exact (hrank _ _ ⟨start, hstart, hreaches.trans h.to_reflTransGen⟩ hconsumes).trans ih
  exact Nat.lt_irrefl _ (hlt id hcycle)

theorem exists_walk (hheld : ∀ id, archive.ReachedFrom ids id → id ∈ archive) :
    ∃ ts, archive.walk ids = .ok ts := by
  cases h : archive.walk ids with
  | ok ts => exact ⟨ts, rfl⟩
  | error e =>
    obtain ⟨id, -, hreached, hmissing⟩ := exists_of_walkFrom_eq_error .refl h
    exact absurd (hheld id hreached) hmissing

/-- Without cycles a lineage lists what a walk meets, in another order. -/
theorem arrange_perm (hkeyed : archive.Keyed) (hacyclic : archive.AcyclicFrom ids)
    (h : archive.walk ids = .ok ts) : (Lineage.arrange ts).Perm ts := by
  have hnodup := nodup_of_walk hkeyed h
  have hreached {id : TransactionId} (hid : id ∈ ts.map Transaction.id) :
      archive.ReachedFrom ids id := (mem_map_walk_iff hkeyed h).mp hid
  obtain ⟨rank, hrank⟩ := @exists_rank_of_acyclic archive (ts.map Transaction.id).toFinset
    fun id hid ↦ hacyclic id (hreached (List.mem_toFinset.mp hid))
  obtain ⟨-, -, hclosed⟩ := Covers.of_walkFrom hkeyed .refl .start h
  rw [List.perm_ext_iff_of_nodup (.of_map _ (Lineage.nodup_arrange hnodup)) (.of_map _ hnodup)]
  refine fun t ↦ ⟨fun ht ↦ Lineage.arrange_subset ht, Lineage.mem_arrange hnodup rank ?_⟩
  intro u hu source hsource
  have hmem := hclosed u hu source hsource
  have hheld := ((mem_walk_iff hkeyed h).mp hu).1
  exact ⟨hmem, hrank u.id source (List.mem_toFinset.mpr hmem) ⟨u, hheld, hsource⟩⟩

/-- The lineage of ids whose ancestors are all held and that lead into no cycle: it lists every
ancestor once and nothing else, each as it is archived, and the source of every input at an earlier
position than the transaction that consumes it. -/
theorem lineage_in_order (hkeyed : archive.Keyed) (ids : List TransactionId)
    (hheld : ∀ id, archive.ReachedFrom ids id → id ∈ archive)
    (hacyclic : archive.AcyclicFrom ids) :
    ∃ ts found, archive.lineage ids = .ok ts ∧ archive.ancestors ids = .ok found ∧
      (ts.map Transaction.id).Nodup ∧ (∀ id, id ∈ ts.map Transaction.id ↔ id ∈ found) ∧
      (∀ t ∈ ts, archive[t.id]? = some t) ∧
      ∀ (position : Nat) (t : Transaction), ts[position]? = some t → ∀ input ∈ t.content.inputs,
        ∃ earlier u, earlier < position ∧ ts[earlier]? = some u ∧ u.id = input.transaction := by
  obtain ⟨met, hwalk⟩ := exists_walk hheld
  obtain ⟨found, hfound⟩ := (exists_ancestors_iff hkeyed).mpr hheld
  have hlineage : archive.lineage ids = .ok (Lineage.arrange met) :=
    Outcome.bind_eq_ok_iff.mpr ⟨met, hwalk, rfl⟩
  have hperm := arrange_perm hkeyed hacyclic hwalk
  have hids := hperm.map Transaction.id
  refine ⟨Lineage.arrange met, found, hlineage, hfound, ?_, fun id ↦ ?_, fun t ht ↦ ?_, ?_⟩
  · exact hids.nodup_iff.mpr (nodup_of_walk hkeyed hwalk)
  · rw [hids.mem_iff, mem_map_walk_iff hkeyed hwalk, mem_ancestors_iff hkeyed hfound]
  · exact ((mem_walk_iff hkeyed hwalk).mp (hperm.mem_iff.mp ht)).1
  · intro position t ht input hinput
    have hsource : input.transaction ∈ t.sources := List.mem_map_of_mem hinput
    exact ((sourcesFirst_of_lineage hkeyed hlineage).exists_lt ht hsource).resolve_left fun h ↦ h

/-! ### Verified archives -/

variable [Cryptosystem]

/-- Each transaction came after its sources. -/
theorem Verified.exists_rank (h : archive.Verified) :
    ∃ rank : TransactionId → Nat, ∀ (id : TransactionId) (t : Transaction),
      archive[id]? = some t → ∀ source ∈ t.sources, rank source < rank id := by
  induction h with
  | empty => exact ⟨fun _ ↦ 0, fun _ _ ht ↦ nomatch Std.TreeMap.getElem?_emptyc.symm.trans ht⟩
  | @add archive t h hadmits ih =>
    obtain ⟨rank, hrank⟩ := ih
    by_cases hheld : t.id ∈ archive
    · refine ⟨rank, fun id u hu ↦ ?_⟩
      rcases getElem?_add_iff.mp hu with hold | ⟨hnew, -⟩
      · exact hrank id u hold
      · exact absurd hheld hnew
    · obtain ⟨inputs, _, hinputs, -⟩ := hadmits
      have hsource {source : TransactionId} (hmem : source ∈ archive) : source ≠ t.id :=
        fun heq ↦ hheld (heq ▸ hmem)
      refine ⟨Function.update rank t.id ((t.sources.map rank).sum + 1), fun id u hu ↦ ?_⟩
      rcases getElem?_add_iff.mp hu with hold | ⟨-, rfl, rfl⟩
      · intro source hmem
        have hid : id ≠ t.id :=
          hsource (Std.TreeMap.mem_iff_isSome_getElem?.mpr (by rw [hold]; rfl))
        rw [Function.update_of_ne hid, Function.update_of_ne (hsource (h.closed id u hold _ hmem))]
        exact hrank id u hold source hmem
      · intro source hmem
        rw [Function.update_self,
          Function.update_of_ne (hsource (mem_of_mem_sources hinputs hmem))]
        exact Nat.lt_succ_of_le (List.le_sum_of_mem (List.mem_map_of_mem hmem))

/-- A verified archive has no cycles. -/
theorem Verified.acyclicFrom (h : archive.Verified) : archive.AcyclicFrom ids := by
  obtain ⟨rank, hrank⟩ := h.exists_rank
  exact acyclicFrom_of_rank fun id source _ ⟨t, ht, hsource⟩ ↦ hrank id t ht source hsource

/-- A lineage in a verified archive lists what a walk meets. -/
theorem Verified.exists_walk_of_lineage (h : archive.Verified)
    (hlineage : archive.lineage ids = .ok ts) :
    ∃ met, archive.walk ids = .ok met ∧ ts.Perm met := by
  obtain ⟨met, hwalk, hlineage⟩ := Outcome.bind_eq_ok_iff.mp hlineage
  refine ⟨met, hwalk, ?_⟩
  rw [← Outcome.pure_eq_ok_iff.mp hlineage]
  exact arrange_perm (fun _ _ ↦ h.id_eq) h.acyclicFrom hwalk

/-- It lists what is reached, as it is archived, and nothing else. -/
theorem Verified.mem_lineage_iff (h : archive.Verified) (hlineage : archive.lineage ids = .ok ts) :
    t ∈ ts ↔ archive[t.id]? = some t ∧ archive.ReachedFrom ids t.id := by
  obtain ⟨met, hwalk, hperm⟩ := h.exists_walk_of_lineage hlineage
  rw [hperm.mem_iff, mem_walk_iff (fun _ _ ↦ h.id_eq) hwalk]

/-- It lists whatever it was asked for. -/
theorem Verified.exists_mem_of_lineage (h : archive.Verified) {id : TransactionId}
    (hlineage : archive.lineage ids = .ok ts) (hid : id ∈ ids) : ∃ t ∈ ts, t.id = id := by
  obtain ⟨met, hwalk, hperm⟩ := h.exists_walk_of_lineage hlineage
  have hmem : id ∈ met.map Transaction.id :=
    (mem_map_walk_iff (fun _ _ ↦ h.id_eq) hwalk).mpr ⟨id, hid, .refl⟩
  exact List.mem_map.mp ((hperm.map Transaction.id).mem_iff.mpr hmem)

/-- There is a lineage of whatever is held. -/
theorem Verified.exists_lineage_iff (h : archive.Verified) :
    (∃ ts, archive.lineage ids = .ok ts) ↔ ∀ id ∈ ids, id ∈ archive := by
  constructor
  · rintro ⟨ts, hlineage⟩ id hid
    obtain ⟨t, ht, rfl⟩ := h.exists_mem_of_lineage hlineage hid
    rw [Std.TreeMap.mem_iff_isSome_getElem?, ((h.mem_lineage_iff hlineage).mp ht).1]
    rfl
  · intro hheld
    obtain ⟨met, hwalk⟩ := exists_walk fun id ⟨start, hstart, hreaches⟩ ↦
      h.closed.mem_of_reaches (hheld start hstart) hreaches
    exact ⟨Lineage.arrange met, Outcome.bind_eq_ok_iff.mpr ⟨met, hwalk, rfl⟩⟩

end

/-! ### A diamond beside a cycle -/

namespace Diamond

open Knot

/-- Two transactions consume from one, and another from both, twice from the first of them. Apart
from these, two consume from each other. -/
def archive : Archive :=
  [entry 4 [2, 3, 2], entry 3 [1, 1], entry 2 [1], entry 1 [], entry 5 [6], entry 6 [5]].foldl add ∅

theorem keyed : archive.Keyed := keyed_of_forall (by decide +kernel)

theorem ancestors_eq :
    archive.ancestors [nth 4, nth 4] = .ok [nth 1, nth 2, nth 3, nth 4] := by decide +kernel

/-- The first byte of an id. -/
def rank (id : TransactionId) : Nat := (id.block.toList.headD 0).toNat

theorem acyclicFrom : archive.AcyclicFrom [nth 4, nth 4] := by
  refine @acyclicFrom_of_rank archive _ rank fun id source hreached ⟨t, ht, hsource⟩ ↦ ?_
  have hfalls : ∀ id ∈ [nth 1, nth 2, nth 3, nth 4], ∀ t ∈ archive[id]?,
      ∀ source ∈ t.sources, rank source < rank id := by decide +kernel
  exact hfalls id ((mem_ancestors_iff keyed ancestors_eq).mpr hreached) t ht source hsource

end Diamond

open Knot in
theorem lineage_in_order_diamond :
    ∃ ts, Diamond.archive.lineage [nth 4, nth 4] = .ok ts ∧
      ts.map Transaction.id = [nth 1, nth 2, nth 3, nth 4] ∧
      ∀ (position : Nat) (t : Transaction), ts[position]? = some t → ∀ input ∈ t.content.inputs,
        ∃ earlier u, earlier < position ∧ ts[earlier]? = some u ∧ u.id = input.transaction := by
  have hheld := (exists_ancestors_iff Diamond.keyed).mp ⟨_, Diamond.ancestors_eq⟩
  obtain ⟨ts, found, hlineage, -, -, -, -, hfirst⟩ :=
    lineage_in_order Diamond.keyed [nth 4, nth 4] hheld Diamond.acyclicFrom
  have hlisted : (Diamond.archive.lineage [nth 4, nth 4]).map (List.map Transaction.id) =
      .ok [nth 1, nth 2, nth 3, nth 4] := by decide +kernel
  rw [hlineage] at hlisted
  exact ⟨ts, hlineage, Except.ok.inj hlisted, hfirst⟩

end Archive

end Custody
