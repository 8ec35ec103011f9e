import Custody.Ledger.Lineage
import Custody.Proofs.Ledger.Growth

/-!
# Rounds of a walk, and what is listed

A walk goes on round by round: each looks for something queued that was not met before, and ends the
walk if there is nothing left or something is not held. Whatever a walk meets is archived, and a
lineage lists nothing but what the walk has met.
-/

namespace Custody.Archive

variable {archive unvisited : Archive}

/-- The sources of every archived transaction are archived. -/
def Closed (archive : Archive) : Prop :=
  ∀ (id : TransactionId) (t : Transaction), archive[id]? = some t →
    ∀ source ∈ t.sources, source ∈ archive

/-- A transaction is archived, under whatever id. -/
def Stores (archive : Archive) (t : Transaction) : Prop :=
  ∃ id : TransactionId, archive[id]? = some t

/-! ### Rounds of a walk -/

variable {queue rest : List TransactionId} {met : List Transaction}

theorem walkFrom_of_error {error : LedgerError}
    (h : archive.nextUnvisited unvisited queue = .error error) :
    archive.walkFrom queue unvisited met = .error error := by
  unfold walkFrom
  split
  · rename_i hnext
    rw [h, Except.error.injEq] at hnext
    rw [hnext]
  · rename_i hnext
    rw [h] at hnext
    cases hnext
  · rename_i hnext
    rw [h] at hnext
    cases hnext

theorem walkFrom_of_none (h : archive.nextUnvisited unvisited queue = .ok none) :
    archive.walkFrom queue unvisited met = .ok met.reverse := by
  unfold walkFrom
  split
  · rename_i hnext
    rw [h] at hnext
    cases hnext
  · rfl
  · rename_i hnext
    rw [h] at hnext
    cases hnext

theorem walkFrom_of_some {id : TransactionId} {t : Transaction}
    (h : archive.nextUnvisited unvisited queue = .ok (some (id, t, rest))) :
    archive.walkFrom queue unvisited met =
      archive.walkFrom (rest ++ t.sources) (unvisited.erase id) (t :: met) := by
  conv_lhs => unfold walkFrom
  split
  · rename_i hnext
    rw [h] at hnext
    cases hnext
  · rename_i hnext
    rw [h] at hnext
    cases hnext
  · rename_i hnext
    rw [h] at hnext
    simp only [Except.ok.injEq, Option.some.injEq, Prod.mk.injEq] at hnext
    obtain ⟨rfl, rfl, rfl⟩ := hnext
    rfl

/-! ### What a walk meets -/

/-- Whatever a walk meets is archived. -/
theorem stores_of_walkFrom {ts : List Transaction} {t : Transaction}
    (h : archive.walkFrom queue unvisited met = .ok ts) (hunvisited : Extends unvisited archive)
    (hmet : ∀ u ∈ met, archive.Stores u) (ht : t ∈ ts) : archive.Stores t := by
  induction queue, unvisited, met using walkFrom.induct archive with
  | case1 queue unvisited met e herror =>
    rw [walkFrom_of_error herror] at h
    cases h
  | case2 queue unvisited met hdone =>
    rw [walkFrom_of_none hdone] at h
    rw [← Except.ok.inj h, List.mem_reverse] at ht
    exact hmet t ht
  | case3 queue unvisited met id first rest hround ih =>
    rw [walkFrom_of_some hround] at h
    have hfirst := hunvisited id first (getElem?_of_nextUnvisited hround)
    exact ih h hunvisited.of_erase (List.forall_mem_cons.mpr ⟨⟨id, hfirst⟩, hmet⟩)

theorem stores_of_walk {ids : List TransactionId} {ts : List Transaction} {t : Transaction}
    (h : archive.walk ids = .ok ts) (ht : t ∈ ts) : archive.Stores t :=
  stores_of_walkFrom h .refl (fun _ hu ↦ absurd hu List.not_mem_nil) ht

end Custody.Archive

/-! ### What is listed -/

namespace Custody.Lineage

variable {waiting : Waiting} {ts ready listed : List Transaction} {t : Transaction}

theorem free_sublist : (free waiting ts).2.Sublist ts := by
  induction ts generalizing waiting with
  | nil => exact List.Sublist.refl []
  | cons first ts ih =>
    unfold free
    split
    · exact ih.cons first
    · split
      · exact ih.cons_cons first
      · exact ih.cons first

/-- Only what is ready or consumes something is listed. -/
theorem listReady_of_forall {consumers : Std.TreeMap TransactionId (List Transaction)}
    {known : Transaction → Prop} (hconsumers : ∀ id, ∀ u ∈ consumers.getD id [], known u)
    (hready : ∀ u ∈ ready, known u) (hlisted : ∀ u ∈ listed, known u)
    (ht : t ∈ listReady consumers waiting ready listed) : known t := by
  induction waiting, ready, listed using listReady.induct consumers with
  | case1 waiting listed =>
    unfold listReady at ht
    exact hlisted t (List.mem_reverse.mp ht)
  | case2 waiting listed first ready next ih =>
    unfold listReady at ht
    obtain ⟨hfirst, hready⟩ := List.forall_mem_cons.mp hready
    apply ih ?_ (List.forall_mem_cons.mpr ⟨hfirst, hlisted⟩) ht
    intro u hu
    rcases List.mem_append.mp hu with hu | hu
    · exact hready u hu
    · exact hconsumers first.id u (free_sublist.subset hu)

theorem consumers_subset {id : TransactionId} : (consumers ts).getD id [] ⊆ ts := by
  induction ts generalizing id with
  | nil =>
    change (∅ : Std.TreeMap TransactionId (List Transaction)).getD id [] ⊆ []
    rw [Std.TreeMap.getD_emptyc]
    exact List.Subset.refl []
  | cons first ts ih =>
    change (first.sources.eraseDups.foldl _ (consumers ts)).getD id [] ⊆ first :: ts
    refine List.foldlRecOn
      (motive := fun map : Std.TreeMap TransactionId (List Transaction) ↦
        ∀ id, map.getD id [] ⊆ first :: ts) _ _ ?_ ?_ id
    · exact fun _ ↦ List.subset_cons_of_subset first ih
    · intro map hmap source _ id
      rw [Std.TreeMap.getD_insert]
      split
      · exact List.cons_subset.mpr ⟨List.mem_cons_self, hmap source⟩
      · exact hmap id

/-- Arranging transactions adds none. -/
theorem arrange_subset : arrange ts ⊆ ts := by
  intro t ht
  unfold arrange at ht
  refine listReady_of_forall (fun _ _ hu ↦ consumers_subset hu) ?_ ?_ ht
  · exact fun _ hu ↦ List.mem_of_mem_filter hu
  · exact fun _ hu ↦ absurd hu List.not_mem_nil

end Custody.Lineage

namespace Custody.Archive

/-- Nothing has no lineage. -/
theorem lineage_nil {archive : Archive} : archive.lineage [] = .ok [] := by
  have hwalk : archive.walk [] = .ok [] := walkFrom_of_none rfl
  have harrange : Lineage.arrange [] = [] := by
    unfold Lineage.arrange Lineage.listReady
    rfl
  exact Outcome.bind_eq_ok_iff.mpr ⟨[], hwalk, congrArg Except.ok harrange⟩

/-- A lineage lists what is archived. -/
theorem stores_of_lineage {archive : Archive} {ids : List TransactionId}
    {ts : List Transaction} {t : Transaction} (h : archive.lineage ids = .ok ts) (ht : t ∈ ts) :
    archive.Stores t := by
  obtain ⟨met, hmet, h⟩ := Outcome.bind_eq_ok_iff.mp h
  rw [← Outcome.pure_eq_ok_iff.mp h] at ht
  exact stores_of_walk hmet (Lineage.arrange_subset ht)

end Custody.Archive
