import Custody.Proofs.Ledger.Arrangement

/-!
# Sources come first

A lineage can be recorded in the order in which it is listed: the sources of each transaction come
before it. A transaction is readied by the last of its sources to be listed, however many outputs it
consumes of each, since sources are counted once.
-/

namespace Custody

namespace Lineage

variable {held held' : TransactionId → Prop} {waiting : Waiting}
  {ts ready listed : List Transaction} {t u : Transaction}

/-- Every listed transaction finds its sources among what is held or listed before it. -/
def SourcesFirst (held : TransactionId → Prop) : List Transaction → Prop
  | [] => True
  | t :: ts => (∀ source ∈ t.sources, held source) ∧ SourcesFirst (fun id ↦ held id ∨ id = t.id) ts

namespace SourcesFirst

theorem mono (hle : ∀ id, held id → held' id) (h : SourcesFirst held ts) :
    SourcesFirst held' ts := by
  induction ts generalizing held held' with
  | nil => trivial
  | cons t ts ih =>
    refine ⟨fun source hsource ↦ hle source (h.1 source hsource), ih ?_ h.2⟩
    exact fun id hid ↦ hid.imp_left (hle id)

/-- One more transaction may be listed when its sources are held or listed. -/
theorem concat (h : SourcesFirst held ts)
    (hsources : ∀ source ∈ t.sources, held source ∨ source ∈ ts.map Transaction.id) :
    SourcesFirst held (ts ++ [t]) := by
  induction ts generalizing held with
  | nil => exact ⟨fun source hsource ↦ by simpa using hsources source hsource, trivial⟩
  | cons first ts ih =>
    refine ⟨h.1, ih h.2 fun source hsource ↦ ?_⟩
    simpa only [List.map_cons, List.mem_cons, or_assoc] using hsources source hsource

/-- Where sources come first, each is held or stands at an earlier position. -/
theorem exists_lt (h : SourcesFirst held ts)
    {position : Nat} (ht : ts[position]? = some t) {source : TransactionId}
    (hsource : source ∈ t.sources) :
    held source ∨ ∃ earlier u, earlier < position ∧ ts[earlier]? = some u ∧ u.id = source := by
  induction ts generalizing held position with
  | nil => cases ht
  | cons first ts ih =>
    cases position with
    | zero =>
      rw [List.getElem?_cons_zero, Option.some.injEq] at ht
      exact .inl (h.1 source (ht ▸ hsource))
    | succ position =>
      rw [List.getElem?_cons_succ] at ht
      rcases ih h.2 ht with (hheld | hfirst) | ⟨earlier, u, hlt, hu, hid⟩
      · exact .inl hheld
      · exact .inr ⟨0, first, Nat.succ_pos position, rfl, hfirst.symm⟩
      · exact .inr ⟨earlier + 1, u, Nat.succ_lt_succ hlt, hu, hid⟩

end SourcesFirst

/-! ### Readied by the last source -/

theorem outstanding_eq_zero_iff :
    outstanding listed t = 0 ↔ ∀ source ∈ t.sources, source ∈ listed.map Transaction.id := by
  rw [outstanding, Finset.card_eq_zero, Finset.sdiff_eq_empty_iff_subset]
  exact ⟨fun h source hsource ↦ by simpa using h (List.mem_toFinset.mpr hsource),
    fun h source hsource ↦ List.mem_toFinset.mpr (h source (List.mem_toFinset.mp hsource))⟩

/-- What is freed waited for nothing but the transaction that is listed. -/
theorem Progress.outstanding_of_mem_free (hnodup : (ts.map Transaction.id).Nodup)
    (h : Progress ts waiting (t :: ready) listed)
    (hu : u ∈ (free waiting ((consumers ts).getD t.id [])).2) :
    outstanding (t :: listed) u = 0 := by
  rw [getD_consumers] at hu
  have hsub : (ts.filter (t.id ∈ ·.sources)).Sublist ts := List.filter_sublist
  obtain ⟨hconsumes, n, hn, hcount⟩ := (mem_free_iff (hnodup.sublist (hsub.map _))).mp hu
  obtain ⟨hmem, hsource⟩ := List.mem_filter.mp hconsumes
  have hnew : t.id ∉ listed.map Transaction.id := by
    have hdistinct := h.nodup
    rw [List.cons_append, List.map_cons, List.nodup_cons, List.map_append, List.mem_append,
      not_or] at hdistinct
    exact hdistinct.1.2
  rw [outstanding_cons_of_mem (by simpa using hsource) hnew]
  rcases h.waits u hmem with hold | ⟨-, hwaits⟩
  · rw [h.isDone u hold] at hcount
    cases hcount
  · rw [hwaits, Option.some.injEq] at hcount
    omega

/-- Listing keeps sources first as long as what is ready waits for nothing. -/
theorem Progress.sourcesFirst_listReady (hnodup : (ts.map Transaction.id).Nodup)
    (h : Progress ts waiting ready listed) (hready : ∀ u ∈ ready, outstanding listed u = 0)
    (hlisted : SourcesFirst (fun _ ↦ False) listed.reverse) :
    SourcesFirst (fun _ ↦ False) (listReady (consumers ts) waiting ready listed) := by
  induction waiting, ready, listed using listReady.induct (consumers ts) with
  | case1 waiting listed =>
    unfold listReady
    exact hlisted
  | case2 waiting listed first ready next ih =>
    unfold listReady
    obtain ⟨hfirst, hready⟩ := List.forall_mem_cons.mp hready
    refine ih (h.step hnodup) ?_ ?_
    · intro u hu
      rcases List.mem_append.mp hu with hold | hfreed
      · have hlistedAll := outstanding_eq_zero_iff.mp (hready u hold)
        rw [outstanding_eq_zero_iff]
        exact fun source hsource ↦ List.mem_cons_of_mem _ (hlistedAll source hsource)
      · exact h.outstanding_of_mem_free hnodup hfreed
    · rw [List.reverse_cons]
      refine hlisted.concat fun source hsource ↦ .inr ?_
      rw [List.map_reverse, List.mem_reverse]
      exact outstanding_eq_zero_iff.mp hfirst source hsource

theorem sourcesFirst_arrange (hnodup : (ts.map Transaction.id).Nodup) :
    SourcesFirst (fun _ ↦ False) (arrange ts) := by
  obtain ⟨waiting, harrange, hprogress⟩ := exists_arrange_eq hnodup
  rw [harrange]
  refine hprogress.sourcesFirst_listReady hnodup ?_ trivial
  intro u hu
  rw [outstanding_eq_zero_iff, List.isEmpty_iff.mp (List.mem_filter.mp hu).2]
  exact fun _ hsource ↦ absurd hsource List.not_mem_nil

end Lineage

/-- In a lineage the sources of each transaction come before it. -/
theorem Archive.sourcesFirst_of_lineage {archive : Archive} {ids : List TransactionId}
    {ts : List Transaction} (hkeyed : archive.Keyed) (h : archive.lineage ids = .ok ts) :
    Lineage.SourcesFirst (fun _ ↦ False) ts := by
  obtain ⟨met, hwalk, h⟩ := Outcome.bind_eq_ok_iff.mp h
  rw [← Outcome.pure_eq_ok_iff.mp h]
  exact Lineage.sourcesFirst_arrange (nodup_of_walk hkeyed hwalk)

end Custody
