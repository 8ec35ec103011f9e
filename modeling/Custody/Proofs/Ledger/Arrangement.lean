import Mathlib.Data.Finset.Card
import Custody.Proofs.Ledger.Reachability

/-!
# Nothing is left out of an arrangement

What lies on a cycle is never listed. Where the transactions to be arranged can be ranked so that
the sources of each come before it, all of them are listed: as long as a transaction is not listed,
the count kept for it is that of its sources that are not listed either, and one of these comes
earlier. None is listed twice.
-/

namespace Custody

theorem nodup_eraseDups {α : Type} [DecidableEq α] (xs : List α) : xs.eraseDups.Nodup := by
  match xs with
  | [] => exact List.nodup_nil
  | x :: xs =>
    rw [List.eraseDups_cons, List.nodup_cons, List.mem_eraseDups]
    exact ⟨by simp, nodup_eraseDups _⟩
termination_by xs.length
decreasing_by exact Nat.lt_succ_of_le (List.length_filter_le _ _)

namespace Lineage

variable {waiting : Waiting} {ts us ready listed : List Transaction} {t u : Transaction}
  {id : TransactionId}

/-! ### Counting down -/

/-- What is left of the count of a transaction's unlisted sources when one more is listed. -/
def countDown (n : Nat) : Option Nat := if n ≤ 1 then none else some (n - 1)

/-- Each count that is kept for a given transaction goes down by one, and is dropped at the end. -/
theorem getElem?_free (hnodup : (us.map Transaction.id).Nodup) :
    (free waiting us).1[id]? =
      if id ∈ us.map Transaction.id then waiting[id]?.bind countDown else waiting[id]? := by
  induction us generalizing waiting with
  | nil => rfl
  | cons t us ih =>
    rw [List.map_cons, List.nodup_cons] at hnodup
    obtain ⟨hnew, hnodup⟩ := hnodup
    have hself : id = t.id → id ∉ us.map Transaction.id := fun h ↦ h ▸ hnew
    unfold free
    rw [List.map_cons]
    cases hwaiting : waiting[t.id]? with
    | none =>
      simp only [ih hnodup, List.mem_cons]
      by_cases hid : id = t.id
      · simp [hid, hnew, hwaiting]
      · simp [hid]
    | some n =>
      by_cases hlast : n ≤ 1
      · simp only [hlast, if_true, ih hnodup, List.mem_cons]
        by_cases hid : id = t.id
        · simp [hid, hnew, hwaiting, hlast, countDown]
        · simp [hid, Std.TreeMap.getElem?_erase, Ne.symm hid]
      · simp only [hlast, if_false, ih hnodup, List.mem_cons]
        by_cases hid : id = t.id
        · simp [hid, hnew, hwaiting, hlast, countDown]
        · simp [hid, Std.TreeMap.getElem?_insert, Ne.symm hid]

/-- What is freed waited for one source at most. -/
theorem mem_free_iff (hnodup : (us.map Transaction.id).Nodup) :
    u ∈ (free waiting us).2 ↔ u ∈ us ∧ ∃ n ≤ 1, waiting[u.id]? = some n := by
  induction us generalizing waiting with
  | nil => simp [free]
  | cons t us ih =>
    rw [List.map_cons, List.nodup_cons] at hnodup
    obtain ⟨hnew, hnodup⟩ := hnodup
    have hother : u ∈ us → u.id ≠ t.id := fun hu heq ↦ hnew (heq ▸ List.mem_map_of_mem hu)
    unfold free
    cases hwaiting : waiting[t.id]? with
    | none =>
      simp only [ih hnodup, List.mem_cons]
      constructor
      · rintro ⟨hu, hn⟩
        exact ⟨.inr hu, hn⟩
      · rintro ⟨rfl | hu, n, hn, hcount⟩
        · cases hwaiting.symm.trans hcount
        · exact ⟨hu, n, hn, hcount⟩
    | some n =>
      by_cases hlast : n ≤ 1
      · simp only [hlast, if_true, List.mem_cons, ih hnodup, Std.TreeMap.getElem?_erase]
        constructor
        · rintro (rfl | ⟨hu, k, hk, hcount⟩)
          · exact ⟨.inl rfl, n, hlast, hwaiting⟩
          · rw [if_neg (by simpa using (hother hu).symm)] at hcount
            exact ⟨.inr hu, k, hk, hcount⟩
        · rintro ⟨rfl | hu, k, hk, hcount⟩
          · exact .inl rfl
          · refine .inr ⟨hu, k, hk, ?_⟩
            rwa [if_neg (by simpa using (hother hu).symm)]
      · simp only [hlast, if_false, ih hnodup, List.mem_cons, Std.TreeMap.getElem?_insert]
        constructor
        · rintro ⟨hu, k, hk, hcount⟩
          rw [if_neg (by simpa using (hother hu).symm)] at hcount
          exact ⟨.inr hu, k, hk, hcount⟩
        · rintro ⟨rfl | hu, k, hk, hcount⟩
          · rw [hwaiting, Option.some.injEq] at hcount
            exact absurd (hcount ▸ hk) hlast
          · refine ⟨hu, k, hk, ?_⟩
            rwa [if_neg (by simpa using (hother hu).symm)]

/-! ### Consumers and first counts -/

/-- The consumers of a transaction are those of which it is a source. -/
theorem getD_consumers : (consumers ts).getD id [] = ts.filter (id ∈ ·.sources) := by
  have henter (t : Transaction) (sources : List TransactionId) (hnodup : sources.Nodup)
      (map : Std.TreeMap TransactionId (List Transaction)) :
      (sources.foldl (fun map source ↦ map.insert source (t :: map.getD source [])) map).getD id []
        = if id ∈ sources then t :: map.getD id [] else map.getD id [] := by
    induction sources generalizing map with
    | nil => rfl
    | cons source sources ih =>
      obtain ⟨hnew, hnodup⟩ := List.nodup_cons.mp hnodup
      rw [List.foldl_cons, ih hnodup, Std.TreeMap.getD_insert]
      by_cases hid : id = source
      · simp [hid, hnew]
      · simp [hid, Ne.symm hid]
  induction ts with
  | nil => exact Std.TreeMap.getD_emptyc
  | cons t ts ih =>
    change (t.sources.eraseDups.foldl _ (consumers ts)).getD id [] = _
    rw [henter t _ (nodup_eraseDups _), List.filter_cons, ih]
    simp only [List.mem_eraseDups, decide_eq_true_eq]

/-- What a transaction waits for at first: as many as it has sources. -/
def enter (waiting : Waiting) (t : Transaction) : Waiting :=
  match t.sources.eraseDups.length with
  | 0 => waiting
  | n => waiting.insert t.id n

theorem enter_eq : enter waiting t = if t.sources.eraseDups.length = 0 then waiting
    else waiting.insert t.id t.sources.eraseDups.length := by
  unfold enter
  cases t.sources.eraseDups.length with
  | zero => rfl
  | succ n => rfl

/-- At first every transaction with sources waits. -/
theorem getElem?_foldl_enter (hnodup : (ts.map Transaction.id).Nodup) (ht : t ∈ ts) :
    (ts.foldl enter waiting)[t.id]? =
      if t.sources.eraseDups.length = 0 then waiting[t.id]?
      else some t.sources.eraseDups.length := by
  have hskip {u : Transaction} (hid : u.id ≠ t.id) (waiting : Waiting) :
      (enter waiting u)[t.id]? = waiting[t.id]? := by
    rw [enter_eq]
    split
    · rfl
    · rw [Std.TreeMap.getElem?_insert, if_neg (by simpa using hid)]
  have hskipAll {us : List Transaction} (hid : t.id ∉ us.map Transaction.id) (waiting : Waiting) :
      (us.foldl enter waiting)[t.id]? = waiting[t.id]? := by
    induction us generalizing waiting with
    | nil => rfl
    | cons u us ih =>
      rw [List.map_cons, List.mem_cons, not_or] at hid
      rw [List.foldl_cons, ih hid.2, hskip (Ne.symm hid.1)]
  induction ts generalizing waiting with
  | nil => exact absurd ht List.not_mem_nil
  | cons u us ih =>
    rw [List.map_cons, List.nodup_cons] at hnodup
    rw [List.foldl_cons]
    rcases List.mem_cons.mp ht with rfl | ht
    · rw [hskipAll hnodup.1, enter_eq]
      split
      · rfl
      · exact Std.TreeMap.getElem?_insert_self
    · rw [ih hnodup.2 ht, hskip fun heq ↦ hnodup.1 (heq ▸ List.mem_map_of_mem ht)]

/-! ### Listing all -/

/-- How many sources of a transaction are not among those listed. -/
def outstanding (listed : List Transaction) (t : Transaction) : Nat :=
  (t.sources.toFinset \ (listed.map Transaction.id).toFinset).card

theorem outstanding_nil : outstanding [] t = t.sources.eraseDups.length := by
  have hsame : t.sources.eraseDups.toFinset = t.sources.toFinset := by
    ext source
    simp only [List.mem_toFinset, List.mem_eraseDups]
  rw [outstanding, List.map_nil, List.toFinset_nil, Finset.sdiff_empty, ← hsame,
    List.toFinset_card_of_nodup (nodup_eraseDups _)]

/-- Listing a source takes one off. -/
theorem outstanding_cons_of_mem (hsource : t.id ∈ u.sources)
    (hnew : t.id ∉ listed.map Transaction.id) :
    outstanding (t :: listed) u = outstanding listed u - 1 := by
  rw [outstanding, List.map_cons, List.toFinset_cons, Finset.sdiff_insert,
    Finset.card_erase_of_mem (by simpa using ⟨hsource, by simpa using hnew⟩), outstanding]

theorem outstanding_cons_of_notMem (hsource : t.id ∉ u.sources) :
    outstanding (t :: listed) u = outstanding listed u := by
  rw [outstanding, List.map_cons, List.toFinset_cons, Finset.sdiff_insert,
    Finset.erase_eq_of_notMem (by simp [hsource]), outstanding]

/-- How far the listing has come: what is ready or listed comes from the transactions given and is
not waited for any more; every other one waits for its unlisted sources, of which there are some. -/
structure Progress (ts : List Transaction) (waiting : Waiting) (ready listed : List Transaction) :
    Prop where
  nodup : ((ready ++ listed).map Transaction.id).Nodup
  subset : ready ++ listed ⊆ ts
  isDone : ∀ t ∈ ready ++ listed, waiting[t.id]? = none
  waits : ∀ t ∈ ts, t ∈ ready ++ listed ∨
    0 < outstanding listed t ∧ waiting[t.id]? = some (outstanding listed t)

/-- Listing one transaction and readying what it frees is progress. -/
theorem Progress.step (hnodup : (ts.map Transaction.id).Nodup)
    (h : Progress ts waiting (t :: ready) listed) :
    Progress ts (free waiting ((consumers ts).getD t.id [])).1
      (ready ++ (free waiting ((consumers ts).getD t.id [])).2) (t :: listed) := by
  rw [getD_consumers]
  generalize hus : ts.filter (t.id ∈ ·.sources) = us
  have hsub : us.Sublist ts := hus ▸ List.filter_sublist
  have husNodup : (us.map Transaction.id).Nodup := hnodup.sublist (hsub.map _)
  have hmem {u : Transaction} : u ∈ ready ++ (free waiting us).2 ++ t :: listed ↔
      u ∈ (free waiting us).2 ∨ u ∈ t :: ready ++ listed := by
    simp only [List.mem_append, List.mem_cons]
    tauto
  have hnew : t.id ∉ listed.map Transaction.id := by
    have hdistinct := h.nodup
    rw [List.cons_append, List.map_cons, List.nodup_cons, List.map_append, List.mem_append,
      not_or] at hdistinct
    exact hdistinct.1.2
  refine ⟨?_, ?_, ?_, ?_⟩
  · have hperm : (ready ++ (free waiting us).2 ++ t :: listed).Perm
        ((free waiting us).2 ++ (t :: ready ++ listed)) := by
      rw [List.cons_append]
      refine (List.perm_append_comm.append_right _).trans ?_
      rw [List.append_assoc]
      exact List.perm_middle.append_left _
    rw [(hperm.map Transaction.id).nodup_iff, List.map_append, List.nodup_append]
    refine ⟨husNodup.sublist (free_sublist.map _), h.nodup, ?_⟩
    rintro _ hfreed _ hold rfl
    obtain ⟨u, hu, hid⟩ := List.mem_map.mp hfreed
    obtain ⟨v, hv, rfl⟩ := List.mem_map.mp hold
    obtain ⟨-, n, -, hcount⟩ := (mem_free_iff husNodup).mp hu
    rw [hid, h.isDone v hv] at hcount
    cases hcount
  · intro u hu
    rcases hmem.mp hu with hfreed | hold
    · exact (free_sublist.trans hsub).subset hfreed
    · exact h.subset hold
  · intro u hu
    rw [getElem?_free husNodup]
    rcases hmem.mp hu with hfreed | hold
    · obtain ⟨hus, n, hn, hcount⟩ := (mem_free_iff husNodup).mp hfreed
      rw [if_pos (List.mem_map_of_mem hus), hcount, Option.bind_some, countDown, if_pos hn]
    · rw [h.isDone u hold]
      exact ite_self _
  · intro u hu
    rw [hmem, getElem?_free husNodup]
    rcases h.waits u hu with hold | ⟨hpos, hcount⟩
    · exact .inl (.inr hold)
    by_cases hsource : t.id ∈ u.sources
    · have hconsumes : u ∈ us := hus ▸ List.mem_filter.mpr ⟨hu, decide_eq_true hsource⟩
      rw [if_pos (List.mem_map_of_mem hconsumes), hcount, Option.bind_some, countDown,
        outstanding_cons_of_mem hsource hnew]
      by_cases hlast : outstanding listed u ≤ 1
      · exact .inl (.inl ((mem_free_iff husNodup).mpr ⟨hconsumes, _, hlast, hcount⟩))
      · exact .inr ⟨by omega, if_neg hlast⟩
    · have hother : u.id ∉ us.map Transaction.id := by
        intro hid
        obtain ⟨v, hv, hid⟩ := List.mem_map.mp hid
        obtain rfl := List.inj_on_of_nodup_map hnodup (hsub.subset hv) hu hid
        rw [← hus, List.mem_filter, decide_eq_true_eq] at hv
        exact hsource hv.2
      rw [if_neg hother, outstanding_cons_of_notMem hsource]
      exact .inr ⟨hpos, hcount⟩

/-- Where each source comes earlier in some order, listing goes on until all are listed. -/
theorem Progress.mem_listReady (hnodup : (ts.map Transaction.id).Nodup)
    {rank : TransactionId → Nat} (hrank : ∀ t ∈ ts, ∀ source ∈ t.sources,
      source ∈ ts.map Transaction.id ∧ rank source < rank t.id)
    (h : Progress ts waiting ready listed) (ht : t ∈ ts) :
    t ∈ listReady (consumers ts) waiting ready listed := by
  induction waiting, ready, listed using listReady.induct (consumers ts) with
  | case2 waiting listed first ready next ih =>
    unfold listReady
    exact ih (h.step hnodup)
  | case1 waiting listed =>
    unfold listReady
    rw [List.mem_reverse]
    generalize hn : rank t.id = n
    induction n using Nat.strong_induction_on generalizing t with
    | h n ih =>
    rcases h.waits t ht with hlisted | ⟨hpos, -⟩
    · exact hlisted
    · -- One of the sources would not be listed either, but it comes earlier.
      obtain ⟨source, hsource⟩ := Finset.card_pos.mp hpos
      rw [Finset.mem_sdiff, List.mem_toFinset, List.mem_toFinset] at hsource
      obtain ⟨hmem, hlt⟩ := hrank t ht source hsource.1
      obtain ⟨u, hu, rfl⟩ := List.mem_map.mp hmem
      exact absurd (List.mem_map_of_mem (ih _ (hn ▸ hlt) hu rfl)) hsource.2

/-- Arranging lists what is ready at first, the transactions without sources, and goes on from
there. -/
theorem exists_arrange_eq (hnodup : (ts.map Transaction.id).Nodup) :
    ∃ waiting, arrange ts =
        listReady (consumers ts) waiting (ts.filter (·.sources.isEmpty)) [] ∧
      Progress ts waiting (ts.filter (·.sources.isEmpty)) [] := by
  have hwaiting {u : Transaction} (hu : u ∈ ts) :
      (ts.foldl enter ∅)[u.id]? =
        if u.sources.eraseDups.length = 0 then none else some u.sources.eraseDups.length := by
    rw [getElem?_foldl_enter hnodup hu, Std.TreeMap.getElem?_emptyc]
  have hready {u : Transaction} :
      u ∈ ts.filter (·.sources.isEmpty) ++ [] ↔ u ∈ ts ∧ outstanding [] u = 0 := by
    rw [List.append_nil, List.mem_filter, outstanding, Finset.card_eq_zero]
    simp
  refine ⟨ts.foldl enter ∅, rfl, ?_, ?_, ?_, ?_⟩
  · rw [List.append_nil]
    exact hnodup.sublist (List.filter_sublist.map _)
  · exact fun u hu ↦ (hready.mp hu).1
  · intro u hu
    obtain ⟨hu, hnone⟩ := hready.mp hu
    rw [hwaiting hu, if_pos (outstanding_nil.symm.trans hnone)]
  · intro u hu
    rw [hready, hwaiting hu, ← outstanding_nil]
    obtain hnone | hpos := Nat.eq_zero_or_pos (outstanding [] u)
    · exact .inl ⟨hu, hnone⟩
    · exact .inr ⟨hpos, if_neg hpos.ne'⟩

theorem mem_arrange (hnodup : (ts.map Transaction.id).Nodup) (rank : TransactionId → Nat)
    (hrank : ∀ t ∈ ts, ∀ source ∈ t.sources,
      source ∈ ts.map Transaction.id ∧ rank source < rank t.id)
    (ht : t ∈ ts) : t ∈ arrange ts := by
  obtain ⟨waiting, harrange, hprogress⟩ := exists_arrange_eq hnodup
  rw [harrange]
  exact hprogress.mem_listReady hnodup hrank ht

/-- Nothing is listed twice. -/
theorem Progress.nodup_listReady (hnodup : (ts.map Transaction.id).Nodup)
    (h : Progress ts waiting ready listed) :
    ((listReady (consumers ts) waiting ready listed).map Transaction.id).Nodup := by
  induction waiting, ready, listed using listReady.induct (consumers ts) with
  | case1 waiting listed =>
    unfold listReady
    rw [List.map_reverse, List.nodup_reverse]
    exact h.nodup
  | case2 waiting listed first ready next ih =>
    unfold listReady
    exact ih (h.step hnodup)

theorem nodup_arrange (hnodup : (ts.map Transaction.id).Nodup) :
    ((arrange ts).map Transaction.id).Nodup := by
  obtain ⟨waiting, harrange, hprogress⟩ := exists_arrange_eq hnodup
  rw [harrange]
  exact hprogress.nodup_listReady hnodup

end Lineage

end Custody
