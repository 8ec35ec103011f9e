import Mathlib.Data.List.Nodup
import Mathlib.Logic.Relation
import Custody.Proofs.Ledger.Lineage

/-!
# What a walk reaches

One archived transaction consumes from another when it has an input whose source that is, and the
ancestors of some ids are what can be reached from them in this way. A walk finds all of them and
nothing else: what it meets it reached, and what it met is in the end closed under the sources of
its inputs, since a source that was not met yet waits in the queue.
-/

namespace Custody.Archive

variable {archive unvisited : Archive} {queue rest ids : List TransactionId}
  {met ts : List Transaction} {id source : TransactionId} {t : Transaction}

/-- The archived transaction of an id consumes outputs of another. -/
def Consumes (archive : Archive) (id source : TransactionId) : Prop :=
  ∃ t, archive[id]? = some t ∧ source ∈ t.sources

/-- One id is reached from another, through any number of transactions. -/
abbrev Reaches (archive : Archive) : TransactionId → TransactionId → Prop :=
  Relation.ReflTransGen archive.Consumes

/-- An id is reached from one of several. -/
def ReachedFrom (archive : Archive) (ids : List TransactionId) (id : TransactionId) : Prop :=
  ∃ start ∈ ids, archive.Reaches start id

/-- Every transaction is archived under its own id. -/
def Keyed (archive : Archive) : Prop :=
  ∀ (id : TransactionId) (t : Transaction), archive[id]? = some t → t.id = id

/-! ### Reaching -/

/-- Whoever consumes from one transaction only reaches itself and what that one reaches. -/
theorem reaches_iff_of_consumes (h : ∀ other, archive.Consumes id other ↔ other = source)
    {target : TransactionId} :
    archive.Reaches id target ↔ target = id ∨ archive.Reaches source target := by
  rw [Reaches, Relation.ReflTransGen.cases_head_iff]
  simp [h, eq_comm]

/-- Whoever consumes nothing reaches itself only. -/
theorem reaches_iff_of_not_consumes (h : ∀ other, ¬ archive.Consumes id other)
    {target : TransactionId} : archive.Reaches id target ↔ target = id := by
  rw [Reaches, Relation.ReflTransGen.cases_head_iff]
  simp [h, eq_comm]

theorem reachedFrom_singleton {start : TransactionId} :
    archive.ReachedFrom [start] id ↔ archive.Reaches start id := by
  simp [ReachedFrom]

/-- An archive that has the sources of whatever it holds has all that is reached. -/
theorem Closed.mem_of_reaches (hclosed : archive.Closed) (hid : id ∈ archive)
    {target : TransactionId} (hreaches : archive.Reaches id target) : target ∈ archive := by
  induction hreaches with
  | refl => exact hid
  | tail _ hconsumes _ =>
    obtain ⟨t, ht, hsource⟩ := hconsumes
    exact hclosed _ t ht _ hsource

theorem consumes_iff (ht : archive[id]? = some t) :
    archive.Consumes id source ↔ source ∈ t.sources := by
  simp [Consumes, ht]

/-! ### Rounds of a walk -/

theorem mem_of_nextUnvisited
    (h : archive.nextUnvisited unvisited queue = .ok (some (id, t, rest))) :
    id ∈ queue ∧ rest ⊆ queue := by
  induction queue with
  | nil => exact nomatch h
  | cons first queue ih =>
    unfold nextUnvisited at h
    split at h
    · simp only [Except.ok.injEq, Option.some.injEq, Prod.mk.injEq] at h
      obtain ⟨rfl, -, rfl⟩ := h
      exact ⟨List.mem_cons_self, List.subset_cons_self first queue⟩
    · split at h
      · obtain ⟨hid, hrest⟩ := ih h
        exact ⟨List.mem_cons_of_mem first hid, List.subset_cons_of_subset first hrest⟩
      · cases h

/-- What a round leaves out of the queue was met before, the one it meets apart. -/
theorem exists_or_of_mem_queue {next : Option (TransactionId × Transaction × List TransactionId)}
    (h : archive.nextUnvisited unvisited queue = .ok next) (hsource : source ∈ queue) :
    (source ∈ archive ∧ unvisited[source]? = none) ∨
      ∃ id t rest, next = some (id, t, rest) ∧ (source = id ∨ source ∈ rest) := by
  induction queue with
  | nil => exact absurd hsource List.not_mem_nil
  | cons first queue ih =>
    unfold nextUnvisited at h
    split at h
    · rename_i t ht
      exact .inr ⟨first, t, queue, (Except.ok.inj h).symm, List.mem_cons.mp hsource⟩
    · rename_i hvisited
      split at h
      · rename_i hheld
        rcases List.mem_cons.mp hsource with rfl | hmem
        · exact .inl ⟨hheld, hvisited⟩
        · exact ih h hmem
      · cases h

/-! ### Soundness -/

/-- Whatever a walk meets was met before or is reached from its queue. -/
theorem exists_reaches_of_walkFrom (hkeyed : archive.Keyed) (hunvisited : Extends unvisited archive)
    (h : archive.walkFrom queue unvisited met = .ok ts) (ht : t ∈ ts) :
    t ∈ met ∨ ∃ start ∈ queue, archive.Reaches start t.id := by
  induction queue, unvisited, met using walkFrom.induct archive with
  | case1 queue unvisited met e herror =>
    rw [walkFrom_of_error herror] at h
    cases h
  | case2 queue unvisited met hdone =>
    rw [walkFrom_of_none hdone] at h
    rw [← Except.ok.inj h, List.mem_reverse] at ht
    exact .inl ht
  | case3 queue unvisited met id first rest hround ih =>
    have hfirst := hunvisited id first (getElem?_of_nextUnvisited hround)
    obtain ⟨hid, hrest⟩ := mem_of_nextUnvisited hround
    rw [walkFrom_of_some hround] at h
    rcases ih hunvisited.of_erase h with hmem | ⟨start, hstart, hreaches⟩
    · rcases List.mem_cons.mp hmem with rfl | hmem
      · rw [hkeyed id t hfirst]
        exact .inr ⟨id, hid, .refl⟩
      · exact .inl hmem
    · rcases List.mem_append.mp hstart with hstart | hsource
      · exact .inr ⟨start, hrest hstart, hreaches⟩
      · exact .inr ⟨id, hid, .head ⟨first, hfirst, hsource⟩ hreaches⟩

/-! ### Completeness -/

/-- What a walk has still to meet waits in its queue: whatever has been visited was met, and the
sources of what was met were met or are queued. -/
structure Covers (archive unvisited : Archive) (queue : List TransactionId)
    (met : List Transaction) : Prop where
  visited : ∀ id ∈ archive, unvisited[id]? = none → id ∈ met.map Transaction.id
  pending : ∀ t ∈ met, ∀ source ∈ t.sources, source ∈ queue ∨ source ∈ met.map Transaction.id

namespace Covers

theorem start : archive.Covers archive ids [] where
  visited id hid hnone := by
    rw [Std.TreeMap.mem_iff_isSome_getElem?, hnone] at hid
    cases hid
  pending _ ht := absurd ht List.not_mem_nil

theorem mem_met_or_eq_or_mem (hcovers : archive.Covers unvisited queue met)
    (h : archive.nextUnvisited unvisited queue = .ok (some (id, t, rest)))
    (hsource : source ∈ queue) : source ∈ met.map Transaction.id ∨ source = id ∨ source ∈ rest := by
  rcases exists_or_of_mem_queue h hsource with ⟨hheld, hvisited⟩ | ⟨_, _, _, hnext, hmem⟩
  · exact .inl (hcovers.visited source hheld hvisited)
  · simp only [Option.some.injEq, Prod.mk.injEq] at hnext
    obtain ⟨rfl, -, rfl⟩ := hnext
    exact .inr hmem

theorem step (hcovers : archive.Covers unvisited queue met) (hid : t.id = id)
    (h : archive.nextUnvisited unvisited queue = .ok (some (id, t, rest))) :
    archive.Covers (unvisited.erase id) (rest ++ t.sources) (t :: met) where
  visited id' hid' hnone := by
    by_cases hself : id' = id
    · rw [hself, ← hid]
      exact List.mem_cons_self
    · rw [Std.TreeMap.getElem?_erase, if_neg (by simpa using Ne.symm hself)] at hnone
      exact List.mem_cons_of_mem t.id (hcovers.visited id' hid' hnone)
  pending u hu source hsource := by
    rw [List.map_cons, List.mem_cons, List.mem_append, hid]
    rcases List.mem_cons.mp hu with rfl | hu
    · exact .inl (.inr hsource)
    · rcases hcovers.pending u hu source hsource with hqueued | hmet
      · rcases hcovers.mem_met_or_eq_or_mem h hqueued with hmet | hself | hrest
        · exact .inr (.inr hmet)
        · exact .inr (.inl hself)
        · exact .inl (.inl hrest)
      · exact .inr (.inr hmet)

/-- In the end everything queued has been met, and so have the sources of whatever was met. -/
theorem of_walkFrom (hkeyed : archive.Keyed) (hunvisited : Extends unvisited archive)
    (hcovers : archive.Covers unvisited queue met)
    (h : archive.walkFrom queue unvisited met = .ok ts) :
    met ⊆ ts ∧ (∀ id ∈ queue, id ∈ ts.map Transaction.id) ∧
      ∀ t ∈ ts, ∀ source ∈ t.sources, source ∈ ts.map Transaction.id := by
  induction queue, unvisited, met using walkFrom.induct archive with
  | case1 queue unvisited met e herror =>
    rw [walkFrom_of_error herror] at h
    cases h
  | case2 queue unvisited met hdone =>
    rw [walkFrom_of_none hdone] at h
    obtain rfl := Except.ok.inj h
    have hqueue : ∀ id ∈ queue, id ∈ met.map Transaction.id := by
      intro id hid
      rcases exists_or_of_mem_queue hdone hid with ⟨hheld, hvisited⟩ | ⟨_, _, _, hnext, -⟩
      · exact hcovers.visited id hheld hvisited
      · cases hnext
    simp only [List.map_reverse, List.mem_reverse]
    refine ⟨List.subset_reverse.mpr (List.Subset.refl met), hqueue, ?_⟩
    intro t ht source hsource
    exact (hcovers.pending t ht source hsource).elim (hqueue source) id
  | case3 queue unvisited met id t rest hround ih =>
    have hid := hkeyed id t (hunvisited id t (getElem?_of_nextUnvisited hround))
    rw [walkFrom_of_some hround] at h
    obtain ⟨hmet, hqueued, hclosed⟩ := ih hunvisited.of_erase (hcovers.step hid hround) h
    refine ⟨(List.cons_subset.mp hmet).2, ?_, hclosed⟩
    intro source hsource
    rcases hcovers.mem_met_or_eq_or_mem hround hsource with hmem | rfl | hrest
    · exact List.map_subset _ (List.cons_subset.mp hmet).2 hmem
    · rw [← hid]
      exact List.mem_map_of_mem (List.cons_subset.mp hmet).1
    · exact hqueued source (List.mem_append_left _ hrest)

end Covers

/-- A walk meets whatever is reached from where it starts. -/
theorem mem_of_reaches_of_walk (hkeyed : archive.Keyed) (h : archive.walk ids = .ok ts)
    {start : TransactionId} (hstart : start ∈ ids) (hreaches : archive.Reaches start id) :
    id ∈ ts.map Transaction.id := by
  obtain ⟨-, hqueued, hclosed⟩ := Covers.of_walkFrom hkeyed .refl .start h
  induction hreaches with
  | refl => exact hqueued start hstart
  | tail _ hconsumes ih =>
    obtain ⟨consumer, hconsumer, hsource⟩ := hconsumes
    obtain ⟨u, hu, hid⟩ := List.mem_map.mp ih
    obtain ⟨id', hheld⟩ := stores_of_walk h hu
    rw [← hkeyed id' u hheld, hid, hconsumer, Option.some.injEq] at hheld
    exact hclosed u hu _ (hheld ▸ hsource)

/-- A walk meets what is reached, as it is archived, and nothing else. -/
theorem mem_walk_iff (hkeyed : archive.Keyed) (h : archive.walk ids = .ok ts) :
    t ∈ ts ↔ archive[t.id]? = some t ∧ archive.ReachedFrom ids t.id := by
  have hstored {u : Transaction} (hu : u ∈ ts) : archive[u.id]? = some u := by
    obtain ⟨id, hheld⟩ := stores_of_walk h hu
    rwa [hkeyed id u hheld]
  constructor
  · intro ht
    refine ⟨hstored ht, ?_⟩
    exact (exists_reaches_of_walkFrom hkeyed .refl h ht).resolve_left List.not_mem_nil
  · rintro ⟨ht, start, hstart, hreaches⟩
    obtain ⟨u, hu, hid⟩ := List.mem_map.mp (mem_of_reaches_of_walk hkeyed h hstart hreaches)
    have hsame := hstored hu
    rw [hid, ht, Option.some.injEq] at hsame
    rwa [hsame]

/-- The ids that a walk meets are those that are reached. -/
theorem mem_map_walk_iff (hkeyed : archive.Keyed) (h : archive.walk ids = .ok ts) :
    id ∈ ts.map Transaction.id ↔ archive.ReachedFrom ids id := by
  constructor
  · intro hid
    obtain ⟨t, ht, rfl⟩ := List.mem_map.mp hid
    exact ((mem_walk_iff hkeyed h).mp ht).2
  · rintro ⟨start, hstart, hreaches⟩
    exact mem_of_reaches_of_walk hkeyed h hstart hreaches

/-- The ancestors of some ids are what is reached from them. -/
theorem mem_ancestors_iff (hkeyed : archive.Keyed) {found : List TransactionId}
    (h : archive.ancestors ids = .ok found) : id ∈ found ↔ archive.ReachedFrom ids id := by
  obtain ⟨ts, hwalk, h⟩ := Outcome.bind_eq_ok_iff.mp h
  rw [← Outcome.pure_eq_ok_iff.mp h, Std.TreeSet.mem_toList, Std.TreeSet.mem_ofList,
    List.contains_iff_mem]
  exact mem_map_walk_iff hkeyed hwalk

/-- A walk meets each transaction once. -/
theorem nodup_of_walkFrom (hkeyed : archive.Keyed) (hunvisited : Extends unvisited archive)
    (hmet : (met.map Transaction.id).Nodup) (hvisited : ∀ t ∈ met, unvisited[t.id]? = none)
    (h : archive.walkFrom queue unvisited met = .ok ts) : (ts.map Transaction.id).Nodup := by
  induction queue, unvisited, met using walkFrom.induct archive with
  | case1 queue unvisited met e herror =>
    rw [walkFrom_of_error herror] at h
    cases h
  | case2 queue unvisited met hdone =>
    rw [walkFrom_of_none hdone] at h
    rw [← Except.ok.inj h, List.map_reverse, List.nodup_reverse]
    exact hmet
  | case3 queue unvisited met id t rest hround ih =>
    have hfound := getElem?_of_nextUnvisited hround
    have hid := hkeyed id t (hunvisited id t hfound)
    rw [walkFrom_of_some hround] at h
    refine ih hunvisited.of_erase ?_ ?_ h
    · rw [List.map_cons, List.nodup_cons]
      refine ⟨fun hmem ↦ ?_, hmet⟩
      obtain ⟨u, hu, huid⟩ := List.mem_map.mp hmem
      have hnone := hvisited u hu
      rw [huid, hid, hfound] at hnone
      cases hnone
    · intro u hu
      rw [Std.TreeMap.getElem?_erase]
      rcases List.mem_cons.mp hu with rfl | hu
      · simp [hid]
      · simp [hvisited u hu]

theorem nodup_of_walk (hkeyed : archive.Keyed) (h : archive.walk ids = .ok ts) :
    (ts.map Transaction.id).Nodup := by
  have hnone : (([] : List Transaction).map Transaction.id).Nodup := List.nodup_nil
  exact nodup_of_walkFrom hkeyed .refl hnone (fun _ hu ↦ absurd hu List.not_mem_nil) h

/-- Searches that find the same ids list them in the same order. -/
theorem eq_of_mem_iff_of_ancestors {archive' : Archive} {ids' found found' : List TransactionId}
    (h : archive.ancestors ids = .ok found) (h' : archive'.ancestors ids' = .ok found')
    (hmem : ∀ id, id ∈ found ↔ id ∈ found') : found = found' := by
  obtain ⟨met, -, h⟩ := Outcome.bind_eq_ok_iff.mp h
  obtain ⟨met', -, h'⟩ := Outcome.bind_eq_ok_iff.mp h'
  rw [← Outcome.pure_eq_ok_iff.mp h, ← Outcome.pure_eq_ok_iff.mp h'] at hmem ⊢
  apply Std.TreeSet.Equiv.toList_eq
  apply Std.TreeSet.Equiv.of_forall_mem_iff
  simpa only [Std.TreeSet.mem_toList] using hmem

/-- Archives in which the same is reached find the same ancestors, in the same order. -/
theorem ancestors_eq_of_reaches_iff {archive' : Archive} (hkeyed : archive.Keyed)
    (hkeyed' : archive'.Keyed) {found found' : List TransactionId}
    (h : archive.ancestors ids = .ok found) (h' : archive'.ancestors ids = .ok found')
    (hiff : ∀ start ∈ ids, ∀ id, archive.Reaches start id ↔ archive'.Reaches start id) :
    found = found' := by
  refine eq_of_mem_iff_of_ancestors h h' fun id ↦ ?_
  rw [mem_ancestors_iff hkeyed h, mem_ancestors_iff hkeyed' h']
  exact exists_congr fun start ↦ and_congr_right fun hstart ↦ hiff start hstart id

end Custody.Archive
