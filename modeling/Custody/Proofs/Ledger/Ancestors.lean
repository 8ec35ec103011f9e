import Custody.Proofs.Ledger.Reachability

/-!
# When ancestors are found

A search for ancestors succeeds exactly when everything that can be reached is held, cycles or not,
and then finds just that. Otherwise it names something that can be reached and is not held: what a
round fails on waits in the queue, and whatever waits there was reached. So what is found depends on
where the search starts and not on the order, and it is found from each start alone.
-/

namespace Custody.Archive

section

variable {archive unvisited : Archive} {queue ids ids' found : List TransactionId}
  {met : List Transaction} {id : TransactionId} {e : LedgerError}

/-! ### Failing -/

/-- A round fails on something queued that is not held. -/
theorem exists_of_nextUnvisited_eq_error
    (h : archive.nextUnvisited unvisited queue = .error e) :
    ∃ id ∈ queue, e = .notFound id ∧ id ∉ archive := by
  induction queue with
  | nil => cases h
  | cons first queue ih =>
    unfold nextUnvisited at h
    split at h
    · cases h
    · split at h
      · obtain ⟨id, hid, he⟩ := ih h
        exact ⟨id, List.mem_cons_of_mem first hid, he⟩
      · rename_i hmissing
        exact ⟨first, List.mem_cons_self, (Except.error.inj h).symm, hmissing⟩

/-- A walk fails on something reached from its queue that is not held. -/
theorem exists_of_walkFrom_eq_error (hunvisited : Extends unvisited archive)
    (h : archive.walkFrom queue unvisited met = .error e) :
    ∃ id, e = .notFound id ∧ archive.ReachedFrom queue id ∧ id ∉ archive := by
  induction queue, unvisited, met using walkFrom.induct archive with
  | case1 queue unvisited met e' herror =>
    rw [walkFrom_of_error herror, Except.error.injEq] at h
    obtain ⟨id, hid, he, hmissing⟩ := exists_of_nextUnvisited_eq_error herror
    exact ⟨id, h ▸ he, ⟨id, hid, .refl⟩, hmissing⟩
  | case2 queue unvisited met hdone =>
    rw [walkFrom_of_none hdone] at h
    cases h
  | case3 queue unvisited met consumer t rest hround ih =>
    have hheld := hunvisited consumer t (getElem?_of_nextUnvisited hround)
    obtain ⟨hconsumer, hrest⟩ := mem_of_nextUnvisited hround
    rw [walkFrom_of_some hround] at h
    obtain ⟨id, he, ⟨start, hstart, hreaches⟩, hmissing⟩ := ih hunvisited.of_erase h
    refine ⟨id, he, ?_, hmissing⟩
    rcases List.mem_append.mp hstart with hstart | hsource
    · exact ⟨start, hrest hstart, hreaches⟩
    · exact ⟨consumer, hconsumer, .head ⟨t, hheld, hsource⟩ hreaches⟩

theorem exists_of_ancestors_eq_error (h : archive.ancestors ids = .error e) :
    ∃ id, e = .notFound id ∧ archive.ReachedFrom ids id ∧ id ∉ archive := by
  unfold ancestors at h
  cases hwalk : archive.walk ids with
  | error e' =>
    rw [hwalk] at h
    rw [← Except.error.inj h]
    exact exists_of_walkFrom_eq_error .refl hwalk
  | ok ts =>
    rw [hwalk] at h
    cases h

/-! ### Succeeding -/

/-- Where the sources of whatever is held are held, the search succeeds from any ids held. -/
theorem exists_ancestors (hclosed : archive.Closed) (hids : ∀ id ∈ ids, id ∈ archive) :
    ∃ found, archive.ancestors ids = .ok found := by
  cases h : archive.ancestors ids with
  | ok found => exact ⟨found, rfl⟩
  | error e =>
    obtain ⟨id, -, ⟨start, hstart, hreaches⟩, hmissing⟩ := exists_of_ancestors_eq_error h
    exact absurd (hclosed.mem_of_reaches (hids start hstart) hreaches) hmissing

/-- Whatever a search finds is held. -/
theorem mem_of_mem_ancestors (h : archive.ancestors ids = .ok found) (hkeyed : archive.Keyed)
    (hid : id ∈ found) : id ∈ archive := by
  have hreached := (mem_ancestors_iff hkeyed h).mp hid
  obtain ⟨ts, hwalk, -⟩ := Outcome.bind_eq_ok_iff.mp h
  obtain ⟨t, ht, rfl⟩ := List.mem_map.mp ((mem_map_walk_iff hkeyed hwalk).mpr hreached)
  rw [Std.TreeMap.mem_iff_isSome_getElem?, ((mem_walk_iff hkeyed hwalk).mp ht).1]
  rfl

theorem exists_ancestors_iff (hkeyed : archive.Keyed) :
    (∃ found, archive.ancestors ids = .ok found) ↔
      ∀ id, archive.ReachedFrom ids id → id ∈ archive := by
  constructor
  · rintro ⟨found, h⟩ id hreached
    exact mem_of_mem_ancestors h hkeyed ((mem_ancestors_iff hkeyed h).mpr hreached)
  · intro hheld
    cases h : archive.ancestors ids with
    | ok found => exact ⟨found, rfl⟩
    | error e =>
      obtain ⟨id, -, hreached, hmissing⟩ := exists_of_ancestors_eq_error h
      exact absurd (hheld id hreached) hmissing

/-- What is found from some ids is found from others that reach the same. -/
theorem ancestors_eq_ok_of_reachedFrom_iff (hkeyed : archive.Keyed)
    (h : archive.ancestors ids = .ok found)
    (hiff : ∀ id, archive.ReachedFrom ids' id ↔ archive.ReachedFrom ids id) :
    archive.ancestors ids' = .ok found := by
  have hheld := (exists_ancestors_iff hkeyed).mp ⟨found, h⟩
  obtain ⟨found', h'⟩ := (exists_ancestors_iff hkeyed).mpr fun id hid ↦ hheld id ((hiff id).mp hid)
  rw [h', eq_of_mem_iff_of_ancestors h' h fun id ↦ ?_]
  rw [mem_ancestors_iff hkeyed h', mem_ancestors_iff hkeyed h]
  exact hiff id

/-- Every start that is found from is found from alone too. -/
theorem exists_ancestors_singleton (hkeyed : archive.Keyed) (h : archive.ancestors ids = .ok found)
    {start : TransactionId} (hstart : start ∈ ids) :
    ∃ single, archive.ancestors [start] = .ok single := by
  rw [exists_ancestors_iff hkeyed]
  intro id hreached
  have hheld := (exists_ancestors_iff hkeyed).mp ⟨found, h⟩
  exact hheld id ⟨start, hstart, reachedFrom_singleton.mp hreached⟩

theorem nodup_of_ancestors (h : archive.ancestors ids = .ok found) : found.Nodup := by
  obtain ⟨ts, -, h⟩ := Outcome.bind_eq_ok_iff.mp h
  rw [← Outcome.pure_eq_ok_iff.mp h]
  exact nodup_toList

/-- A search for ancestors in an archive that keeps every transaction under its own id, whatever
the shape of the archive and the starting ids. It succeeds exactly when all that is reached is held,
and fails on something reached that is not held. What it finds is what is reached, each id once; it
depends neither on the order of the starting ids nor on repetitions among them; and it is what is
found from each of them alone, taken together. -/
theorem ancestors_resolution (hkeyed : archive.Keyed) (ids : List TransactionId) :
    ((∃ found, archive.ancestors ids = .ok found) ↔
      ∀ id, archive.ReachedFrom ids id → id ∈ archive) ∧
    (∀ e, archive.ancestors ids = .error e →
      ∃ id, e = .notFound id ∧ archive.ReachedFrom ids id ∧ id ∉ archive) ∧
    ∀ found, archive.ancestors ids = .ok found →
      found.Nodup ∧ (∀ id, id ∈ found ↔ archive.ReachedFrom ids id) ∧
      (∀ ids', (∀ id, id ∈ ids' ↔ id ∈ ids) → archive.ancestors ids' = .ok found) ∧
      (∀ start ∈ ids, ∃ single, archive.ancestors [start] = .ok single) ∧
      ∀ id, id ∈ found ↔
        ∃ start ∈ ids, ∃ single, archive.ancestors [start] = .ok single ∧ id ∈ single := by
  refine ⟨exists_ancestors_iff hkeyed, fun e ↦ exists_of_ancestors_eq_error, fun found h ↦ ?_⟩
  have hmem (id : TransactionId) : id ∈ found ↔ archive.ReachedFrom ids id :=
    mem_ancestors_iff hkeyed h
  refine ⟨nodup_of_ancestors h, hmem, ?_, fun start ↦ exists_ancestors_singleton hkeyed h, ?_⟩
  · intro ids' hsame
    refine ancestors_eq_ok_of_reachedFrom_iff hkeyed h fun id ↦ ?_
    exact exists_congr fun start ↦ and_congr_left fun _ ↦ hsame start
  · intro id
    rw [hmem id]
    refine exists_congr fun start ↦ and_congr_right fun hstart ↦ ?_
    constructor
    · intro hreaches
      obtain ⟨single, hsingle⟩ := exists_ancestors_singleton hkeyed h hstart
      exact ⟨single, hsingle, (mem_ancestors_iff hkeyed hsingle).mpr
        (reachedFrom_singleton.mpr hreaches)⟩
    · rintro ⟨single, hsingle, hid⟩
      exact reachedFrom_singleton.mp ((mem_ancestors_iff hkeyed hsingle).mp hid)

/-- What an archive holds shows whether it keeps everything under its own id. -/
theorem keyed_of_forall (h : ∀ x ∈ archive.toList, x.2.id = x.1) : archive.Keyed :=
  fun id t ht ↦ h (id, t) (Std.TreeMap.mem_toList_iff_getElem?_eq_some.mpr ht)

end

/-! ### A cycle, and a gap -/

namespace Knot

/-- The id of a transaction. -/
def nth (byte : UInt8) : TransactionId := ⟨.replicate 32 byte⟩

/-- A transaction that consumes an output of each source given, as often as it is given. -/
def entry (byte : UInt8) (sources : List UInt8) : Transaction where
  id := nth byte
  content := {
    inputs := sources.zipIdx.map fun (source, index) ↦ ⟨nth source, UInt32.ofNat index⟩
    outputs := []
    commands := [.asset "Move" []]
    notary := ⟨"Notary", ⟨.replicate 32 9⟩⟩
    attachments := []
    salt := .replicate 32 byte }
  endorsements := []

/-- The first two consume from each other, the third from both, and the fourth from what is not
held. -/
def archive : Archive :=
  [entry 1 [2], entry 2 [1], entry 3 [1, 2, 1], entry 4 [3, 5]].foldl add ∅

theorem keyed : archive.Keyed := keyed_of_forall (by decide +kernel)

end Knot

open Knot in
theorem ancestors_resolution_knot :
    Knot.archive.ancestors [nth 3, nth 3, nth 2] = .ok [nth 1, nth 2, nth 3] ∧
      Knot.archive.ReachedFrom [nth 3, nth 3, nth 2] (nth 1) ∧
      Knot.archive.ancestors [nth 2, nth 3] = .ok [nth 1, nth 2, nth 3] ∧
      ∃ missing, Knot.archive.ancestors [nth 3, nth 4] = .error (.notFound missing) ∧
        Knot.archive.ReachedFrom [nth 3, nth 4] missing ∧ missing ∉ Knot.archive := by
  have hfound : Knot.archive.ancestors [nth 3, nth 3, nth 2] = .ok [nth 1, nth 2, nth 3] := by
    decide +kernel
  have hfails : Knot.archive.ancestors [nth 3, nth 4] = .error (.notFound (nth 5)) := by
    decide +kernel
  obtain ⟨-, -, hsucceeds⟩ := ancestors_resolution keyed [nth 3, nth 3, nth 2]
  obtain ⟨-, hreached, hsame, -⟩ := hsucceeds _ hfound
  obtain ⟨-, hmissing, -⟩ := ancestors_resolution keyed [nth 3, nth 4]
  obtain ⟨missing, he, hmissing⟩ := hmissing _ hfails
  refine ⟨hfound, (hreached (nth 1)).mp (by decide), hsame _ ?_, missing, he ▸ hfails, hmissing⟩
  intro id
  simp only [List.mem_cons, List.not_mem_nil, or_false]
  tauto

end Custody.Archive
