import Custody.Ledger
import Custody.Proofs.Maps
import Custody.Proofs.Outcome

/-!
# Growing archives

Stores never let go of what they hold, nor replace it. What can be resolved from an archive can be
resolved from every larger one, to the same entities.
-/

namespace Custody

/-! ### Recording -/

namespace Ledger

variable {l : Ledger} {t u : Transaction} {id : TransactionId}

theorem getElem?_archive_record :
    (l.record t).1.archive[id]? = some u ↔
      l.archive[id]? = some u ∨ t.id ∉ l.archive ∧ t.id = id ∧ t = u := by
  unfold record
  split
  · rename_i hheld
    simp [hheld]
  · rename_i hnew
    unfold Archive.add
    rw [Std.TreeMap.getElem?_insertIfNew]
    by_cases hid : t.id = id
    · rw [hid] at hnew
      simp [hid, hnew]
    · simp [hid]

theorem mem_archive_record : t.id ∈ (l.record t).1.archive := by
  unfold record
  split
  · assumption
  · exact Std.TreeMap.mem_insertIfNew_self

end Ledger

/-! ### Resolving -/

namespace Archive

variable {archive archive' : Archive} {c : Content}

theorem resolve_eq_ok_iff {input : OutputRef} {e : Located} :
    archive.resolve input = .ok e ↔ e.ref = input ∧ ∃ source,
      archive[input.transaction]? = some source ∧
        source.content.outputs[input.index.toNat]? = some e.entity := by
  unfold resolve
  cases archive[input.transaction]? with
  | none => simp
  | some source =>
  cases hentity : source.content.outputs[input.index.toNat]? with
  | none => simp [hentity]
  | some entity =>
    simp only [hentity, Except.ok.injEq, Option.some.injEq, exists_eq_left']
    constructor
    · intro h
      rw [← h]
      exact ⟨rfl, rfl⟩
    · rintro ⟨href, hsame⟩
      cases e with
      | mk held ref =>
        rw [show entity = held from hsame, show ref = input from href]

theorem resolve_mono (hle : Extends archive archive') {input : OutputRef} {e : Located}
    (h : archive.resolve input = .ok e) : archive'.resolve input = .ok e := by
  obtain ⟨href, source, hsource, hentity⟩ := resolve_eq_ok_iff.mp h
  exact resolve_eq_ok_iff.mpr ⟨href, source, hle _ _ hsource, hentity⟩

theorem resolveInputs_eq_ok_iff {inputs : List Located} :
    archive.resolveInputs c = .ok inputs ↔
      List.Forall₂ (fun input e ↦ archive.resolve input = .ok e) c.inputs inputs :=
  Outcome.mapM_eq_ok_iff

theorem exists_mem_of_mem {inputs : List Located} {input : OutputRef}
    (h : archive.resolveInputs c = .ok inputs) (hmem : input ∈ c.inputs) :
    ∃ e ∈ inputs, archive.resolve input = .ok e :=
  Outcome.exists_of_mem_left (resolveInputs_eq_ok_iff.mp h) hmem

theorem resolve_of_mem {inputs : List Located} {e : Located}
    (h : archive.resolveInputs c = .ok inputs) (hmem : e ∈ inputs) :
    archive.resolve e.ref = .ok e := by
  obtain ⟨input, -, he⟩ := Outcome.exists_of_mem_right (resolveInputs_eq_ok_iff.mp h) hmem
  rwa [(resolve_eq_ok_iff.mp he).1]

theorem ref_mem_of_mem {inputs : List Located} {e : Located}
    (h : archive.resolveInputs c = .ok inputs) (hmem : e ∈ inputs) : e.ref ∈ c.inputs := by
  obtain ⟨input, hinput, he⟩ := Outcome.exists_of_mem_right (resolveInputs_eq_ok_iff.mp h) hmem
  rwa [(resolve_eq_ok_iff.mp he).1]

/-- What an input resolves to is an output of an archived transaction. -/
theorem exists_source_of_mem {inputs : List Located} {e : Located}
    (h : archive.resolveInputs c = .ok inputs) (hmem : e ∈ inputs) :
    ∃ source, archive[e.ref.transaction]? = some source ∧
      source.content.outputs[e.ref.index.toNat]? = some e.entity :=
  (resolve_eq_ok_iff.mp (resolve_of_mem h hmem)).2

/-- The sources of what can be resolved are archived. -/
theorem mem_of_mem_sources {inputs : List Located} {source : TransactionId}
    (h : archive.resolveInputs c = .ok inputs) (hsource : source ∈ c.sources) :
    source ∈ archive := by
  obtain ⟨input, hinput, rfl⟩ := List.mem_map.mp hsource
  obtain ⟨e, -, he⟩ := exists_mem_of_mem h hinput
  obtain ⟨-, held, hheld, -⟩ := resolve_eq_ok_iff.mp he
  rw [Std.TreeMap.mem_iff_isSome_getElem?, hheld]
  rfl

theorem resolveInputs_mono (hle : Extends archive archive') {inputs : List Located}
    (h : archive.resolveInputs c = .ok inputs) : archive'.resolveInputs c = .ok inputs := by
  rw [resolveInputs_eq_ok_iff] at h ⊢
  exact h.imp fun _ _ ↦ resolve_mono hle

end Archive

end Custody
