import Mathlib.Algebra.Group.Nat.Defs
import Mathlib.Data.List.Nodup
import Custody.Transaction

/-!
# Outputs and their references

An output is found under the id of its transaction and its position there. As long as positions can
be counted in 32 bits, no two outputs share a reference and a reference leads back to its output.
-/

namespace Custody

theorem Located.eq_of_eq {a b : Located} (hentity : a.entity = b.entity) (href : a.ref = b.ref) :
    a = b := by
  cases a
  cases b
  rw [mk.injEq]
  exact ⟨hentity, href⟩

namespace Transaction

variable {t : Transaction} {e : Located}

theorem mem_located_iff :
    e ∈ t.located ↔ ∃ index, t.content.outputs[index]? = some e.entity ∧
      e.ref = t.outputRef (.ofNat index) := by
  unfold located
  rw [List.mem_map]
  constructor
  · rintro ⟨⟨entity, index⟩, hmem, rfl⟩
    exact ⟨index, List.mem_zipIdx_iff_getElem?.mp hmem, rfl⟩
  · rintro ⟨index, hentity, href⟩
    obtain ⟨entity, ref⟩ := e
    refine ⟨(entity, index), List.mem_zipIdx_iff_getElem?.mpr hentity, ?_⟩
    exact congrArg (Located.mk entity) href.symm

theorem transaction_eq_of_mem_located (h : e ∈ t.located) : e.ref.transaction = t.id := by
  obtain ⟨_, -, rfl⟩ := List.mem_map.mp h
  rfl

/-- An input that resolves to an output is that output. -/
theorem mem_located_of_getElem? (htransaction : e.ref.transaction = t.id)
    (hentity : t.content.outputs[e.ref.index.toNat]? = some e.entity) : e ∈ t.located := by
  refine mem_located_iff.mpr ⟨e.ref.index.toNat, hentity, ?_⟩
  rw [UInt32.ofNat_toNat, outputRef, ← htransaction]

theorem length_located : t.located.length = t.content.outputs.length := by
  rw [located, List.length_map, List.length_zipIdx]

/-- The reference of an output leads back to it. -/
theorem getElem?_of_mem_located (hsize : t.content.outputs.length ≤ 2 ^ 32) (h : e ∈ t.located) :
    t.content.outputs[e.ref.index.toNat]? = some e.entity := by
  obtain ⟨index, hentity, href⟩ := mem_located_iff.mp h
  have hlt : index < t.content.outputs.length := (List.getElem?_eq_some_iff.mp hentity).1
  rwa [href, outputRef, UInt32.toNat_ofNat_of_lt' (Nat.lt_of_lt_of_le hlt hsize)]

/-- Positions that can be counted in 32 bits give different references. -/
theorem nodup_refs_located (hsize : t.content.outputs.length ≤ 2 ^ 32) :
    (t.located.map Located.ref).Nodup := by
  have hrefs : t.located.map Located.ref =
      (List.range' 0 t.content.outputs.length).map fun index ↦ t.outputRef (.ofNat index) := by
    rw [located, ← List.zipIdx_map_snd, List.map_map, List.map_map]
    rfl
  rw [hrefs]
  apply List.Nodup.map_on
  · intro index hindex other hother hsame
    rw [List.mem_range'_1, Nat.zero_add] at hindex hother
    have hnat := congrArg UInt32.toNat (OutputRef.mk.inj hsame).2
    rwa [UInt32.toNat_ofNat_of_lt' (Nat.lt_of_lt_of_le hindex.2 hsize),
      UInt32.toNat_ofNat_of_lt' (Nat.lt_of_lt_of_le hother.2 hsize)] at hnat
  · exact List.nodup_range'

end Transaction

end Custody
