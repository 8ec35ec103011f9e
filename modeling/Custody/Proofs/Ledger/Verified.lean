import Custody.Proofs.Ledger.Lineage
import Custody.Proofs.Rules.Steps

/-!
# Verified archives

An archive is verified when it was filled from nothing with transactions that each obeyed the rules
against what the archive then had for its inputs, whatever blobs were at hand. An archive never lets
go of what it holds, so every transaction in it still obeys the rules against the whole of it, and
it holds the sources of whatever it holds.
-/

namespace Custody.Archive

variable {archive archive' : Archive} {t u : Transaction} {id : TransactionId} {r : OutputRef}

/-! ### Adding a transaction -/

theorem extends_add : Extends archive (archive.add t) := .insertIfNew

theorem getElem?_add_iff :
    (archive.add t)[id]? = some u ↔
      archive[id]? = some u ∨ t.id ∉ archive ∧ t.id = id ∧ t = u := by
  unfold add
  rw [Std.TreeMap.getElem?_insertIfNew]
  by_cases hnew : t.id ∈ archive
  · simp [hnew]
  · by_cases hid : t.id = id
    · rw [hid] at hnew
      simp [hid, hnew]
    · simp [hid]

/-! ### What an archive admits -/

variable [Cryptosystem]

/-- A transaction obeys the rules against what an archive has for its inputs, with some blobs at
hand. -/
def Admits (archive : Archive) (t : Transaction) : Prop :=
  ∃ inputs attachments, archive.resolveInputs t.content = .ok inputs ∧
    Rules.check t.content inputs attachments = .ok ()

theorem Admits.mono (hle : Extends archive archive') (h : archive.Admits t) :
    archive'.Admits t := by
  obtain ⟨inputs, attachments, hinputs, hcheck⟩ := h
  exact ⟨inputs, attachments, resolveInputs_mono hle hinputs, hcheck⟩

/-- An archive that was filled from nothing with transactions it admitted. -/
inductive Verified : Archive → Prop
  | empty : Verified ∅
  | add {archive : Archive} {t : Transaction} (h : Verified archive) (hadmits : archive.Admits t) :
      Verified (archive.add t)

namespace Verified

theorem id_eq (h : archive.Verified) (ht : archive[id]? = some t) : t.id = id := by
  induction h with
  | empty => exact nomatch Std.TreeMap.getElem?_emptyc.symm.trans ht
  | add _ _ ih =>
    rcases getElem?_add_iff.mp ht with hold | ⟨-, hid, rfl⟩
    · exact ih hold
    · exact hid

/-- Whatever a verified archive holds, it would admit again. -/
theorem admits (h : archive.Verified) (ht : archive[id]? = some t) : archive.Admits t := by
  induction h with
  | empty => exact nomatch Std.TreeMap.getElem?_emptyc.symm.trans ht
  | add _ hadmits ih =>
    rcases getElem?_add_iff.mp ht with hold | ⟨-, -, rfl⟩
    · exact (ih hold).mono extends_add
    · exact hadmits.mono extends_add

theorem closed (h : archive.Verified) : archive.Closed := by
  intro id t ht source hsource
  obtain ⟨inputs, _, hinputs, -⟩ := h.admits ht
  exact mem_of_mem_sources hinputs hsource

end Verified

end Custody.Archive
