import Std.Data.TreeMap.Lemmas
import Std.Data.TreeSet.Lemmas

/-!
# Maps that fill up

The stores are maps that are filled and never emptied. One map extends another when it holds
whatever the other does; and entering one value under many keys is read off key by key.
-/

namespace Custody

/-- Whatever the first map holds, the second holds under the same key. -/
def Extends {κ β : Type} [Ord κ] (m m' : Std.TreeMap κ β) : Prop :=
  ∀ (k : κ) (b : β), m[k]? = some b → m'[k]? = some b

namespace Extends

variable {κ β : Type} [Ord κ] {m m' m'' : Std.TreeMap κ β}

theorem refl : Extends m m := fun _ _ h ↦ h

theorem trans (h : Extends m m') (h' : Extends m' m'') : Extends m m'' :=
  fun k b hk ↦ h' k b (h k b hk)

theorem mem [Std.TransOrd κ] {k : κ} (h : Extends m m') (hk : k ∈ m) : k ∈ m' := by
  rw [Std.TreeMap.mem_iff_isSome_getElem?] at hk ⊢
  obtain ⟨b, hb⟩ := Option.isSome_iff_exists.mp hk
  rw [h k b hb]
  rfl

theorem of_erase [Std.TransOrd κ] {k : κ} (h : Extends m m') : Extends (m.erase k) m' := by
  intro k' b hk
  rw [Std.TreeMap.getElem?_erase] at hk
  split at hk
  · cases hk
  · exact h k' b hk

theorem insertIfNew [Std.TransOrd κ] [Std.LawfulEqOrd κ] {k : κ} {b : β} :
    Extends m (m.insertIfNew k b) := by
  intro k' b' h
  rw [Std.TreeMap.getElem?_insertIfNew, if_neg]
  · exact h
  · rintro ⟨heq, hnew⟩
    rw [Std.LawfulEqOrd.eq_of_compare heq] at hnew
    rw [Std.TreeMap.mem_iff_isSome_getElem?, h] at hnew
    exact hnew rfl

end Extends

/-- A set lists nothing twice. -/
theorem nodup_toList {κ : Type} [Ord κ] [Std.TransOrd κ] [Std.LawfulEqOrd κ]
    {keys : Std.TreeSet κ} : keys.toList.Nodup :=
  Std.TreeSet.distinct_toList.imp fun hne heq ↦ hne (Std.LawfulEqCmp.compare_eq_iff_eq.mpr heq)

/-! ### Entering one value under many keys -/

theorem getElem?_insertAll {κ β : Type} [Ord κ] [Std.TransOrd κ] [Std.LawfulEqOrd κ]
    [DecidableEq κ] {keys : List κ} {b : β} {m : Std.TreeMap κ β} {k : κ} :
    (keys.foldl (fun m key ↦ m.insert key b) m)[k]? = if k ∈ keys then some b else m[k]? := by
  induction keys generalizing m with
  | nil => rfl
  | cons key keys ih =>
    rw [List.foldl_cons, ih]
    by_cases hkeys : k ∈ keys
    · rw [if_pos hkeys, if_pos (List.mem_cons_of_mem key hkeys)]
    · rw [if_neg hkeys, Std.TreeMap.getElem?_insert]
      by_cases hkey : k = key
      · simp [hkey]
      · simp [hkey, hkeys, Ne.symm hkey]

end Custody
