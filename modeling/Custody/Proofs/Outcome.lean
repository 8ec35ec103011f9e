import Mathlib.Data.List.Forall2

/-!
# Outcomes of checks

A check passes or stops at the first defect. A check that is put together from others passes exactly
when all its parts do, and what it returns then comes from theirs. A part that throws under a
condition passes exactly when the condition fails.
-/

namespace Custody.Outcome

variable {ε ε' α β : Type}

@[simp]
theorem bind_eq_ok_iff {check : Except ε α} {next : α → Except ε β} {b : β} :
    check >>= next = .ok b ↔ ∃ a, check = .ok a ∧ next a = .ok b := by
  cases check with
  | error e => simp [bind, Except.bind]
  | ok a => simp [bind, Except.bind]

theorem bind_eq_error_iff {check : Except ε α} {next : α → Except ε β} {e : ε} :
    check >>= next = .error e ↔ check = .error e ∨ ∃ a, check = .ok a ∧ next a = .error e := by
  cases check with
  | error e => simp [bind, Except.bind]
  | ok a => simp [bind, Except.bind]

@[simp]
theorem pure_eq_ok_iff {a b : α} : (pure a : Except ε α) = .ok b ↔ a = b := by
  rw [pure, Except.instMonad]
  exact Except.ok.injEq a b ▸ Iff.rfl

@[simp]
theorem throw_eq_error {e : ε} : (throw e : Except ε α) = .error e := rfl

/-- Nothing comes after a refusal. -/
@[simp]
theorem error_bind_eq {e : ε} {next : α → Except ε β} :
    (.error e : Except ε α) >>= next = .error e := rfl

@[simp]
theorem discard_eq_ok_iff {check : Except ε α} {u : PUnit} :
    discard check = .ok u ↔ ∃ a, check = .ok a := by
  cases check with
  | error e => simp [discard, Functor.discard, Functor.mapConst, Except.map]
  | ok a => simp [discard, Functor.discard, Functor.mapConst, Except.map]

/-- A refusal under a condition lets the rest pass when the condition fails. -/
@[simp]
theorem ite_error_eq_ok_iff {p : Prop} [Decidable p] {e : ε} {rest : Except ε α} {a : α} :
    (if p then .error e else rest) = .ok a ↔ ¬p ∧ rest = .ok a := by
  split
  · rename_i hp
    simp [hp]
  · rename_i hp
    simp [hp]

@[simp]
theorem ite_else_error_eq_ok_iff {p : Prop} [Decidable p] {e : ε} {rest : Except ε α} {a : α} :
    (if p then rest else .error e) = .ok a ↔ p ∧ rest = .ok a := by
  split
  · rename_i hp
    simp [hp]
  · rename_i hp
    simp [hp]

@[simp]
theorem mapError_eq_ok_iff {check : Except ε α} {f : ε → ε'} {a : α} :
    check.mapError f = .ok a ↔ check = .ok a := by
  cases check with
  | error e => simp [Except.mapError]
  | ok b => simp [Except.mapError]

/-- A check of every entry of a list passes when each entry does. -/
theorem forM_eq_ok_iff {xs : List α} {check : α → Except ε Unit} {u : Unit} :
    xs.forM check = .ok u ↔ ∀ x ∈ xs, check x = .ok () := by
  induction xs with
  | nil => simp [List.forM]
  | cons x xs ih =>
    change (check x >>= fun _ ↦ xs.forM check) = _ ↔ _
    rw [bind_eq_ok_iff, ih, List.forall_mem_cons]
    exact ⟨fun ⟨(), hx, hxs⟩ ↦ ⟨hx, hxs⟩, fun ⟨hx, hxs⟩ ↦ ⟨(), hx, hxs⟩⟩

/-- Entries are turned into results one by one. -/
theorem mapM_eq_ok_iff {xs : List α} {f : α → Except ε β} {ys : List β} :
    xs.mapM f = .ok ys ↔ List.Forall₂ (fun x y ↦ f x = .ok y) xs ys := by
  induction xs generalizing ys with
  | nil =>
    rw [List.mapM_nil, pure_eq_ok_iff, List.forall₂_nil_left_iff]
    exact eq_comm
  | cons x xs ih =>
    rw [List.mapM_cons, bind_eq_ok_iff, List.forall₂_cons_left_iff]
    apply exists_congr
    intro y
    rw [bind_eq_ok_iff]
    constructor
    · rintro ⟨hy, rest, hrest, heq⟩
      exact ⟨rest, hy, ih.mp hrest, (pure_eq_ok_iff.mp heq).symm⟩
    · rintro ⟨rest, hy, hrest, rfl⟩
      exact ⟨hy, rest, ih.mpr hrest, pure_eq_ok_iff.mpr rfl⟩

/-- What cannot be turned into results fails at some entry. -/
theorem exists_of_mapM_eq_error {xs : List α} {f : α → Except ε β} {e : ε}
    (h : xs.mapM f = .error e) : ∃ x ∈ xs, f x = .error e := by
  induction xs with
  | nil => cases h
  | cons x xs ih =>
    rw [List.mapM_cons, bind_eq_error_iff] at h
    rcases h with hx | ⟨y, -, h⟩
    · exact ⟨x, List.mem_cons_self, hx⟩
    · rcases bind_eq_error_iff.mp h with hxs | ⟨ys, -, h⟩
      · obtain ⟨x', hmem, hx'⟩ := ih hxs
        exact ⟨x', List.mem_cons_of_mem x hmem, hx'⟩
      · cases h

/-! ### Runs of steps that fail on account of their entry -/

section Steps

variable {fails : α → ε → Prop} {step : β → α → Except ε β} {xs : List α} {b : β} {e : ε}

/-- Such a run fails on the first entry that does, whatever came before. -/
theorem exists_of_foldlM_eq_error (hstep : ∀ b x e, step b x = .error e ↔ fails x e)
    (h : xs.foldlM step b = .error e) :
    ∃ before x after, xs = before ++ x :: after ∧ fails x e ∧ ∀ y ∈ before, ∀ e', ¬ fails y e' := by
  induction xs generalizing b with
  | nil => cases h
  | cons x xs ih =>
    rw [List.foldlM_cons, bind_eq_error_iff] at h
    rcases h with hx | ⟨b', hx, h⟩
    · exact ⟨[], x, xs, rfl, (hstep b x e).mp hx, fun _ hy ↦ absurd hy List.not_mem_nil⟩
    · obtain ⟨before, y, after, rfl, hy, hbefore⟩ := ih h
      refine ⟨x :: before, y, after, rfl, hy,
        List.forall_mem_cons.mpr ⟨fun e' hfails ↦ ?_, hbefore⟩⟩
      rw [(hstep b x e').mpr hfails] at hx
      cases hx

/-- It fails if some entry does. -/
theorem exists_foldlM_eq_error (hstep : ∀ b x e, step b x = .error e ↔ fails x e) {x : α}
    (hx : x ∈ xs) (hfails : fails x e) : ∃ e', xs.foldlM step b = .error e' := by
  induction xs generalizing b with
  | nil => exact absurd hx List.not_mem_nil
  | cons first xs ih =>
    rw [List.foldlM_cons]
    cases hfirst : step b first with
    | error e' => exact ⟨e', rfl⟩
    | ok b' =>
      rcases List.mem_cons.mp hx with rfl | hx
      · rw [(hstep b x e).mpr hfails] at hfirst
        cases hfirst
      · exact ih hx

end Steps

/-! ### Entries that correspond -/

section Correspond

variable {γ δ : Type} {related : γ → δ → Prop} {xs : List γ} {ys : List δ}

theorem exists_of_mem_left (h : List.Forall₂ related xs ys) {x : γ} (hx : x ∈ xs) :
    ∃ y ∈ ys, related x y := by
  obtain ⟨hlength, hzip⟩ := List.forall₂_iff_zip.mp h
  rw [← List.map_fst_zip (Nat.le_of_eq hlength), List.mem_map] at hx
  obtain ⟨⟨x, y⟩, hpair, rfl⟩ := hx
  exact ⟨y, (List.of_mem_zip hpair).2, hzip hpair⟩

theorem exists_of_mem_right (h : List.Forall₂ related xs ys) {y : δ} (hy : y ∈ ys) :
    ∃ x ∈ xs, related x y := exists_of_mem_left h.flip hy

/-- Corresponding entries correspond in another way, if they do so for each entry of the list. -/
theorem forall₂_of_mem {related' : γ → δ → Prop} (h : List.Forall₂ related xs ys)
    (himp : ∀ x ∈ xs, ∀ y, related x y → related' x y) : List.Forall₂ related' xs ys := by
  rw [List.forall₂_iff_zip] at h ⊢
  exact ⟨h.1, fun hpair ↦ himp _ (List.of_mem_zip hpair).1 _ (h.2 hpair)⟩

theorem exists_of_getElem?_right (h : List.Forall₂ related xs ys) {index : Nat} {y : δ}
    (hy : ys[index]? = some y) : ∃ x, xs[index]? = some x ∧ related x y := by
  obtain ⟨hindex, rfl⟩ := List.getElem?_eq_some_iff.mp hy
  have hlt : index < xs.length := h.length_eq ▸ hindex
  exact ⟨xs[index], List.getElem?_eq_getElem hlt, h.get hlt hindex⟩

end Correspond

/-! ### What comes out -/

variable {post : β → Prop}

/-- Whatever comes out, if anything does, is as said. -/
def Ends (outcome : Except ε β) (post : β → Prop) : Prop := ∀ b, outcome = .ok b → post b

theorem ends_error {e : ε} : Ends (.error e) post := fun _ h ↦ nomatch h

theorem ends_pure {b : β} (h : post b) : Ends (pure b : Except ε β) post := by
  intro b' hb
  rwa [← pure_eq_ok_iff.mp hb]

theorem ends_bind {check : Except ε α} {next : α → Except ε β}
    (h : ∀ a, check = .ok a → Ends (next a) post) : Ends (check >>= next) post := by
  intro b hb
  obtain ⟨a, ha, hb⟩ := bind_eq_ok_iff.mp hb
  exact h a ha b hb

/-- What is checked under a condition does not matter to what comes out after it. -/
theorem ends_when {p : Prop} [Decidable p] {check : Except ε Unit} {next : Unit → Except ε β}
    (h : ∀ u, Ends (next u) post) : Ends (if p then check >>= next else next ()) post := by
  split
  · exact ends_bind fun u _ ↦ h u
  · exact h ()

/-- What comes after a refusal under a condition may rely on the condition's failing. -/
theorem ends_unless {p : Prop} [Decidable p] {check : Except ε Unit} {next : Unit → Except ε β}
    (hcheck : check ≠ .ok ()) (h : ¬p → Ends (next ()) post) :
    Ends (if p then check >>= next else next ()) post := by
  split
  · exact ends_bind fun _ hu ↦ absurd hu hcheck
  · exact h ‹_›

end Custody.Outcome
