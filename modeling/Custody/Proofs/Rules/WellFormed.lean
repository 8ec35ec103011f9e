import Custody.Proofs.Outcome
import Custody.Transaction.Checks

/-!
# Well-formed content

What the checks that need no rule of re-issuance establish. A content is well formed when it has
commands with signers, names no input and no attachment twice, and its outputs point at siblings and
name its notary. Resolved inputs match a content when they stand for its inputs in order and every
encumbered one comes with its partner. Both checks pass exactly then.
-/

namespace Custody.Content

open Outcome

/-- What `checkOutput` establishes of the output at a position. -/
structure OutputWellFormed (c : Content) (output : Entity) (index : UInt32) : Prop where
  partner_lt : ∀ partner, output.encumbrance = some partner → partner < .ofNat c.outputs.length
  partner_ne : output.encumbrance ≠ some index
  notary_eq : output.notary = c.notary

/-- What `checkStructure` establishes. -/
structure WellFormed (c : Content) : Prop where
  commands_ne_nil : c.commands ≠ []
  signers_ne_nil : ∀ command ∈ c.commands, command.signers ≠ []
  inputs_nodup : c.inputs.Nodup
  attachments_nodup : c.attachments.Nodup
  output : ∀ index output, c.outputs[index]? = some output →
    c.OutputWellFormed output (.ofNat index)

/-- What `checkEncumbrances` establishes of the resolved inputs. -/
structure Matches (c : Content) (inputs : List Located) : Prop where
  refs_eq : inputs.map Located.ref = c.inputs
  partner_mem : ∀ input ∈ inputs, ∀ partner, input.entity.encumbrance = some partner →
    ⟨input.ref.transaction, partner⟩ ∈ c.inputs

variable {c : Content} {u : Unit}

theorem checkOutput_eq_ok_iff {output : Entity} {index : UInt32} :
    c.checkOutput output index = .ok u ↔ c.OutputWellFormed output index := by
  unfold checkOutput
  cases hpartner : output.encumbrance with
  | none =>
    simp only [throw_eq_error, ite_error_eq_ok_iff, pure_eq_ok_iff, and_true, ne_eq, not_not]
    constructor
    · intro hnotary
      exact ⟨by simp [hpartner], by simp [hpartner], hnotary⟩
    · exact OutputWellFormed.notary_eq
  | some partner =>
    simp only [throw_eq_error, error_bind_eq, ite_error_eq_ok_iff, pure_eq_ok_iff, and_true,
      ne_eq, not_not, not_or, UInt32.not_le]
    constructor
    · rintro ⟨⟨hlt, hne⟩, hnotary⟩
      refine ⟨?_, by simpa [hpartner] using hne, hnotary⟩
      intro other hother
      rw [hpartner, Option.some.injEq] at hother
      exact hother ▸ hlt
    · rintro ⟨hlt, hne, hnotary⟩
      exact ⟨⟨hlt partner hpartner, by simpa [hpartner] using hne⟩, hnotary⟩

theorem forM_checkOutput_eq_ok_iff :
    (c.outputs.zipIdx.forM fun (output, index) ↦ c.checkOutput output (.ofNat index)) = .ok u ↔
      ∀ index output, c.outputs[index]? = some output →
        c.OutputWellFormed output (.ofNat index) := by
  rw [forM_eq_ok_iff]
  simp only [Prod.forall, List.mem_zipIdx_iff_getElem?, checkOutput_eq_ok_iff]
  exact forall_comm

theorem checkStructure_eq_ok_iff : c.checkStructure = .ok u ↔ c.WellFormed := by
  unfold checkStructure
  simp only [throw_eq_error, error_bind_eq, ite_error_eq_ok_iff]
  -- Each search of a defect either finds one, and the content is not well formed, or finds none.
  cases hsigners : c.commands.find? (·.signers.isEmpty) with
  | some command =>
    have hmem := List.mem_of_find?_eq_some hsigners
    have hempty := List.find?_some hsigners
    simp only [reduceCtorEq, and_false, false_iff]
    intro hwell
    exact hwell.signers_ne_nil command hmem (List.isEmpty_iff.mp hempty)
  | none =>
  cases hinputs : firstRepeat? c.inputs with
  | some input =>
    simp only [reduceCtorEq, and_false, false_iff]
    intro hwell
    rw [firstRepeat?_eq_none_iff.mpr hwell.inputs_nodup] at hinputs
    cases hinputs
  | none =>
  cases hattachments : firstRepeat? c.attachments with
  | some attachment =>
    simp only [reduceCtorEq, and_false, false_iff]
    intro hwell
    rw [firstRepeat?_eq_none_iff.mpr hwell.attachments_nodup] at hattachments
    cases hattachments
  | none =>
  rw [forM_checkOutput_eq_ok_iff]
  constructor
  · rintro ⟨hcommands, houtputs⟩
    refine ⟨by simpa using hcommands, ?_, firstRepeat?_eq_none_iff.mp hinputs,
      firstRepeat?_eq_none_iff.mp hattachments, houtputs⟩
    intro command hcommand
    simpa using List.find?_eq_none.mp hsigners command hcommand
  · intro hwell
    exact ⟨by simpa using hwell.commands_ne_nil, hwell.output⟩

/-- An output alone has no sibling to point at. -/
theorem WellFormed.encumbrance_eq_none {e : Entity} (h : c.WellFormed) (honly : c.outputs = [e]) :
    e.encumbrance = none := by
  have hfirst : c.outputs[0]? = some e := by rw [honly]; rfl
  have houtput := h.output 0 e hfirst
  rw [Option.eq_none_iff_forall_ne_some]
  intro partner hpartner
  have hlt := houtput.partner_lt partner hpartner
  have hne : partner ≠ .ofNat 0 := fun hzero ↦ houtput.partner_ne (hzero ▸ hpartner)
  rw [honly, UInt32.lt_iff_toNat_lt] at hlt
  rw [ne_eq, ← UInt32.toNat_inj] at hne
  change partner.toNat < 1 at hlt
  change partner.toNat ≠ 0 at hne
  omega

theorem checkEncumbrance_eq_ok_iff {declared : OutputRef} {resolved : Located} :
    c.checkEncumbrance declared resolved = .ok u ↔
      declared = resolved.ref ∧ ∀ partner, resolved.entity.encumbrance = some partner →
        ⟨declared.transaction, partner⟩ ∈ c.inputs := by
  unfold checkEncumbrance
  cases hpartner : resolved.entity.encumbrance with
  | none => simp
  | some partner => simp

theorem checkEncumbrances_eq_ok_iff {inputs : List Located} :
    c.checkEncumbrances inputs = .ok u ↔ c.Matches inputs := by
  have hrefs : List.Forall₂ (fun declared resolved ↦ declared = resolved.ref) c.inputs inputs ↔
      inputs.map Located.ref = c.inputs := by
    rw [eq_comm, ← List.forall₂_eq_eq_eq, List.forall₂_map_right_iff]
  unfold checkEncumbrances
  simp only [throw_eq_error, error_bind_eq, ite_error_eq_ok_iff, ne_eq, not_not, forM_eq_ok_iff,
    Prod.forall, checkEncumbrance_eq_ok_iff]
  constructor
  · rintro ⟨hlength, hall⟩
    have hmap := hrefs.mp <| List.forall₂_iff_zip.mpr ⟨hlength.symm, fun h ↦ (hall _ _ h).1⟩
    refine ⟨hmap, ?_⟩
    intro input hinput partner hpartner
    rw [← List.map_snd_zip (Nat.le_of_eq hlength), List.mem_map] at hinput
    obtain ⟨⟨declared, resolved⟩, hzip, rfl⟩ := hinput
    obtain ⟨rfl, hmem⟩ := hall declared resolved hzip
    exact hmem partner hpartner
  · rintro ⟨hmap, hpartners⟩
    obtain ⟨hlength, hzip⟩ := List.forall₂_iff_zip.mp (hrefs.mpr hmap)
    refine ⟨hlength.symm, ?_⟩
    intro declared input hmem
    obtain rfl := hzip hmem
    exact ⟨rfl, hpartners input (List.of_mem_zip hmem).2⟩

end Custody.Content
