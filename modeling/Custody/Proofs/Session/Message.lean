import Custody.Proofs.Entity.Wire
import Custody.Session.Message
import Mathlib.Tactic.IntervalCases

/-!
# Reading back messages

The parts of a message have lawful wire forms, and so has the message. A frame is understood as the
message it was made of, and as no other.
-/

namespace Custody

/-! ### Transactions -/

namespace LawfulWire

instance : LawfulWire CommandKind where
  Fits
    | .asset name => Fits name
    | _ => True
  read_eq_ok_iff {bytes rest kind} := by
    change (Reader.variant 7 >>= fun tag ↦ _) bytes = _ ↔ _
    simp only [Reader.bind_eq_ok_iff, Reader.variant_eq_ok_iff (show 7 ≤ 2 ^ 32 by decide)]
    constructor
    · rintro ⟨tag, behind, ⟨htag, hbytes⟩, h⟩
      rw [hbytes]
      obtain rfl | hpos := Nat.eq_zero_or_pos tag
      · obtain ⟨name, hfits, rfl, rfl⟩ := read_return_eq_ok_iff.mp h
        exact ⟨hfits, (List.append_assoc _ _ _).symm⟩
      · interval_cases tag <;>
        · obtain ⟨rfl, rfl⟩ := Reader.pure_eq_ok_iff.mp h
          exact ⟨trivial, rfl⟩
    · rintro ⟨hfits, hbytes⟩
      rw [hbytes]
      cases kind with
      | asset name =>
        exact ⟨0, _, ⟨by decide, List.append_assoc _ _ _⟩,
          read_return_eq_ok_iff.mpr ⟨name, hfits, rfl, rfl⟩⟩
      | createRequest => exact ⟨1, rest, ⟨by decide, rfl⟩, rfl⟩
      | acceptRequest => exact ⟨2, rest, ⟨by decide, rfl⟩, rfl⟩
      | rejectRequest => exact ⟨3, rest, ⟨by decide, rfl⟩, rfl⟩
      | createLock => exact ⟨4, rest, ⟨by decide, rfl⟩, rfl⟩
      | deactivateLock => exact ⟨5, rest, ⟨by decide, rfl⟩, rfl⟩
      | deleteLock => exact ⟨6, rest, ⟨by decide, rfl⟩, rfl⟩
  fits_of_length_lt {kind} h := by
    cases kind with
    | asset name => exact fits_of_length_variant_lt h
    | _ => exact trivial
  length_pos kind := by
    cases kind with
    | asset name => exact Wire.length_variant_pos
    | _ => exact Nat.succ_pos _

instance : LawfulWire Command :=
  ofFields (fun c ↦ (c.kind, c.signers)) (fun (k, ss) ↦ ⟨k, ss⟩) (fun _ ↦ rfl) (fun _ ↦ rfl)
    (by rw [Wire.bind_read_prod]; rfl) (fun _ ↦ rfl)

instance : LawfulWire Content :=
  ofFields (fun c ↦ (c.inputs, c.outputs, c.commands, c.notary, c.attachments, c.salt))
    (fun (is, os, cs, n, as, s) ↦ ⟨is, os, cs, n, as, s⟩) (fun _ ↦ rfl) (fun _ ↦ rfl)
    (by simp only [Wire.bind_read_prod]; rfl)
    (fun _ ↦ by simp only [Wire.encode_prod, ← List.append_assoc]; rfl)

instance : LawfulWire Endorsement :=
  ofFields (fun e ↦ (e.signer, e.signature)) (fun (k, s) ↦ ⟨k, s⟩) (fun _ ↦ rfl) (fun _ ↦ rfl)
    (by rw [Wire.bind_read_prod]; rfl) (fun _ ↦ rfl)

instance : LawfulWire Transaction :=
  ofFields (fun t ↦ (t.id, t.content, t.endorsements)) (fun (i, c, es) ↦ ⟨i, c, es⟩)
    (fun _ ↦ rfl) (fun _ ↦ rfl) (by simp only [Wire.bind_read_prod]; rfl)
    (fun _ ↦ by simp only [Wire.encode_prod, ← List.append_assoc]; rfl)

/-! ### Messages -/

instance : LawfulWire Message where
  Fits
    | .role _ | .ack => True
    | .history ts => Fits ts
    | .attachments blobs => Fits blobs
    | .signRequest t | .finalised t => Fits t
    | .signatures es => Fits es
    | .rejected reason => Fits reason
  read_eq_ok_iff {bytes rest m} := by
    change (Reader.variant 8 >>= fun tag ↦ _) bytes = _ ↔ _
    simp only [Reader.bind_eq_ok_iff, Reader.variant_eq_ok_iff (show 8 ≤ 2 ^ 32 by decide)]
    constructor
    · rintro ⟨tag, behind, ⟨htag, hbytes⟩, h⟩
      rw [hbytes]
      obtain rfl | hne := eq_or_ne tag 6
      · obtain ⟨rfl, rfl⟩ := Reader.pure_eq_ok_iff.mp h
        exact ⟨trivial, rfl⟩
      · interval_cases tag <;> first
        | exact absurd rfl hne
        | obtain ⟨a, hfits, rfl, rfl⟩ := read_return_eq_ok_iff.mp h
          exact ⟨hfits, (List.append_assoc _ _ _).symm⟩
    · rintro ⟨hfits, hbytes⟩
      rw [hbytes]
      cases m with
      | role signer =>
        exact ⟨0, _, ⟨by decide, List.append_assoc _ _ _⟩,
          read_return_eq_ok_iff.mpr ⟨signer, hfits, rfl, rfl⟩⟩
      | history ts =>
        exact ⟨1, _, ⟨by decide, List.append_assoc _ _ _⟩,
          read_return_eq_ok_iff.mpr ⟨ts, hfits, rfl, rfl⟩⟩
      | attachments blobs =>
        exact ⟨2, _, ⟨by decide, List.append_assoc _ _ _⟩,
          read_return_eq_ok_iff.mpr ⟨blobs, hfits, rfl, rfl⟩⟩
      | signRequest t =>
        exact ⟨3, _, ⟨by decide, List.append_assoc _ _ _⟩,
          read_return_eq_ok_iff.mpr ⟨t, hfits, rfl, rfl⟩⟩
      | signatures es =>
        exact ⟨4, _, ⟨by decide, List.append_assoc _ _ _⟩,
          read_return_eq_ok_iff.mpr ⟨es, hfits, rfl, rfl⟩⟩
      | finalised t =>
        exact ⟨5, _, ⟨by decide, List.append_assoc _ _ _⟩,
          read_return_eq_ok_iff.mpr ⟨t, hfits, rfl, rfl⟩⟩
      | ack => exact ⟨6, rest, ⟨by decide, rfl⟩, rfl⟩
      | rejected reason =>
        exact ⟨7, _, ⟨by decide, List.append_assoc _ _ _⟩,
          read_return_eq_ok_iff.mpr ⟨reason, hfits, rfl, rfl⟩⟩
  fits_of_length_lt {m} h := by
    cases m with
    | role _ => exact trivial
    | ack => exact trivial
    | _ => exact fits_of_length_variant_lt h
  length_pos m := by
    cases m with
    | ack => exact Nat.succ_pos _
    | _ => exact Wire.length_variant_pos

end LawfulWire

/-- Every output takes a byte at least. -/
theorem Transaction.length_outputs_lt (t : Transaction) :
    t.content.outputs.length < (encode t).length := by
  have houtputs : t.content.outputs.length < (encode t.content.outputs).length :=
    Wire.length_lt_encodeList LawfulWire.length_pos
  have hcontent : (encode t.content.outputs).length ≤ (encode t.content).length := by
    change _ ≤ (encode t.content.inputs ++ encode t.content.outputs ++ encode t.content.commands ++
      encode t.content.notary ++ encode t.content.attachments ++ encode t.content.salt).length
    simp only [List.length_append]
    omega
  have htransaction : (encode t.content).length ≤ (encode t).length := by
    change _ ≤ (encode t.id ++ encode t.content ++ encode t.endorsements).length
    simp only [List.length_append]
    omega
  omega

namespace Message

variable {m : Message} {frame : Bytes}

/-- The transactions that a message hands over to be recorded. -/
def transactions : Message → List Transaction
  | history ts => ts
  | finalised t => [t]
  | _ => []

theorem toFrame_of_length_le (h : (encode m).length ≤ maxSize) : m.toFrame = .ok (encode m) := by
  unfold toFrame
  exact if_pos h

/-- A frame stands for the message it was made of. -/
theorem ofFrame_eq_ok_iff : ofFrame frame = .ok m ↔ m.toFrame = .ok frame := by
  unfold ofFrame toFrame
  simp only [Outcome.ite_error_eq_ok_iff, Outcome.mapError_eq_ok_iff, not_lt,
    Outcome.ite_else_error_eq_ok_iff, Except.ok.injEq, LawfulWire.decode_eq_ok_iff]
  constructor
  · rintro ⟨hsize, _, hframe⟩
    rw [← hframe]
    exact ⟨hsize, rfl⟩
  · rintro ⟨hsize, hframe⟩
    rw [← hframe]
    have hmax : maxSize < 2 ^ 64 := by decide
    exact ⟨hsize, LawfulWire.fits_of_length_lt (by omega), rfl⟩

theorem length_encode_le_of_toFrame (h : m.toFrame = .ok frame) :
    (encode m).length ≤ maxSize := by
  unfold toFrame at h
  exact (Outcome.ite_else_error_eq_ok_iff.mp h).1

/-- What travels in a frame has fewer outputs than a frame may have bytes. -/
theorem length_outputs_lt_maxSize (h : m.toFrame = .ok frame) {t : Transaction}
    (ht : t ∈ m.transactions) : t.content.outputs.length < maxSize := by
  have hframe := length_encode_le_of_toFrame h
  have houtputs := t.length_outputs_lt
  suffices hpart : (encode t).length ≤ (encode m).length by omega
  cases m with
  | history ts =>
    have hlist : (encode t).length ≤ (encode ts).length := Wire.length_le_encodeList_of_mem ht
    change _ ≤ (Wire.encodeVariant 1 ++ encode ts).length
    rw [List.length_append]
    omega
  | finalised u =>
    rw [List.mem_singleton.mp ht]
    change _ ≤ (Wire.encodeVariant 5 ++ encode u).length
    rw [List.length_append]
    omega
  | _ => exact absurd ht List.not_mem_nil

end Message

end Custody
