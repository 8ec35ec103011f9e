import Custody.Proofs.Session.Message

/-!
# Messages at the limit

The sender counts the bytes of what it wrote, and the receiver those of what came in, before
anything is read. Both draw the line at the same place: what is sent is understood as the message it
was, and what is understood could be sent on as the very same bytes. So a message has one frame or
none, and a byte string is the frame of one message or of none. Which blobs can be sent together is
a matter of adding up their lengths.
-/

namespace Custody

/-! ### The length of a list -/

namespace Wire

theorem length_encodeList {α : Type} {write : α → Bytes} {xs : List α} :
    (encodeList write xs).length = 8 + (xs.map fun x ↦ (write x).length).sum := by
  unfold encodeList
  rw [List.length_append, length_encodeCount, List.length_flatMap]

theorem length_encode_bytes {blob : Bytes} : (encode blob).length = 8 + blob.length := by
  change (encodeCount blob.length ++ blob).length = _
  rw [List.length_append, length_encodeCount]

end Wire

namespace Message

variable {m : Message} {frame : Bytes} {size : Nat}

/-- The number of the variant, the count and the entries. -/
theorem length_encode_list {α : Type} {write : α → Bytes} {tag : Nat} {xs : List α} :
    (Wire.encodeVariant tag ++ Wire.encodeList write xs).length =
      12 + (xs.map fun x ↦ (write x).length).sum := by
  rw [List.length_append, Wire.length_encodeVariant, Wire.length_encodeList]
  omega

theorem length_encode_attachments {blobs : List Bytes} :
    (encode (attachments blobs)).length = 12 + (blobs.map fun blob ↦ 8 + blob.length).sum := by
  rw [show encode (attachments blobs) = Wire.encodeVariant 2 ++ Wire.encodeList encode blobs from
    rfl, length_encode_list]
  simp only [Wire.length_encode_bytes]

/-! ### Where the line is drawn -/

theorem toFrame_eq_ok_iff :
    m.toFrame = .ok frame ↔ encode m = frame ∧ (encode m).length ≤ maxSize := by
  unfold toFrame
  rw [Outcome.ite_else_error_eq_ok_iff, Except.ok.injEq, and_comm]

theorem exists_toFrame_iff : (∃ frame, m.toFrame = .ok frame) ↔ (encode m).length ≤ maxSize :=
  ⟨fun ⟨_, h⟩ ↦ length_encode_le_of_toFrame h, fun h ↦ ⟨_, toFrame_of_length_le h⟩⟩

/-- Nothing but its length keeps a message from being sent. -/
theorem toFrame_eq_error_iff {e : MessageError} :
    m.toFrame = .error e ↔ maxSize < (encode m).length ∧ e = .tooLarge maxSize := by
  simp only [toFrame]
  split
  · rename_i hsize
    exact ⟨nofun, fun h ↦ absurd hsize (Nat.not_le.mpr h.1)⟩
  · rename_i hsize
    rw [Except.error.injEq, and_iff_right (Nat.not_le.mp hsize), eq_comm]

/-- What is too long is not read, and what is read is not called too long. -/
theorem ofFrame_eq_tooLarge_iff :
    ofFrame frame = .error (.tooLarge size) ↔ maxSize < frame.length ∧ size = frame.length := by
  unfold ofFrame
  split
  · rename_i hsize
    rw [Except.error.injEq, MessageError.tooLarge.injEq, and_iff_right hsize, eq_comm]
  · rename_i hsize
    refine ⟨fun h ↦ ?_, fun h ↦ absurd h.1 hsize⟩
    cases hdecode : decode Message frame with
    | ok m =>
      rw [hdecode] at h
      cases h
    | error e =>
      rw [hdecode] at h
      cases h

/-- A message is framed if its wire form has 16 MiB at most, and is then understood as it was; a
longer byte string is turned down for its length, and whatever is understood is the one frame of its
message. -/
theorem framing (m : Message) (frame : Bytes) :
    ((∃ sent, m.toFrame = .ok sent) ↔ (encode m).length ≤ 16 * 2 ^ 20) ∧
      (m.toFrame = .ok frame ↔ encode m = frame ∧ (encode m).length ≤ 16 * 2 ^ 20) ∧
      (∀ e, m.toFrame = .error e ↔
        16 * 2 ^ 20 < (encode m).length ∧ e = .tooLarge (16 * 2 ^ 20)) ∧
      (ofFrame frame = .ok m ↔ m.toFrame = .ok frame) ∧
      (∀ size, ofFrame frame = .error (.tooLarge size) ↔
        16 * 2 ^ 20 < frame.length ∧ size = frame.length) ∧
      ∀ frame', ofFrame frame = .ok m ∧ ofFrame frame' = .ok m ↔
        ofFrame frame = .ok m ∧ frame' = frame := by
  refine ⟨exists_toFrame_iff, toFrame_eq_ok_iff, fun _ ↦ toFrame_eq_error_iff, ofFrame_eq_ok_iff,
    fun _ ↦ ofFrame_eq_tooLarge_iff, ?_⟩
  intro frame'
  constructor
  · rintro ⟨h, h'⟩
    have hsame := (ofFrame_eq_ok_iff.mp h').symm.trans (ofFrame_eq_ok_iff.mp h)
    exact ⟨h, Except.ok.inj hsame⟩
  · rintro ⟨h, rfl⟩
    exact ⟨h, h⟩

/-! ### How much goes into a message -/

/-- Blobs can be sent together up to the limit, at the cost of eight bytes each and twelve more. -/
theorem exists_toFrame_attachments_iff {blobs : List Bytes} :
    (∃ frame, (attachments blobs).toFrame = .ok frame) ↔
      12 + (blobs.map fun blob ↦ 8 + blob.length).sum ≤ maxSize := by
  rw [exists_toFrame_iff, length_encode_attachments]

/-- The longest blob that can be sent, and one that is longer by a byte. -/
example : (∃ frame, (attachments [.replicate (2 ^ 24 - 20) 0]).toFrame = .ok frame) ∧
    ¬ ∃ frame, (attachments [.replicate (2 ^ 24 - 19) 0]).toFrame = .ok frame := by
  simp only [exists_toFrame_attachments_iff, maxSize, List.map_singleton, List.sum_singleton,
    List.length_replicate]
  decide

end Message

end Custody
