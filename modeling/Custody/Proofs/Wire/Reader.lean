import Custody.Proofs.Bytes
import Custody.Proofs.Outcome
import Custody.Wire

/-!
# What readers take

For each reader, the inputs it takes a given value from: the bytes of the value, with anything
behind them. Every such statement holds in both directions, so nothing else spells the value. A
reader made of two, one after the other, takes what the first takes and then what the second takes.
-/

namespace Custody

theorem Utf8.decode?_eq_some_iff {bytes : Bytes} {s : String} :
    decode? bytes = some s ↔ bytes = encode s := by
  unfold decode? encode String.fromUTF8?
  constructor
  · intro h
    split at h
    · rw [← Option.some.inj h]
      exact List.toList_data_toByteArray.symm
    · cases h
  · intro h
    have hbytes : bytes.toByteArray = s.toByteArray := by
      apply ByteArray.ext
      rw [h, List.data_toByteArray, Array.toArray_toList]
    rw [hbytes, dif_pos s.isValidUTF8]
    rfl

theorem Utf8.length_encode {s : String} : (encode s).length = s.utf8ByteSize := rfl

namespace Reader

variable {α β : Type} {bytes rest : Bytes}

/-! ### One after the other -/

theorem bind_eq_ok_iff {reader : Reader α} {next : α → Reader β} {b : β} :
    (reader >>= next) bytes = .ok (b, rest) ↔
      ∃ a behind, reader bytes = .ok (a, behind) ∧ next a behind = .ok (b, rest) := by
  change reader bytes >>= (fun (a, behind) ↦ next a behind) = _ ↔ _
  rw [Outcome.bind_eq_ok_iff, Prod.exists]

theorem pure_eq_ok_iff {a b : α} :
    (pure a : Reader α) bytes = .ok (b, rest) ↔ a = b ∧ bytes = rest := by
  change (pure (a, bytes) : Except DecodeError _) = _ ↔ _
  rw [Outcome.pure_eq_ok_iff, Prod.mk.injEq]

theorem throw_eq_error {e : DecodeError} : (throw e : Reader α) bytes = .error e := rfl

/-- A value is decoded when nothing is left behind it. -/
theorem decode_eq_ok_iff {item : Reader α} {a : α} :
    decode item bytes = .ok a ↔ item bytes = .ok (a, []) := by
  unfold decode
  cases item bytes with
  | error e => simp
  | ok taken =>
    obtain ⟨value, rest⟩ := taken
    cases rest with
    | nil => simp
    | cons b rest => simp

/-! ### Bytes and numbers -/

theorem take_eq_ok_iff {short : DecodeError} {n : Nat} {front : Bytes} :
    take short n bytes = .ok (front, rest) ↔ front.length = n ∧ bytes = front ++ rest := by
  unfold take
  simp only [Outcome.ite_else_error_eq_ok_iff, Except.ok.injEq, Prod.mk.injEq]
  constructor
  · rintro ⟨hlength, hfront, hrest⟩
    rw [← hfront, ← hrest, List.take_append_drop]
    exact ⟨hlength, rfl⟩
  · rintro ⟨hlength, hbytes⟩
    rw [hbytes, List.take_left' hlength, List.drop_left' hlength]
    exact ⟨hlength, rfl, rfl⟩

theorem block_eq_ok_iff {n : Nat} {b : Block n} :
    block n bytes = .ok (b, rest) ↔ bytes = b.toList ++ rest := by
  unfold block
  constructor
  · intro h
    split at h
    · rename_i held hheld
      obtain ⟨rfl, rfl⟩ := Prod.mk.inj (Except.ok.inj h)
      rw [← Block.eq_of_ofList? hheld, List.take_append_drop]
    · cases h
  · intro hbytes
    rw [hbytes, List.take_left' b.length_toList, List.drop_left' b.length_toList]
    rw [Block.ofList?_toList]

theorem byte_eq_ok_iff {b : UInt8} : byte bytes = .ok (b, rest) ↔ bytes = b :: rest := by
  cases bytes with
  | nil => simp [byte]
  | cons first bytes => simp [byte]

theorem natLE_eq_ok_iff {n x : Nat} :
    natLE n bytes = .ok (x, rest) ↔ x < 256 ^ n ∧ bytes = Bytes.ofNatLE n x ++ rest := by
  unfold natLE
  simp only [bind_eq_ok_iff, pure_eq_ok_iff, take_eq_ok_iff]
  constructor
  · rintro ⟨front, behind, ⟨hlength, hbytes⟩, hvalue, hrest⟩
    have hlt := Bytes.toNatLE_lt front
    have hfront := Bytes.ofNatLE_toNatLE front
    rw [hlength, hvalue] at hlt hfront
    rw [hfront, ← hrest]
    exact ⟨hlt, hbytes⟩
  · rintro ⟨hlt, hbytes⟩
    refine ⟨Bytes.ofNatLE n x, rest, ⟨Bytes.length_ofNatLE n x, hbytes⟩, ?_, rfl⟩
    rw [Bytes.toNatLE_ofNatLE, Nat.mod_eq_of_lt hlt]

theorem uint32_eq_ok_iff {x : UInt32} :
    uint32 bytes = .ok (x, rest) ↔ bytes = Bytes.ofNatLE 4 x.toNat ++ rest := by
  unfold uint32
  simp only [bind_eq_ok_iff, pure_eq_ok_iff, natLE_eq_ok_iff]
  constructor
  · rintro ⟨n, behind, ⟨hlt, hbytes⟩, hvalue, hrest⟩
    rw [← hvalue, UInt32.toNat_ofNat_of_lt' hlt, ← hrest]
    exact hbytes
  · intro hbytes
    exact ⟨x.toNat, rest, ⟨x.toNat_lt, hbytes⟩, UInt32.ofNat_toNat, rfl⟩

theorem count_eq_ok_iff {n : Nat} :
    count bytes = .ok (n, rest) ↔ n < 2 ^ 64 ∧ bytes = Wire.encodeCount n ++ rest :=
  natLE_eq_ok_iff

theorem variant_eq_ok_iff {variants tag : Nat} (hvariants : variants ≤ 2 ^ 32) :
    variant variants bytes = .ok (tag, rest) ↔
      tag < variants ∧ bytes = Wire.encodeVariant tag ++ rest := by
  unfold variant
  simp only [bind_eq_ok_iff, natLE_eq_ok_iff]
  constructor
  · rintro ⟨read, behind, ⟨_, hbytes⟩, h⟩
    split at h
    · rename_i htag
      obtain ⟨rfl, rfl⟩ := pure_eq_ok_iff.mp h
      exact ⟨htag, hbytes⟩
    · cases h
  · rintro ⟨htag, hbytes⟩
    refine ⟨tag, rest, ⟨Nat.lt_of_lt_of_le htag hvariants, hbytes⟩, ?_⟩
    rw [if_pos htag]
    rfl

theorem flag_eq_ok_iff {b : Bool} : flag bytes = .ok (b, rest) ↔ bytes = encode b ++ rest := by
  unfold flag
  simp only [bind_eq_ok_iff, byte_eq_ok_iff]
  constructor
  · rintro ⟨first, behind, hbytes, h⟩
    split at h
    · obtain ⟨rfl, rfl⟩ := pure_eq_ok_iff.mp h
      exact hbytes
    · obtain ⟨rfl, rfl⟩ := pure_eq_ok_iff.mp h
      exact hbytes
    · cases h
  · intro hbytes
    cases b with
    | false => exact ⟨0, rest, hbytes, rfl⟩
    | true => exact ⟨1, rest, hbytes, rfl⟩

theorem text_eq_ok_iff {s : String} :
    text bytes = .ok (s, rest) ↔ (Utf8.encode s).length < 2 ^ 64 ∧ bytes = encode s ++ rest := by
  unfold text
  simp only [bind_eq_ok_iff, count_eq_ok_iff, take_eq_ok_iff]
  constructor
  · rintro ⟨n, behind, ⟨hlt, hbytes⟩, front, rest', ⟨hlength, hbehind⟩, h⟩
    rw [← hlength] at hlt hbytes
    cases hheld : Utf8.decode? front with
    | none =>
      rw [hheld] at h
      cases h
    | some held =>
      rw [hheld] at h
      obtain ⟨rfl, rfl⟩ := pure_eq_ok_iff.mp h
      rw [Utf8.decode?_eq_some_iff.mp hheld] at hlt hbytes hbehind
      rw [hbytes, hbehind, ← List.append_assoc]
      exact ⟨hlt, rfl⟩
  · rintro ⟨hlt, hbytes⟩
    rw [hbytes]
    refine ⟨_, _, ⟨hlt, List.append_assoc _ _ _⟩, Utf8.encode s, rest, ⟨rfl, rfl⟩, ?_⟩
    rw [Utf8.decode?_eq_some_iff.mpr rfl]
    rfl

end Reader

end Custody
