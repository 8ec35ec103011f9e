import Mathlib.Algebra.Group.Nat.Defs
import Custody.Bytes

/-!
# Numbers laid out in bytes

Laying a number out and reading it back are inverse to each other on numbers that fit, and what has
the size of a block fits as it is.
-/

namespace Custody

namespace Bytes

theorem toNatLE_ofNatLE (n x : Nat) : toNatLE (ofNatLE n x) = x % 256 ^ n := by
  induction n generalizing x with
  | zero => simp [ofNatLE, toNatLE, Nat.mod_one]
  | succ n ih =>
    have hlow : (UInt8.ofNat x).toNat = x % 256 := UInt8.toNat_ofNat'
    rw [ofNatLE, toNatLE, ih, hlow, Nat.pow_succ', Nat.mod_mul]

theorem toNatLE_lt (bs : Bytes) : toNatLE bs < 256 ^ bs.length := by
  induction bs with
  | nil => simp [toNatLE]
  | cons b bs ih =>
    have hb : b.toNat < 256 := b.toNat_lt
    simp only [toNatLE, List.length_cons, Nat.pow_succ']
    omega

theorem ofNatLE_toNatLE (bs : Bytes) : ofNatLE bs.length (toNatLE bs) = bs := by
  induction bs with
  | nil => rfl
  | cons b bs ih =>
    have hb : b.toNat < 256 := b.toNat_lt
    have hlow : UInt8.ofNat (b.toNat + 256 * toNatLE bs) = b := by
      apply UInt8.toNat_inj.mp
      simp only [UInt8.toNat_ofNat']
      omega
    have hhigh : (b.toNat + 256 * toNatLE bs) / 256 = toNatLE bs := by omega
    simp only [List.length_cons, toNatLE, ofNatLE, hlow, hhigh, ih]

end Bytes

namespace Block

variable {n : Nat}

/-- Blocks that spell different numbers are different, if the numbers fit. -/
theorem ofNatLE_inj {a b : Nat} (ha : a < 256 ^ n) (hb : b < 256 ^ n)
    (h : ofNatLE n a = ofNatLE n b) : a = b := by
  have hspelled := congrArg toNatLE h
  simp only [toNatLE, ofNatLE, Bytes.toNatLE_ofNatLE] at hspelled
  rwa [Nat.mod_eq_of_lt ha, Nat.mod_eq_of_lt hb] at hspelled

theorem fit_toList {block : Block n} : fit n block.toList = block :=
  toList_injective (List.take_left' block.length_toList)

end Block

end Custody
