/-!
# Byte strings

Byte strings are lists of bytes, first byte first. `Block n` is a byte string of exactly `n` bytes,
ordered lexicographically; ids, keys and signatures are blocks. Integers are laid out with the least
significant byte first.
-/

namespace Custody

/-- A string of bytes, first byte first. -/
abbrev Bytes := List UInt8

namespace Bytes

/-- The low `n` bytes of a number, least significant first. -/
def ofNatLE : Nat → Nat → Bytes
  | 0, _ => []
  | n + 1, x => UInt8.ofNat x :: ofNatLE n (x / 256)

/-- The number whose bytes are given, least significant first. -/
def toNatLE : Bytes → Nat
  | [] => 0
  | b :: bs => b.toNat + 256 * toNatLE bs

@[simp] theorem length_ofNatLE (n x : Nat) : (ofNatLE n x).length = n := by
  induction n generalizing x with
  | zero => rfl
  | succ n ih => simp [ofNatLE, ih]

end Bytes

/-- A byte string of exactly `n` bytes. -/
structure Block (n : Nat) where
  toList : Bytes
  length_toList : toList.length = n
deriving DecidableEq

namespace Block

variable {n : Nat}

/-- The first `n` bytes of a byte string, filled up with zero bytes. -/
def fit (n : Nat) (bytes : Bytes) : Block n :=
  ⟨(bytes ++ List.replicate n 0).take n, by simp⟩

/-- The byte string as a block, if it has the right length. -/
def ofList? (n : Nat) (bytes : Bytes) : Option (Block n) :=
  if h : bytes.length = n then some ⟨bytes, h⟩ else none

/-- One byte, `n` times. -/
def replicate (n : Nat) (byte : UInt8) : Block n :=
  ⟨List.replicate n byte, List.length_replicate⟩

/-- The low `n` bytes of a number, least significant first. -/
def ofNatLE (n x : Nat) : Block n := ⟨Bytes.ofNatLE n x, Bytes.length_ofNatLE n x⟩

/-- The number a block spells, least significant byte first. -/
def toNatLE (block : Block n) : Nat := Bytes.toNatLE block.toList

theorem toList_injective {a b : Block n} (h : a.toList = b.toList) : a = b := by
  cases a
  cases b
  simpa using h

@[simp] theorem ofList?_toList (block : Block n) : ofList? n block.toList = some block := by
  simp [ofList?, block.length_toList]

theorem eq_of_ofList? {bytes : Bytes} {block : Block n} (h : ofList? n bytes = some block) :
    bytes = block.toList := by
  unfold ofList? at h
  split at h
  · simp only [Option.some.injEq] at h
    rw [← h]
  · simp at h

/-- Blocks are ordered as byte strings, by the first byte that differs. -/
instance : Ord (Block n) := ⟨compareOn toList⟩

instance : Std.TransOrd (Block n) :=
  inferInstanceAs (Std.TransCmp (compareOn (Block.toList (n := n))))

instance : Std.LawfulEqOrd (Block n) where
  eq_of_compare h := toList_injective (Std.LawfulEqOrd.eq_of_compare h)

end Block

end Custody
