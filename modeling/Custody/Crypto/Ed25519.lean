import Custody.Crypto.Ed25519.Curve
import Custody.Crypto.Hash

/-!
# Ed25519 signatures

Keys are derived from seeds of 32 bytes. A signature is an encoded point `R` and a number `s` below
the group order `L`; it is valid when `R` is, byte for byte, the encoding of `s B - k A`, where `k`
hashes `R`, the key bytes as given, and the message. Keys of small order are not singled out.
-/

namespace Custody.Ed25519

/-- The order of the base point. -/
def groupOrder : Nat := Nat.pow 2 252 + 27742317777372353535851937790883648493

/-- What a seed expands to: the secret multiplier and the bytes that make nonces unpredictable. -/
structure Secret where
  multiplier : Nat
  nonceKey : Bytes

/-- The multiplier is the first half of the hashed seed with its low three bits and its top bit
cleared and its second highest bit set. -/
def Secret.ofSeed (seed : Block 32) : Secret :=
  let hashed := (Sha512.hash seed.toList).toList
  let n := Bytes.toNatLE (hashed.take 32)
  let clamped := n % Nat.pow 2 254 / 8 * 8 + Nat.pow 2 254
  { multiplier := clamped % groupOrder, nonceKey := hashed.drop 32 }

/-- The public key of a seed. -/
def publicKey (seed : Block 32) : Block 32 :=
  (Point.baseMultiple (Secret.ofSeed seed).multiplier).encode

/-- A hash read as a multiplier. -/
def hashToMultiplier (data : Bytes) : Nat := (Sha512.hash data).toNatLE % groupOrder

/-- The signature of a message under a seed. -/
def sign (seed : Block 32) (message : Bytes) : Block 64 :=
  let secret := Secret.ofSeed seed
  let key := (Point.baseMultiple secret.multiplier).encode
  let nonce := hashToMultiplier (secret.nonceKey ++ message)
  let r := (Point.baseMultiple nonce).encode
  let k := hashToMultiplier (r.toList ++ key.toList ++ message)
  let s := (nonce + k * secret.multiplier) % groupOrder
  ⟨r.toList ++ Bytes.ofNatLE 32 s, by simp [r.length_toList]⟩

/-- Whether a signature of a message is valid under a key. A key that encodes no point verifies
nothing. -/
def verify (key : Block 32) (message : Bytes) (signature : Block 64) : Bool :=
  let r := signature.toList.take 32
  let s := Bytes.toNatLE (signature.toList.drop 32)
  match Point.decode? key with
  | none => false
  | some a =>
    let k := hashToMultiplier (r ++ key.toList ++ message)
    decide (s < groupOrder) && (Point.combine s .base k a.neg).encode.toList == r

end Custody.Ed25519
