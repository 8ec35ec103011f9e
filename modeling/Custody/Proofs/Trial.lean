import Mathlib.Algebra.Group.Nat.Defs
import Custody.Crypto

/-!
# For trial runs

Cryptosystems in the clear and the parties of trial runs. The first is small enough to be evaluated:
the hash is a number read off all bytes, a key is its seed, and a signature shows the key and the
message. The second has a hash that tells salts apart. Signatures verify under the key that made
them, so the law that honest signers rely on can be met.
-/

namespace Custody.Cryptosystem

/-- The bytes as digits of a number, in 32 bytes. -/
def digest (bytes : Bytes) : Block 32 :=
  .ofNatLE 32 (bytes.foldl (fun n byte ↦ (n * 257 + byte.toNat + 1) % 2 ^ 256) 0)

/-- What can be evaluated in the place of the standard one. -/
@[reducible] def clear : Cryptosystem where
  hash := digest
  publicKey seed := ⟨seed.block⟩
  sign seed message := ⟨.fit 64 (seed.block.toList ++ message)⟩
  verify key message signature := signature.block == .fit 64 (key.block.toList ++ message)

theorem clear_signsVerifiably : @SignsVerifiably clear :=
  @SignsVerifiably.mk clear fun _ _ ↦ beq_self_eq_true _

/-- As in the clear, but the hash is the end of what is hashed. Content ends in its salt, so that is
its id. -/
@[reducible] def salted : Cryptosystem where
  hash bytes := .fit 32 (bytes.drop (bytes.length - 32))
  publicKey := clear.publicKey
  sign := clear.sign
  verify := clear.verify

theorem salted_signsVerifiably : @SignsVerifiably salted :=
  @SignsVerifiably.mk salted fun _ _ ↦ beq_self_eq_true _

end Custody.Cryptosystem

namespace Custody.Trial

/-- The seed of one repeated byte. -/
def seed (byte : UInt8) : Seed := ⟨.replicate 32 byte⟩

/-- The key of that seed, in the clear. -/
def key (byte : UInt8) : PublicKey := ⟨.replicate 32 byte⟩

def notary : Party := ⟨"Notary", key 9⟩

def issuer : Party := ⟨"Issuer", key 1⟩

def holder : Party := ⟨"Holder", key 2⟩

end Custody.Trial
