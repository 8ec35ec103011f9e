import Custody.Crypto.Hash
import Custody.Crypto.Ed25519
import Custody.Identifier

/-!
# Hashing and signing

The ledger rests on one hash function and one signature scheme. They are a parameter of everything
built on them: `Cryptosystem` names the four operations, `Cryptosystem.standard` is Blake2b with
Ed25519, and `SignsVerifiably` is the one law that honest signers rely on.
-/

namespace Custody

/-- A hash function together with a signature scheme. -/
class Cryptosystem where
  hash : Bytes → Block 32
  publicKey : Seed → PublicKey
  sign : Seed → Bytes → Signature
  verify : PublicKey → Bytes → Signature → Bool

namespace Cryptosystem

/-- Blake2b with 32 bytes and Ed25519. -/
@[reducible] def standard : Cryptosystem where
  hash := Blake2b.hash
  publicKey seed := ⟨Ed25519.publicKey seed.block⟩
  sign seed message := ⟨Ed25519.sign seed.block message⟩
  verify key message signature := Ed25519.verify key.block message signature.block

/-- Every signature is valid under the public key of the seed that made it. -/
class SignsVerifiably [Cryptosystem] : Prop where
  verify_sign (seed : Seed) (message : Bytes) :
    verify (publicKey seed) message (sign seed message) = true

end Cryptosystem

/-- The id of content with this encoding. -/
def TransactionId.ofBytes [Cryptosystem] (encoded : Bytes) : TransactionId :=
  ⟨Cryptosystem.hash encoded⟩

/-- The id of a blob. -/
def AttachmentId.ofBlob [Cryptosystem] (blob : Bytes) : AttachmentId := ⟨Cryptosystem.hash blob⟩

end Custody
