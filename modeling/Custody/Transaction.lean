import Std.Data.TreeSet
import Custody.Command
import Custody.Entity.Wire

/-!
# Transactions

The content of a transaction is what is signed: the outputs it consumes, the entities it produces,
its commands, its notary, the blobs it refers to and a salt that keeps equal contents apart. Its id
is the hash of the content's wire form. A transaction as it travels declares its id next to the
content and carries endorsements: signatures over the id.
-/

namespace Custody

/-- What a transaction does. -/
structure Content where
  inputs : List OutputRef
  outputs : List Entity
  commands : List Command
  notary : Party
  attachments : List AttachmentId
  salt : Block 32
deriving DecidableEq

/-- A signature over a transaction id, with the key it is claimed to be by. -/
structure Endorsement where
  signer : PublicKey
  signature : Signature
deriving DecidableEq

/-- Content with its declared id and the endorsements collected so far. -/
structure Transaction where
  id : TransactionId
  content : Content
  endorsements : List Endorsement
deriving DecidableEq

instance : Wire Content where
  encode c :=
    encode c.inputs ++ encode c.outputs ++ encode c.commands ++ encode c.notary ++
      encode c.attachments ++ encode c.salt
  read := return ⟨← Wire.read, ← Wire.read, ← Wire.read, ← Wire.read, ← Wire.read, ← Wire.read⟩

instance : Wire Endorsement where
  encode e := encode e.signer ++ encode e.signature
  read := return ⟨← Wire.read, ← Wire.read⟩

instance : Wire Transaction where
  encode t := encode t.id ++ encode t.content ++ encode t.endorsements
  read := return ⟨← Wire.read, ← Wire.read, ← Wire.read⟩

/-- Each key of a list once, in ascending order. -/
def ascending (keys : List PublicKey) : List PublicKey := (Std.TreeSet.ofList keys compare).toList

namespace Content

/-- The keys that must sign: the signers of all commands, each once, in ascending order. -/
def requiredKeys (c : Content) : List PublicKey := ascending (c.commands.flatMap Command.signers)

/-- The id: the hash of the wire form. -/
def id [Cryptosystem] (c : Content) : TransactionId := .ofBytes (encode c)

/-- The reference of an output. -/
def outputRef [Cryptosystem] (c : Content) (index : UInt32) : OutputRef := ⟨c.id, index⟩

/-- The transactions whose outputs are consumed, one entry per input. -/
def sources (c : Content) : List TransactionId := c.inputs.map OutputRef.transaction

end Content

namespace Endorsement

variable [Cryptosystem]

/-- Signs an id with a seed, in the name of a key. -/
def make (seed : Seed) (signer : PublicKey) (id : TransactionId) : Endorsement :=
  ⟨signer, Cryptosystem.sign seed id.block.toList⟩

/-- Whether the signature is over the id and valid under the key it is claimed to be by. -/
def isValidFor (e : Endorsement) (id : TransactionId) : Bool :=
  Cryptosystem.verify e.signer id.block.toList e.signature

end Endorsement

namespace Transaction

/-- A transaction that declares the id of its content and carries no endorsement. -/
def ofContent [Cryptosystem] (c : Content) : Transaction := ⟨c.id, c, []⟩

/-- Adds an endorsement, unless there is one by the same key. -/
def endorse (t : Transaction) (e : Endorsement) : Transaction :=
  if t.endorsements.any (·.signer == e.signer) then t
  else { t with endorsements := t.endorsements ++ [e] }

/-- Adds endorsements one after the other. -/
def endorseAll (t : Transaction) (es : List Endorsement) : Transaction := es.foldl endorse t

/-- The reference of an output under the declared id. -/
def outputRef (t : Transaction) (index : UInt32) : OutputRef := ⟨t.id, index⟩

/-- The outputs with their references. -/
def located (t : Transaction) : List Located :=
  t.content.outputs.zipIdx.map fun (entity, i) ↦ ⟨entity, t.outputRef (UInt32.ofNat i)⟩

/-- The transactions whose outputs are consumed, one entry per input. -/
def sources (t : Transaction) : List TransactionId := t.content.sources

/-- Whether a valid endorsement by a key is present. -/
def isSignedBy [Cryptosystem] (t : Transaction) (key : PublicKey) : Bool :=
  t.endorsements.any fun e ↦ e.signer == key && e.isValidFor t.id

/-- Whether a party's key has validly endorsed the transaction. -/
def isNotarisedBy [Cryptosystem] (t : Transaction) (notary : Party) : Bool :=
  t.isSignedBy notary.key

end Transaction

end Custody
