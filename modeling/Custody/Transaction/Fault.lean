import Custody.Transaction

/-!
# What can be wrong with a transaction

One cause per constructor; `TransactionFault.message` holds the wording.
-/

namespace Custody

/-- A defect of a transaction, of its endorsements or of its wire form. -/
inductive TransactionFault where
  | invalidSignature (transaction : TransactionId) (key : PublicKey)
  | missingSignatures (transaction : TransactionId) (keys : List PublicKey)
  | idMismatch (declared computed : TransactionId)
  | noCommands
  | noSigners (command : String)
  | repeatedInput (input : OutputRef)
  | repeatedAttachment (attachment : AttachmentId)
  | encumbranceOutOfRange (index encumbrance : Nat)
  | foreignNotary (index : Nat)
  | encumbranceNotConsumed (input partner : OutputRef)
  | inputMismatch (input : OutputRef)
  | inputCount (declared resolved : Nat)
  | codec (reason : String)
deriving DecidableEq

namespace TransactionFault

/-- The wording of a defect. -/
def message : TransactionFault → String
  | invalidSignature id key => s!"invalid signature by {key} on transaction {id}"
  | missingSignatures id keys =>
    let list := ", ".intercalate (keys.map PublicKey.brief)
    s!"transaction {id} is missing signatures from [{list}]"
  | idMismatch declared computed =>
    s!"declared id {declared} does not match computed id {computed}"
  | noCommands => "transaction has no commands"
  | noSigners command => s!"command {command} has no signers"
  | repeatedInput input => s!"input {input} is consumed twice"
  | repeatedAttachment attachment => s!"attachment {attachment} is referenced twice"
  | encumbranceOutOfRange index encumbrance =>
    s!"output {index} declares encumbrance {encumbrance}, which is not a valid sibling output"
  | foreignNotary index => s!"output {index} names a notary other than the transaction notary"
  | encumbranceNotConsumed input partner =>
    s!"input {input} is encumbered by {partner}, which is not consumed alongside it"
  | inputMismatch input => s!"resolved input {input} does not match the transaction inputs"
  | inputCount declared resolved =>
    s!"{resolved} resolved inputs for {declared} declared inputs"
  | codec reason => s!"codec error: {reason}"

end TransactionFault

/-- A value of the ledger read from its wire form. -/
def decodeLedger (α : Type) [Wire α] (bytes : Bytes) : Except TransactionFault α :=
  (decode α bytes).mapError fun e ↦ .codec e.message

end Custody
