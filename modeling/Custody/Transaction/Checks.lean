import Custody.Repeats
import Custody.Transaction.Fault

/-!
# Checks on a single transaction

What can be judged without a ledger: that the declared id is the id of the content, that the
endorsements present are valid and that enough of them are there, that the content is well formed,
and that encumbered inputs come with their partners. Each check reports the first defect it meets.
-/

namespace Custody

namespace Transaction

variable [Cryptosystem]

/-- The declared id is the id of the content. -/
def checkId (t : Transaction) : Except TransactionFault Unit :=
  if t.content.id = t.id then .ok () else .error (.idMismatch t.id t.content.id)

/-- The required keys that have not endorsed the transaction and are not excused. -/
def missingKeys (t : Transaction) (excused : List PublicKey) : List PublicKey :=
  t.content.requiredKeys.filter fun key ↦
    !t.endorsements.any (·.signer == key) && !excused.contains key

/-- The id is right, every endorsement is valid, and every required key that is not excused has
endorsed. -/
def checkSignaturesExcept (excused : List PublicKey) (t : Transaction) :
    Except TransactionFault Unit := do
  t.checkId
  if let some bad := t.endorsements.find? (!·.isValidFor t.id) then
    throw (.invalidSignature t.id bad.signer)
  let missing := t.missingKeys excused
  if !missing.isEmpty then throw (.missingSignatures t.id missing)

/-- As `checkSignaturesExcept`, with nobody excused. -/
def checkSignatures (t : Transaction) : Except TransactionFault Unit :=
  t.checkSignaturesExcept []

end Transaction

namespace Content

/-- An output points at a sibling, if at anything, and names the notary of the transaction.
Positions are counted in 32 bits, as references count them. -/
def checkOutput (c : Content) (output : Entity) (index : UInt32) :
    Except TransactionFault Unit := do
  if let some encumbrance := output.encumbrance then
    if UInt32.ofNat c.outputs.length ≤ encumbrance ∨ encumbrance = index then
      throw (.encumbranceOutOfRange index.toNat encumbrance.toNat)
  if output.notary ≠ c.notary then throw (.foreignNotary index.toNat)

/-- There are commands, each with signers; no input and no attachment is named twice; every output
is well formed. -/
def checkStructure (c : Content) : Except TransactionFault Unit := do
  if c.commands.isEmpty then throw .noCommands
  if let some command := c.commands.find? (·.signers.isEmpty) then
    throw (.noSigners command.kind.text)
  if let some input := firstRepeat? c.inputs then throw (.repeatedInput input)
  if let some attachment := firstRepeat? c.attachments then throw (.repeatedAttachment attachment)
  c.outputs.zipIdx.forM fun (output, index) ↦ c.checkOutput output (UInt32.ofNat index)

/-- A resolved input stands for the declared one, and its partner, if it has one, is consumed too.
-/
def checkEncumbrance (c : Content) (declared : OutputRef) (resolved : Located) :
    Except TransactionFault Unit := do
  if declared ≠ resolved.ref then throw (.inputMismatch resolved.ref)
  if let some encumbrance := resolved.entity.encumbrance then
    let partner : OutputRef := ⟨declared.transaction, encumbrance⟩
    if partner ∉ c.inputs then throw (.encumbranceNotConsumed declared partner)

/-- The resolved inputs stand for the declared ones in order, and no encumbered one comes without
its partner. -/
def checkEncumbrances (c : Content) (inputs : List Located) : Except TransactionFault Unit := do
  if inputs.length ≠ c.inputs.length then throw (.inputCount c.inputs.length inputs.length)
  (c.inputs.zip inputs).forM fun (declared, resolved) ↦ c.checkEncumbrance declared resolved

end Content

end Custody
