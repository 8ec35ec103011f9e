import Std.Data.TreeMap
import Custody.Transaction.Checks

/-!
# The notary

A notary remembers which transaction consumed which output and signs a transaction only if none of
its inputs was consumed by another. It checks the form of a transaction and its endorsements, but
not the rules of the ledger. A refusal changes nothing; asking again for a signed transaction is
granted again.
-/

namespace Custody

/-- A notary with what it has seen consumed. -/
structure Notary where
  party : Party
  seed : Seed
  spent : Std.TreeMap OutputRef TransactionId

/-- Why a notary does not sign. -/
inductive NotaryError where
  | conflict (input : OutputRef) (consumer : TransactionId)
  | wrongNotary (name : String)
  | invalidTransaction (reason : String)
  | unavailable (reason : String)
deriving DecidableEq

/-- The wording of a refusal. -/
def NotaryError.message : NotaryError → String
  | conflict input consumer => s!"input {input} was already consumed by {consumer}"
  | wrongNotary name => s!"transaction names notary {name}, not this notary"
  | invalidTransaction reason => s!"invalid transaction: {reason}"
  | unavailable reason => s!"notary unavailable: {reason}"

namespace Notary

variable [Cryptosystem]

/-- A notary that has seen nothing yet. -/
def new (name : String) (seed : Seed) : Notary :=
  ⟨⟨name, Cryptosystem.publicKey seed⟩, seed, ∅⟩

/-- What consumed an output, as far as this notary has signed for it. -/
def consumedBy? (n : Notary) (r : OutputRef) : Option TransactionId := n.spent[r]?

/-- The transaction names this notary, is well formed, and lacks no endorsement but the notary's. -/
def admits (n : Notary) (t : Transaction) : Except NotaryError Unit := do
  if t.content.notary ≠ n.party then throw (.wrongNotary t.content.notary.name)
  t.content.checkStructure.mapError fun e ↦ .invalidTransaction e.message
  (t.checkSignaturesExcept [n.party.key]).mapError fun e ↦ .invalidTransaction e.message

/-- The first input that another transaction consumed, with that transaction. -/
def conflict? (n : Notary) (t : Transaction) : Option (OutputRef × TransactionId) :=
  t.content.inputs.findSome? fun input ↦
    match n.spent[input]? with
    | some consumer => if consumer = t.id then none else some (input, consumer)
    | none => none

/-- The notary after signing: every input is consumed by the transaction. -/
def spend (n : Notary) (t : Transaction) : Notary :=
  { n with spent := t.content.inputs.foldl (fun spent input ↦ spent.insert input t.id) n.spent }

/-- Asks for the notary's endorsement. -/
def notarise (n : Notary) (t : Transaction) : Except NotaryError (Notary × Endorsement) := do
  n.admits t
  if let some (input, consumer) := n.conflict? t then throw (.conflict input consumer)
  return (n.spend t, .make n.seed n.party.key t.id)

end Notary

end Custody
