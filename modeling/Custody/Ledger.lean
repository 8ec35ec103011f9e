import Custody.Ledger.Archive
import Custody.Ledger.Vault

/-!
# The ledger of a node

Archive and vault together. Recording a transaction keeps it and applies it to the vault: its inputs
are marked as consumed and its outputs become known. Inputs are resolved from the archive, whether
consumed or not: what has been spent is for the notary to say.
-/

namespace Custody

/-- What a node has recorded. -/
structure Ledger where
  archive : Archive
  vault : Vault

/-- A failure to find something in the ledger. -/
inductive LedgerError where
  | notFound (transaction : TransactionId)
  | missingOutput (output : OutputRef)
  | storage (error : StoreError)
deriving DecidableEq

/-- The wording of a failure. -/
def LedgerError.message : LedgerError → String
  | notFound id => s!"transaction {id} is not in the local archive"
  | missingOutput r =>
    "transaction " ++ toString r.transaction ++ " has no output " ++ toString r.index
  | storage error => "storage error: " ++ error.message

/-- The entity an input stands for, read from the transaction that produced it. -/
def Archive.resolve (archive : Archive) (input : OutputRef) : Except LedgerError Located :=
  match archive[input.transaction]? with
  | none => .error (.notFound input.transaction)
  | some source =>
    match source.content.outputs[input.index.toNat]? with
    | none => .error (.missingOutput input)
    | some entity => .ok ⟨entity, input⟩

/-- The entities the inputs of a content stand for, in order. -/
def Archive.resolveInputs (archive : Archive) (c : Content) : Except LedgerError (List Located) :=
  c.inputs.mapM archive.resolve

/-- The vault after a transaction: inputs first, then outputs. -/
def Vault.apply (v : Vault) (t : Transaction) : Vault :=
  t.located.foldl Vault.put (t.content.inputs.foldl (fun v r ↦ v.consume r t.id) v)

namespace Ledger

/-- Nothing recorded. -/
def empty : Ledger := ⟨∅, .empty⟩

/-- Records a transaction and tells whether it is new; a known id changes nothing. -/
def record (l : Ledger) (t : Transaction) : Ledger × Bool :=
  if t.id ∈ l.archive then (l, false)
  else (⟨l.archive.add t, l.vault.apply t⟩, true)

end Ledger

end Custody
