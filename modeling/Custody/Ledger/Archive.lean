import Std.Data.TreeMap
import Custody.Transaction

/-!
# Stores of transactions and blobs

The archive keeps transactions by id and the attachments keep blobs by id. Neither ever replaces
what it holds.
-/

namespace Custody

/-- A failure of a store. -/
inductive StoreError where
  | notFound (key : String)
  | duplicate (key : String)
  | backend (reason : String)
  | serialization (reason : String)
deriving DecidableEq

/-- The wording of a store's failure. -/
def StoreError.message : StoreError → String
  | notFound key => s!"key not found: {key}"
  | duplicate key => s!"duplicate key: {key}"
  | backend reason => s!"storage backend error: {reason}"
  | serialization reason => s!"serialization error: {reason}"

/-- Transactions by id. -/
abbrev Archive := Std.TreeMap TransactionId Transaction

namespace Archive

/-- Keeps a transaction under its declared id, unless that id is taken. -/
def add (archive : Archive) (t : Transaction) : Archive := archive.insertIfNew t.id t

/-- The transaction with an id. -/
def fetch (archive : Archive) (id : TransactionId) : Except StoreError Transaction :=
  match archive[id]? with
  | some t => .ok t
  | none => .error (.notFound (toString id))

end Archive

/-- Blobs by id. -/
abbrev Attachments := Std.TreeMap AttachmentId Bytes

namespace Attachments

/-- Keeps a blob under its id. -/
def add [Cryptosystem] (attachments : Attachments) (blob : Bytes) : Attachments :=
  attachments.insertIfNew (.ofBlob blob) blob

/-- Keeps blobs one after the other. -/
def addAll [Cryptosystem] (attachments : Attachments) (blobs : List Bytes) : Attachments :=
  blobs.foldl add attachments

/-- The blob with an id. -/
def fetch (attachments : Attachments) (id : AttachmentId) : Except StoreError Bytes :=
  match attachments[id]? with
  | some blob => .ok blob
  | none => .error (.notFound (toString id))

end Attachments

end Custody
