import Custody.Text.Hex

/-!
# Ids, keys and references

Transactions and attachments are named by the hash of their content, keys by their bytes. An output
is named by the transaction that produced it and its position there; references are ordered by
transaction, then position, which is the order of every listing of entities.
-/

namespace Custody

/-- The hash of a transaction's content. -/
structure TransactionId where
  block : Block 32
deriving DecidableEq

/-- The hash of an attached blob. -/
structure AttachmentId where
  block : Block 32
deriving DecidableEq

/-- A key that signatures are checked against. -/
structure PublicKey where
  block : Block 32
deriving DecidableEq

/-- The secret from which a key pair is derived. -/
structure Seed where
  block : Block 32
deriving DecidableEq

/-- A signature over some bytes. -/
structure Signature where
  block : Block 64
deriving DecidableEq

/-- Output number `index` of a transaction. -/
structure OutputRef where
  transaction : TransactionId
  index : UInt32
deriving DecidableEq

/-- A name together with the key that speaks for it. -/
structure Party where
  name : String
  key : PublicKey
deriving DecidableEq

/-! ### Order -/

instance : Ord TransactionId := ⟨compareOn TransactionId.block⟩
instance : Ord AttachmentId := ⟨compareOn AttachmentId.block⟩
instance : Ord PublicKey := ⟨compareOn PublicKey.block⟩
instance : Ord OutputRef :=
  ⟨compareLex (compareOn OutputRef.transaction) (compareOn OutputRef.index)⟩

instance : Std.TransOrd TransactionId :=
  inferInstanceAs (Std.TransCmp (compareOn TransactionId.block))
instance : Std.TransOrd AttachmentId :=
  inferInstanceAs (Std.TransCmp (compareOn AttachmentId.block))
instance : Std.TransOrd PublicKey :=
  inferInstanceAs (Std.TransCmp (compareOn PublicKey.block))
instance : Std.TransOrd OutputRef :=
  inferInstanceAs
    (Std.TransCmp (compareLex (compareOn OutputRef.transaction) (compareOn OutputRef.index)))

instance : Std.LawfulEqOrd TransactionId where
  eq_of_compare {a b} h := by
    cases a; cases b
    exact congrArg _ (Std.LawfulEqOrd.eq_of_compare h)
instance : Std.LawfulEqOrd AttachmentId where
  eq_of_compare {a b} h := by
    cases a; cases b
    exact congrArg _ (Std.LawfulEqOrd.eq_of_compare h)
instance : Std.LawfulEqOrd PublicKey where
  eq_of_compare {a b} h := by
    cases a; cases b
    exact congrArg _ (Std.LawfulEqOrd.eq_of_compare h)
instance : Std.LawfulEqOrd OutputRef where
  eq_of_compare {a b} h := by
    obtain ⟨ht, hi⟩ := Ordering.then_eq_eq.mp (show Ordering.then _ _ = .eq from h)
    cases a; cases b
    simp only [OutputRef.mk.injEq]
    exact ⟨Std.LawfulEqOrd.eq_of_compare ht, Std.LawfulEqOrd.eq_of_compare hi⟩

/-! ### Text -/

/-- All bytes in hexadecimal. -/
def Block.toHex {n : Nat} (block : Block n) : String := Hex.encode block.toList

/-- The first four bytes in hexadecimal. -/
def Block.shortHex {n : Nat} (block : Block n) : String := Hex.encode (block.toList.take 4)

instance : ToString TransactionId := ⟨fun id ↦ id.block.toHex⟩
instance : ToString AttachmentId := ⟨fun id ↦ id.block.toHex⟩
instance : ToString PublicKey := ⟨fun key ↦ key.block.toHex⟩
instance : ToString OutputRef := ⟨fun r ↦ toString r.transaction ++ "(" ++ toString r.index ++ ")"⟩
instance : ToString Party := ⟨Party.name⟩

/-- A short form for lists, with the first eight digits. -/
def TransactionId.brief (id : TransactionId) : String := "TxId(" ++ id.block.shortHex ++ ")"

/-- A short form for lists, with the first eight digits. -/
def AttachmentId.brief (id : AttachmentId) : String := "AttachmentId(" ++ id.block.shortHex ++ ")"

/-- A short form for lists, with the first eight digits. -/
def PublicKey.brief (key : PublicKey) : String := "PublicKey(" ++ key.block.shortHex ++ ")"

/-- A short form for lists. -/
def OutputRef.brief (r : OutputRef) : String :=
  "EntityRef(" ++ r.transaction.brief ++ ", " ++ toString r.index ++ ")"

/-- Whether all bytes of an id are zero. -/
def TransactionId.isZero (id : TransactionId) : Bool := id.block.toList.all (· == 0)

end Custody
