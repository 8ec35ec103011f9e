import Std.Data.TreeMap
import Custody.Session.Message

/-!
# Who signs and who is told

The directory maps keys to the parties that speak for them, and a keyring holds the seeds of a
node's own keys. A roster splits the keys a transaction requires into those held here and the
parties that hold the others, and turns the keys of those who should be told into parties. No party
is listed twice, and the node itself is not listed.
-/

namespace Custody

/-- The well-known party behind each key. -/
abbrev Directory := Std.TreeMap PublicKey Party

namespace Directory

/-- Makes a party known under a further key; a key leads to the party last registered. -/
def registerKey (d : Directory) (party : Party) (key : PublicKey) : Directory := d.insert key party

/-- Makes a party known under its own key. -/
def register (d : Directory) (party : Party) : Directory := d.registerKey party party.key

end Directory

/-- The seeds of the keys a node holds. -/
abbrev Keyring := Std.TreeMap PublicKey Seed

namespace Keyring

variable [Cryptosystem]

/-- Adds the key pair of a seed. -/
def add (k : Keyring) (seed : Seed) : Keyring := k.insert (Cryptosystem.publicKey seed) seed

/-- Whether a key is held. -/
def owns (k : Keyring) (key : PublicKey) : Bool := k.contains key

/-- Endorses an id with a held key. -/
def endorse (k : Keyring) (key : PublicKey) (id : TransactionId) :
    Except NetworkError Endorsement :=
  match k[key]? with
  | some seed => .ok (.make seed key id)
  | none => .error (.keyNotOwned key)

end Keyring

/-- What a counterparty is asked to do. -/
inductive SessionRole where
  | signer
  | observer
deriving DecidableEq, Repr

namespace SessionRole

/-- The flag that tells a counterparty its role. -/
def flag : SessionRole → Bool
  | signer => true
  | observer => false

/-- The role a flag stands for. -/
def ofFlag (flag : Bool) : SessionRole := if flag then signer else observer

end SessionRole

/-- Who signs a transaction, and who is told. -/
structure Roster where
  /-- The required keys held here, in ascending order. -/
  heldKeys : List PublicKey
  /-- The parties behind the other required keys. -/
  signers : List Party
  /-- The parties that are told without signing. -/
  observers : List Party
deriving DecidableEq

namespace Roster

/-- Whether a party is among the signers. -/
def hasSigner (r : Roster) (party : Party) : Bool := r.signers.contains party

/-- Every listed party with its role, signers first. -/
def counterparties (r : Roster) : List (Party × SessionRole) :=
  r.signers.map (·, .signer) ++ r.observers.map (·, .observer)

/-- Enters a required key that is not held here: its party must be known, and be another. -/
def enterSigner (directory : Directory) (us : Party) (r : Roster) (key : PublicKey) :
    Except NetworkError Roster :=
  match directory[key]? with
  | none => .error (.unknownIdentity key)
  | some party =>
    if party = us then .error (.keyNotOwned key)
    else .ok (if r.hasSigner party then r else { r with signers := r.signers ++ [party] })

/-- Enters a required key. -/
def enterRequired (directory : Directory) (keyring : Keyring) (us : Party) (r : Roster)
    (key : PublicKey) : Except NetworkError Roster :=
  if keyring.owns key then .ok { r with heldKeys := r.heldKeys ++ [key] }
  else enterSigner directory us r key

/-- Enters a key of someone to be told. Keys that are required or held here, keys of nobody known,
and parties that are listed already are passed over. -/
def enterObserver (directory : Directory) (keyring : Keyring) (us : Party)
    (required : List PublicKey) (r : Roster) (key : PublicKey) : Roster :=
  if required.contains key || keyring.owns key then r
  else
    match directory[key]? with
    | none => r
    | some party =>
      if party = us ∨ r.hasSigner party ∨ party ∈ r.observers then r
      else { r with observers := r.observers ++ [party] }

/-- The roster of a set of required keys, in ascending order, and of keys to be told, in the order
given. -/
def build (directory : Directory) (keyring : Keyring) (us : Party)
    (required observers : List PublicKey) : Except NetworkError Roster := do
  let required := ascending required
  let signing ← required.foldlM (enterRequired directory keyring us) ⟨[], [], []⟩
  return observers.foldl (enterObserver directory keyring us required) signing

end Roster

end Custody
