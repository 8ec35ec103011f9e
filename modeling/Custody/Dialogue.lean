import Custody.Operation.Error
import Custody.Session.Message

/-!
# Dialogues

What a node that settles a transaction does with others, as a tree: at each step it opens a session,
says something in one that is open, or asks for finalisation, and goes on according to the answer.
The tree does not say where answers come from; they may be those of honest nodes or any others.
-/

namespace Custody

/-- An open session: its number, from zero in the order of opening, and the party at the other
end. -/
structure Line where
  number : Nat
  party : Party

/-- A computation that talks to others. -/
inductive Dialogue (α : Type) where
  /-- The end. -/
  | done (result : α)
  /-- Opens a session with a party. -/
  | openSession (party : Party) (next : Except NetworkError Unit → Dialogue α)
  /-- Sends a message in a session and receives the reply. -/
  | exchange (line : Line) (message : Message) (next : Except NetworkError Message → Dialogue α)
  /-- Has a transaction notarised and records it. -/
  | finalise (transaction : Transaction) (next : Except NotaryError Transaction → Dialogue α)

namespace Dialogue

variable {α β : Type}

/-- One dialogue after another. -/
protected def bind : Dialogue α → (α → Dialogue β) → Dialogue β
  | done a, f => f a
  | openSession party next, f => openSession party fun answer ↦ (next answer).bind f
  | exchange line m next, f => exchange line m fun answer ↦ (next answer).bind f
  | finalise t next, f => finalise t fun answer ↦ (next answer).bind f

instance : Monad Dialogue where
  pure := done
  bind := Dialogue.bind

end Dialogue

/-- A dialogue that may fail. -/
abbrev Settling := ExceptT OperationError Dialogue

namespace Settling

/-- Opens a session. -/
def openSession (party : Party) : Settling Unit :=
  .mk (.openSession party fun answer ↦ .done (answer.mapError .ofNetwork))

/-- Sends a message and receives the reply. -/
def ask (line : Line) (m : Message) : Settling Message :=
  .mk (.exchange line m fun answer ↦ .done (answer.mapError .ofNetwork))

/-- Sends a message and expects agreement. -/
def askForAck (line : Line) (m : Message) : Settling Unit :=
  .mk (.exchange line m fun answer ↦
    .done ((answer.bind (Message.expectAck line.party.name)).mapError .ofNetwork))

/-- Has a transaction notarised and records it. -/
def finalise (t : Transaction) : Settling Transaction :=
  .mk (.finalise t fun answer ↦ .done (answer.mapError .ofNotary))

/-- What needs nobody else. -/
def lift {α : Type} (outcome : Except OperationError α) : Settling α := .mk (.done outcome)

end Settling

end Custody
