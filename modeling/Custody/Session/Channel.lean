import Custody.Session.Message

/-!
# Channels

A channel joins two ends and buffers frames in both directions. A call on an end either finishes or
would have to wait: sending waits while the buffer is full, receiving while it is empty. When one
end is dropped, the other can still receive what was sent, and nothing can be sent to the dropped
end.
-/

namespace Custody

/-- The two ends of a channel. -/
inductive ChannelEnd where
  | left
  | right
deriving DecidableEq, Repr

/-- The outcome of trying a call once. -/
inductive Attempt (α : Type) where
  | done (value : α)
  | pending

/-- What one end of a channel holds. -/
structure ChannelSide where
  /-- The party at this end. -/
  party : Party
  /-- Frames sent to this end and not yet received, earliest first. -/
  inbox : List Bytes
  isDropped : Bool

/-- Two joined ends. -/
structure Channel where
  left : ChannelSide
  right : ChannelSide

namespace Channel

/-- How many frames a direction buffers. -/
def capacity : Nat := 32

/-- A channel between two parties, with nothing sent. -/
def between (left right : Party) : Channel := ⟨⟨left, [], false⟩, ⟨right, [], false⟩⟩

/-- The other end. -/
def opposite : ChannelEnd → ChannelEnd
  | .left => .right
  | .right => .left

/-- What an end holds. -/
def side (c : Channel) : ChannelEnd → ChannelSide
  | .left => c.left
  | .right => c.right

/-- Changes what an end holds. -/
def update (c : Channel) (e : ChannelEnd) (f : ChannelSide → ChannelSide) : Channel :=
  match e with
  | .left => { c with left := f c.left }
  | .right => { c with right := f c.right }

/-- The party an end talks to. -/
def counterparty (c : Channel) (e : ChannelEnd) : Party := (c.side (opposite e)).party

/-- Gives an end up. -/
def drop (c : Channel) (e : ChannelEnd) : Channel := c.update e fun s ↦ { s with isDropped := true }

/-- The failure of a call when the other end is gone. -/
def closed (c : Channel) (e : ChannelEnd) : NetworkError := .sessionClosed (c.counterparty e).name

/-- Sends a message from an end. -/
def send (c : Channel) (e : ChannelEnd) (m : Message) :
    Channel × Attempt (Except NetworkError Unit) :=
  let peer := c.side (opposite e)
  match m.toFrame with
  | .error error => (c, .done (.error (.codec error)))
  | .ok frame =>
    if peer.isDropped then (c, .done (.error (c.closed e)))
    else if capacity ≤ peer.inbox.length then (c, .pending)
    else
      (c.update (opposite e) fun s ↦ { s with inbox := s.inbox ++ [frame] }, .done (.ok ()))

/-- Receives the earliest message sent to an end. -/
def receive (c : Channel) (e : ChannelEnd) : Channel × Attempt (Except NetworkError Message) :=
  match (c.side e).inbox with
  | frame :: rest =>
    (c.update e fun s ↦ { s with inbox := rest },
      .done ((Message.ofFrame frame).mapError .codec))
  | [] =>
    if (c.side (opposite e)).isDropped then (c, .done (.error (c.closed e))) else (c, .pending)

/-- Sends a message and receives the next one. If receiving has to wait, the message has been sent
all the same. -/
def ask (c : Channel) (e : ChannelEnd) (m : Message) :
    Channel × Attempt (Except NetworkError Message) :=
  match c.send e m with
  | (c, .pending) => (c, .pending)
  | (c, .done (.error error)) => (c, .done (.error error))
  | (c, .done (.ok ())) => c.receive e

/-- Sends a message and expects agreement in return. -/
def askForAck (c : Channel) (e : ChannelEnd) (m : Message) :
    Channel × Attempt (Except NetworkError Unit) :=
  match c.ask e m with
  | (c, .pending) => (c, .pending)
  | (c, .done reply) =>
    (c, .done (reply.bind (Message.expectAck (c.counterparty e).name)))

end Channel

end Custody
