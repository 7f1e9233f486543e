import Mathlib.Data.List.TakeDrop

/-!
# Broadcast channels

A channel keeps the last `capacity` values.  A receiver gets the values that are
sent after its subscription, in order; when it is too late for some of them it is
told how many, and goes on with the oldest value that is kept.  A value that was
sent before the subscription is never seen.
-/

namespace Broadcast

universe u

structure Channel (α : Type u) where
  capacity : Nat
  /-- Every value that was sent, the first one first. -/
  sent : List α

/-- The position of the next value. -/
structure Receiver where
  next : Nat
  deriving DecidableEq

inductive Received (α : Type u) where
  | pending
  | value (value : α)
  | lagged (missed : Nat)

namespace Channel

variable {α : Type u}

def subscribe (channel : Channel α) : Receiver := ⟨channel.sent.length⟩

def send (channel : Channel α) (value : α) : Channel α :=
  { channel with sent := channel.sent ++ [value] }

/-- The values that were sent to the receiver and that it did not take yet. -/
def unseen (channel : Channel α) (receiver : Receiver) : List α :=
  channel.sent.drop receiver.next

def recv (channel : Channel α) (receiver : Receiver) : Received α × Receiver :=
  match channel.unseen receiver with
  | [] => (.pending, receiver)
  | value :: rest =>
    if channel.capacity < rest.length + 1 then
      (.lagged (rest.length + 1 - channel.capacity),
        ⟨channel.sent.length - channel.capacity⟩)
    else (.value value, ⟨receiver.next + 1⟩)

variable {channel : Channel α} {receiver : Receiver}

theorem unseen_send (value : α) (subscribed : receiver.next ≤ channel.sent.length) :
    (channel.send value).unseen receiver = channel.unseen receiver ++ [value] :=
  List.drop_append_of_le_length subscribed

end Channel

end Broadcast
