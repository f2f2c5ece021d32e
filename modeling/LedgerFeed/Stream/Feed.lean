import LedgerFeed.Stream.Error

/-!
# Feeds

What an open stream gives to who asks it for messages: some messages, and then its end, a fault, or
nothing any more. While it is asked, whoever runs the stream may cancel all subscriptions, before
the message or the fault is given.
-/

namespace LedgerFeed

/-- What a stream answers to who asks it for a message. -/
inductive Answer (M : Type)
  | message (m : M)
  | fault (e : TransportError)
  | ended

/-- All that a stream will answer from here on. Before an answer is given, all subscriptions may be
cancelled. -/
inductive Feed (M : Type)
  | message (m : M) (cancels : Bool) (rest : Feed M)
  | fault (e : TransportError) (cancels : Bool)
  | ended
  | silent

namespace Feed
variable {M : Type}

/-- How many messages there are. -/
def size : Feed M → Nat
  | .message _ _ rest => rest.size + 1
  | _ => 0

/-- The messages of a list and then the end. -/
def ofList : List M → Feed M
  | [] => .ended
  | m :: rest => .message m false (ofList rest)

end Feed

end LedgerFeed
