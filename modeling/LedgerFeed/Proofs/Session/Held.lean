import LedgerFeed.Session.Held
import LedgerFeed.Proofs.Subscription.Run

/-!
# What uses do to a subscription

Of all that can be done with a subscription in hand, few things cancel it (`isCancelledBy`): to
cancel it, and to drop it while it is whole, which collecting it does in the end. Nothing else does
if its feed cancels nothing by itself, and no use makes it cancel others (`Held.becomes_use`).
-/

namespace LedgerFeed

namespace Subscription
variable {t : Topic} {s s' s'' : Subscription t}

/-- Nothing that the feed gave or will give cancels all subscriptions. -/
structure CancelsNone (s : Subscription t) : Prop where
  feed : s.feed.IsCalm
  cancelsAll : s.cancelsAll = false

/-- One subscription has become another that is cancelled just if the first was, and nothing in it
cancels all subscriptions. -/
structure Harmless (s s' : Subscription t) : Prop where
  cancelled : s'.cancelled = s.cancelled
  cancelsNone : s'.CancelsNone

/-- To do nothing is harmless. -/
theorem Harmless.refl (hs : s.CancelsNone) : s.Harmless s :=
  ⟨rfl, hs⟩

/-- Harmless changes follow each other harmlessly. -/
theorem Harmless.trans (h : s.Harmless s') (h' : s'.Harmless s'') : s.Harmless s'' :=
  ⟨h'.cancelled.trans h.cancelled, h'.cancelsNone⟩

/-- A step of the worker is harmless if nothing in the feed cancels all subscriptions. -/
theorem Step.harmless (h : Step s s') (hs : s.CancelsNone) : s.Harmless s' := by
  obtain ⟨hfeed, hall⟩ := hs
  cases h with
  | message _ hf =>
    rw [hf] at hfeed
    obtain ⟨rfl, hrest⟩ := hfeed
    exact ⟨Bool.or_false _, hrest, (Bool.or_false _).trans hall⟩
  | fault _ hf =>
    have hc := hfeed
    rw [hf] at hc
    obtain rfl := hc
    exact ⟨Bool.or_false _, hfeed, (Bool.or_false _).trans hall⟩
  | ended => exact ⟨Bool.or_false _, hfeed, (Bool.or_false _).trans hall⟩
  | enter | receive | convert | place | count | fail | report | finish => exact ⟨rfl, hfeed, hall⟩

/-- So many steps of the worker are harmless. -/
theorem advance_harmless (n : Nat) (hs : s.CancelsNone) : s.Harmless (advance n s) := by
  induction n generalizing s with
  | zero => exact .refl hs
  | succ n ih =>
    rw [advance]
    split
    · exact .refl hs
    · next s' h =>
      have hstep := (Step.of_step h).harmless hs
      exact hstep.trans (ih hstep.cancelsNone)

/-- To let the worker go on until it waits is harmless. -/
theorem settle_harmless (hs : s.CancelsNone) : s.Harmless s.settle :=
  advance_harmless _ hs

/-- To ask for the next record is harmless. -/
theorem next_harmless (hs : s.CancelsNone) : s.Harmless s.next.2 := by
  rcases s.next_cases with ⟨r, -, h⟩ | ⟨-, -, h⟩ | ⟨-, -, h⟩ <;> rw [h]
  · exact ⟨rfl, hs.feed, hs.cancelsAll⟩
  · exact .refl hs
  · exact .refl hs

/-- To ask for a fault is harmless. -/
theorem error_harmless (hs : s.CancelsNone) : s.Harmless s.error.2 := by
  rcases s.error_cases with ⟨e, -, h⟩ | ⟨-, h⟩ <;> rw [h]
  · exact ⟨rfl, hs.feed, hs.cancelsAll⟩
  · exact .refl hs

/-- To ask for either is harmless. -/
theorem recv_harmless (hs : s.CancelsNone) : s.Harmless s.recv.2 := by
  rcases s.recv_cases with ⟨r, -, h⟩ | ⟨-, -, h⟩ | ⟨e, -, -, -, h⟩ | ⟨-, -, -, h⟩ <;> rw [h]
  · exact ⟨rfl, hs.feed, hs.cancelsAll⟩
  · exact .refl hs
  · exact ⟨rfl, hs.feed, hs.cancelsAll⟩
  · exact .refl hs

/-- To read so many items is harmless. -/
theorem drainWithin_harmless (n : Nat) (hs : s.CancelsNone) :
    s.Harmless (drainWithin n s).2.2 := by
  induction n generalizing s with
  | zero => exact .refl hs
  | succ n ih =>
    have hsettle := settle_harmless hs
    have hrecv := hsettle.trans (recv_harmless hsettle.cancelsNone)
    rw [drainWithin]
    split
    · next a s' h =>
      rw [h] at hrecv
      exact hrecv.trans (ih hrecv.cancelsNone)
    · next s' h =>
      rw [h] at hrecv
      exact hrecv
    · next s' h =>
      rw [h] at hrecv
      exact hrecv

/-- To read to the end is harmless. -/
theorem drain_harmless (hs : s.CancelsNone) : s.Harmless s.drain.2.2 :=
  drainWithin_harmless _ hs

end Subscription

namespace Holding

/-- The whole is in hand. -/
def isWhole : Holding → Bool
  | .whole _ => true
  | .parts _ _ | .gone => false

/-- A use of what is left in hand cancels the subscription: it says so, or it drops the whole. -/
def isCancelledBy : Holding → Use → Bool
  | .whole _, .cancel | .whole _, .drop | .whole _, .collect | .parts _ _, .cancel => true
  | _, _ => false

end Holding

namespace Held
variable {h : Held}

/-- A change of a subscription in hand: it is cancelled if it was or if the change cancels it, and
nothing in it cancels all subscriptions. -/
structure Becomes (h : Held) (cancels : Bool) (h' : Held) : Prop where
  cancelled : h'.subscription.cancelled = (h.subscription.cancelled || cancels)
  cancelsNone : h'.subscription.CancelsNone

/-- A subscription in hand that does not change is cancelled just if it was. -/
theorem becomes_self (hs : h.subscription.CancelsNone) : h.Becomes false h :=
  ⟨(Bool.or_false _).symm, hs⟩

/-- What is harmless to the subscription may change what is in hand. -/
theorem becomes_of_harmless {s : Subscription h.topic} (hs : h.subscription.Harmless s)
    (holding : Holding) (token : Option Bool) : h.Becomes false ⟨h.topic, s, holding, token⟩ :=
  ⟨hs.cancelled.trans (Bool.or_false _).symm, hs.cancelsNone⟩

/-- Cancelling a subscription in hand cancels it. -/
theorem becomes_cancel (hs : h.subscription.CancelsNone) : h.Becomes true h.cancel :=
  ⟨(Bool.or_true _).symm, hs.feed, hs.cancelsAll⟩

/-- To let the worker go on until it waits does not cancel the subscription. -/
theorem becomes_settle (hs : h.subscription.CancelsNone) : h.Becomes false h.settle :=
  becomes_of_harmless (Subscription.settle_harmless hs) _ _

/-- Dropping what is in hand cancels the subscription if that is the whole. -/
theorem becomes_drop (hs : h.subscription.CancelsNone) : h.Becomes h.holding.isWhole h.drop := by
  obtain ⟨t, s, holding, token⟩ := h
  cases holding with
  | whole joined => exact ⟨(Bool.or_true _).symm, hs.feed, hs.cancelsAll⟩
  | parts records faults => exact ⟨(Bool.or_false _).symm, hs.feed, hs.cancelsAll⟩
  | gone => exact becomes_self hs

/-- A token that was made of a subscription is cancelled alone, without the subscription. -/
theorem becomes_cancelToken (hs : h.subscription.CancelsNone) :
    h.Becomes false h.cancelToken.2 := by
  unfold cancelToken
  split
  · exact ⟨(Bool.or_false _).symm, hs⟩
  · exact becomes_self hs

/-- Collecting a subscription cancels it in the end, for it is dropped then. -/
theorem becomes_collect (hs : h.subscription.CancelsNone) : h.Becomes true h.collect.2 := by
  obtain ⟨-, hfeed, hall⟩ := Subscription.drain_harmless hs
  unfold collect
  generalize h.subscription.drain = drained at hfeed hall
  exact ⟨(Bool.or_true _).symm, hfeed, hall⟩

/-- A use cancels the subscription just if it is one of those that do. -/
theorem becomes_use (u : Use) (hs : h.subscription.CancelsNone) :
    h.Becomes (h.holding.isCancelledBy u) (h.use u).2 := by
  obtain ⟨t, s, holding, token⟩ := h
  cases holding with
  | whole joined =>
    cases u with
    | next => exact becomes_of_harmless (Subscription.next_harmless hs) _ _
    | recv => exact becomes_of_harmless (Subscription.recv_harmless hs) _ _
    | error => exact becomes_of_harmless (Subscription.error_harmless hs) _ _
    | cancel => exact becomes_cancel hs
    | drop => exact becomes_drop hs
    | collect => exact becomes_collect hs
    | cancelToken => exact becomes_cancelToken hs
    | closed | isCancelled | topic | stats | describe | takeApart | dropRecords | dropFaults
    | makeToken | isTokenCancelled => exact ⟨(Bool.or_false _).symm, hs⟩
  | parts records faults =>
    cases u with
    | next =>
      cases records with
      | true => exact becomes_of_harmless (Subscription.next_harmless hs) _ _
      | false => exact becomes_self hs
    | error =>
      cases faults with
      | true => exact becomes_of_harmless (Subscription.error_harmless hs) _ _
      | false => exact becomes_self hs
    | cancel => exact becomes_cancel hs
    | cancelToken => exact becomes_cancelToken hs
    | dropRecords | dropFaults => exact ⟨(Bool.or_false _).symm, hs.feed, hs.cancelsAll⟩
    | recv | closed | isCancelled | topic | stats | describe | drop | takeApart | collect
    | makeToken | isTokenCancelled => exact becomes_self hs
  | gone =>
    cases u with
    | cancelToken => exact becomes_cancelToken hs
    | next | recv | error | closed | cancel | isCancelled | topic | stats | describe | drop
    | takeApart | collect | dropRecords | dropFaults | makeToken | isTokenCancelled =>
      exact becomes_self hs

end Held

end LedgerFeed
