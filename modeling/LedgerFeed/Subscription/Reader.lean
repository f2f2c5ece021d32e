import LedgerFeed.Subscription.Worker

/-!
# The reader of a subscription

What the reader of a subscription can do between the steps of its worker. A reading is pending as
long as there is nothing to read and the worker is not gone. Faults are read after the last record,
or on their own.
-/

namespace LedgerFeed

/-- What a reader gets. -/
inductive Reading (α : Type)
  | item (a : α)
  | ended
  | pending

namespace Subscription
variable {t : Topic}

/-- There is nothing more to read, or nothing yet. -/
def nothing {α : Type} (s : Subscription t) : Reading α :=
  if s.hasExited then .ended else .pending

/-- Takes the next record. -/
def next (s : Subscription t) : Reading t.Record × Subscription t :=
  match s.record with
  | some r => (.item r, { s with record := none })
  | none => (s.nothing, s)

/-- Takes the fault. -/
def error (s : Subscription t) : Reading StreamError × Subscription t :=
  match s.fault with
  | some e => (.item e, { s with fault := none })
  | none => (s.nothing, s)

/-- Takes the next record or, after the last, the fault. -/
def recv (s : Subscription t) : Reading (Except StreamError t.Record) × Subscription t :=
  match s.next with
  | (.item r, s') => (.item (.ok r), s')
  | (.pending, s') => (.pending, s')
  | (.ended, s') =>
    match s'.error with
    | (.item e, s'') => (.item (.error e), s'')
    | (.ended, s'') => (.ended, s'')
    | (.pending, s'') => (.pending, s'')

/-- Cancels the subscription. -/
def cancel (s : Subscription t) : Subscription t :=
  { s with cancelled := true }

/-- Nobody will take records any more. -/
def closeRecords (s : Subscription t) : Subscription t :=
  { s with record := none, recordsOpen := false }

/-- Nobody will take faults any more. -/
def closeFaults (s : Subscription t) : Subscription t :=
  { s with fault := none, faultsOpen := false }

/-- The reader is gone, and so the subscription is cancelled. -/
def drop (s : Subscription t) : Subscription t :=
  s.cancel.closeRecords.closeFaults

/-- The items that at most `n` readings give if the worker goes on as far as it can before each of
them, and the reading that gives no item. -/
def drainWithin : Nat → Subscription t →
    List (Except StreamError t.Record) × Reading Empty × Subscription t
  | 0, s => ([], .pending, s)
  | n + 1, s =>
    match s.settle.recv with
    | (.item a, s') =>
      let (items, last, s'') := drainWithin n s'
      (a :: items, last, s'')
    | (.ended, s') => ([], .ended, s')
    | (.pending, s') => ([], .pending, s')

/-- All that can be read, and whether more may come. -/
def drain (s : Subscription t) :
    List (Except StreamError t.Record) × Reading Empty × Subscription t :=
  drainWithin (s.work + 1) s

end Subscription

end LedgerFeed
