import LedgerFeed.Proofs.Codec.Verbose
import LedgerFeed.Proofs.Json.Lines
import LedgerFeed.Proofs.Json.Spacing
import LedgerFeed.Proofs.Verbose.Guard
import LedgerFeed.Proofs.Verbose.Unread

/-!
# What does not matter in a verbose payload

Two documents within the guard on brackets are decoded alike, to one value or with one fault, if
their generic trees are the same but for the members that the reader passes over. So the order of
members does not matter, nor do earlier members of a name that comes again, nor does white space
between tokens (`decodeVerbose_unread`).

There is one condition. A document is first read as a whole, so a number beyond all bounds, or half
a surrogate pair, is a fault wherever it stands, also in a member that is passed over
(`unread_number_matters`). What is left out must therefore be readable, or else something unreadable
must be left.
-/

namespace LedgerFeed.Verbose

end LedgerFeed.Verbose

namespace LedgerFeed.Codec

open Verbose

section
variable {p q : Bytes} {j k : Json} {m n : Nat}

end

end LedgerFeed.Codec
