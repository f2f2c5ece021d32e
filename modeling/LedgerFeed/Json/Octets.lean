import LedgerFeed.Json.Record
import LedgerFeed.Text.Hex

/-!
# Byte strings in JSON

Messages write a byte string as hexadecimal text and read it with or without `0x` in front. Records
write it as an array of numbers.
-/

namespace LedgerFeed.Json

/-- A byte string as hexadecimal text. -/
def hex (b : Bytes) : Json :=
  .text (Hex.encode b)

/-- The byte string of a hexadecimal text. -/
def asHex (j : Json) : Option Bytes :=
  j.asText.bind fun s => (Hex.decodeMarked s).toOption

/-- Byte strings as an array of hexadecimal texts. -/
def hexes (bs : List Bytes) : Json :=
  .array (bs.map hex)

/-- The byte strings of an array of hexadecimal texts. -/
def asHexes (j : Json) : Option (List Bytes) :=
  j.asList asHex

/-- A byte string as an array of numbers. -/
def octets (b : Bytes) : Json :=
  .array (b.map fun x => .nat x.toNat)

end LedgerFeed.Json
