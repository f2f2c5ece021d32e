import LedgerFeed.Json.Octets
import LedgerFeed.Timestamp.Text

/-!
# Messages about blocks

The messages of the topics for blocks, block headers and block digests, as they arrive:
identifiers are byte strings of any size.
-/

namespace LedgerFeed

/-- A block header as it arrives. -/
structure RawHeader where
  id : Bytes
  parentId : Bytes
  height : UInt64
  timestamp : Timestamp
  deriving DecidableEq, Repr

namespace RawHeader

def toJson (h : RawHeader) : Json :=
  .object [("id", .hex h.id), ("parent_id", .hex h.parentId), ("height", .nat h.height.toNat),
    ("timestamp", h.timestamp.toJson)]

def ofJson? (j : Json) : Option RawHeader := do
  let r ← j.record? ["id", "parent_id", "height", "timestamp"]
  return {
    id := ← r.required "id" Json.asHex
    parentId := ← r.required "parent_id" Json.asHex
    height := ← r.required "height" Json.asUInt64
    timestamp := ← r.required "timestamp" Timestamp.ofJson? }

end RawHeader

/-- A guarantee of a collection as it arrives. -/
structure RawGuarantee where
  collectionId : Bytes
  signerIndices : Bytes
  deriving DecidableEq, Repr

namespace RawGuarantee

def toJson (g : RawGuarantee) : Json :=
  .object [("collection_id", .hex g.collectionId), ("signer_indices", .hex g.signerIndices)]

def ofJson? (j : Json) : Option RawGuarantee := do
  let r ← j.record? ["collection_id", "signer_indices"]
  return {
    collectionId := ← r.required "collection_id" Json.asHex
    signerIndices := ← r.orDefault "signer_indices" [] Json.asHex }

end RawGuarantee

/-- A seal of a block as it arrives. -/
structure RawSeal where
  blockId : Bytes
  receiptId : Bytes
  deriving DecidableEq, Repr

namespace RawSeal

def toJson (s : RawSeal) : Json :=
  .object [("block_id", .hex s.blockId), ("execution_receipt_id", .hex s.receiptId)]

def ofJson? (j : Json) : Option RawSeal := do
  let r ← j.record? ["block_id", "execution_receipt_id"]
  return {
    blockId := ← r.required "block_id" Json.asHex
    receiptId := ← r.required "execution_receipt_id" Json.asHex }

end RawSeal

/-- A block as it arrives. -/
structure RawBlock where
  id : Bytes
  parentId : Bytes
  height : UInt64
  timestamp : Timestamp
  guarantees : List RawGuarantee
  seals : List RawSeal
  deriving DecidableEq, Repr

namespace RawBlock

def toJson (b : RawBlock) : Json :=
  .object [("id", .hex b.id), ("parent_id", .hex b.parentId), ("height", .nat b.height.toNat),
    ("timestamp", b.timestamp.toJson),
    ("collection_guarantees", .array (b.guarantees.map RawGuarantee.toJson)),
    ("block_seals", .array (b.seals.map RawSeal.toJson))]

def ofJson? (j : Json) : Option RawBlock := do
  let r ← j.record?
    ["id", "parent_id", "height", "timestamp", "collection_guarantees", "block_seals"]
  return {
    id := ← r.required "id" Json.asHex
    parentId := ← r.required "parent_id" Json.asHex
    height := ← r.required "height" Json.asUInt64
    timestamp := ← r.required "timestamp" Timestamp.ofJson?
    guarantees := ← r.orDefault "collection_guarantees" [] (Json.asList RawGuarantee.ofJson?)
    seals := ← r.orDefault "block_seals" [] (Json.asList RawSeal.ofJson?) }

end RawBlock

/-- A message of the topic for blocks. -/
structure BlockMessage where
  block : Option RawBlock
  deriving DecidableEq, Repr

namespace BlockMessage

def toJson (m : BlockMessage) : Json :=
  .object [("block", .ofOption RawBlock.toJson m.block)]

def ofJson? (j : Json) : Option BlockMessage := do
  let r ← j.record? ["block"]
  return ⟨← r.optional "block" RawBlock.ofJson?⟩

end BlockMessage

/-- A message of the topic for block headers. -/
structure HeaderMessage where
  header : Option RawHeader
  deriving DecidableEq, Repr

namespace HeaderMessage

def toJson (m : HeaderMessage) : Json :=
  .object [("header", .ofOption RawHeader.toJson m.header)]

def ofJson? (j : Json) : Option HeaderMessage := do
  let r ← j.record? ["header"]
  return ⟨← r.optional "header" RawHeader.ofJson?⟩

end HeaderMessage

/-- A message of the topic for block digests. -/
structure DigestMessage where
  blockId : Bytes
  height : UInt64
  timestamp : Timestamp
  deriving DecidableEq, Repr

namespace DigestMessage

def toJson (m : DigestMessage) : Json :=
  .object [("block_id", .hex m.blockId), ("block_height", .nat m.height.toNat),
    ("block_timestamp", m.timestamp.toJson)]

def ofJson? (j : Json) : Option DigestMessage := do
  let r ← j.record? ["block_id", "block_height", "block_timestamp"]
  return {
    blockId := ← r.required "block_id" Json.asHex
    height := ← r.required "block_height" Json.asUInt64
    timestamp := ← r.required "block_timestamp" Timestamp.ofJson? }

end DigestMessage

end LedgerFeed
