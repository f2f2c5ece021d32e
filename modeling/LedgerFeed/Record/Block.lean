import LedgerFeed.Identifier
import LedgerFeed.Json.Octets
import LedgerFeed.Timestamp.Text

/-!
# Blocks

What subscribers to blocks, block headers and block digests are given. The identifiers have been
checked; bytes that stand for nothing else are written as numbers.
-/

namespace LedgerFeed

/-- What names a block and says where and when it stands. -/
structure BlockHeader where
  id : Identifier
  parentId : Identifier
  height : UInt64
  timestamp : Timestamp
  deriving DecidableEq, Repr

def BlockHeader.toJson (h : BlockHeader) : Json :=
  .object [("id", h.id.toJson), ("parent_id", h.parentId.toJson), ("height", .nat h.height.toNat),
    ("timestamp", h.timestamp.toJson)]

/-- The collection that a block includes, and who vouched for it. -/
structure Guarantee where
  collectionId : Identifier
  signerIndices : Bytes
  deriving DecidableEq, Repr

def Guarantee.toJson (g : Guarantee) : Json :=
  .object [("collection_id", g.collectionId.toJson), ("signer_indices", .octets g.signerIndices)]

/-- The earlier block whose execution a block confirms. -/
structure Seal where
  blockId : Identifier
  receiptId : Identifier
  deriving DecidableEq, Repr

def Seal.toJson (s : Seal) : Json :=
  .object [("block_id", s.blockId.toJson), ("execution_receipt_id", s.receiptId.toJson)]

/-- A block with what it guarantees and seals. -/
structure Block where
  header : BlockHeader
  guarantees : List Guarantee
  seals : List Seal
  deriving DecidableEq, Repr

def Block.toJson (b : Block) : Json :=
  .object [("header", b.header.toJson),
    ("collection_guarantees", .array (b.guarantees.map Guarantee.toJson)),
    ("seals", .array (b.seals.map Seal.toJson))]

/-- The summary of a block. -/
structure BlockDigest where
  blockId : Identifier
  height : UInt64
  timestamp : Timestamp
  deriving DecidableEq, Repr

def BlockDigest.toJson (d : BlockDigest) : Json :=
  .object [("block_id", d.blockId.toJson), ("height", .nat d.height.toNat),
    ("timestamp", d.timestamp.toJson)]

end LedgerFeed
