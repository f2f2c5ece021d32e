import LedgerFeed.Json.Octets
import LedgerFeed.Record.Event

/-!
# Execution data

What subscribers to execution data are given: the transactions of a block in chunks, with their
events, their results and the updates of the state trie.
-/

namespace LedgerFeed

/-- A transaction that has been executed. -/
structure Transaction where
  script : Bytes
  arguments : List Bytes
  referenceBlockId : Identifier
  gasLimit : UInt64
  payer : Address
  authorizers : List Address
  deriving DecidableEq, Repr

def Transaction.toJson (t : Transaction) : Json :=
  .object [("script", .octets t.script), ("arguments", .array (t.arguments.map .octets)),
    ("reference_block_id", t.referenceBlockId.toJson), ("gas_limit", .nat t.gasLimit.toNat),
    ("payer", t.payer.toJson), ("authorizers", .array (t.authorizers.map Address.toJson))]

/-- How a transaction has ended. -/
structure TransactionResult where
  transactionId : Identifier
  failed : Bool
  computationUsed : UInt64
  deriving DecidableEq, Repr

def TransactionResult.toJson (t : TransactionResult) : Json :=
  .object [("transaction_id", t.transactionId.toJson), ("failed", .bool t.failed),
    ("computation_used", .nat t.computationUsed.toNat)]

/-- A part of the key of a register. -/
structure KeyPart where
  type : UInt16
  value : Bytes
  deriving DecidableEq, Repr

def KeyPart.toJson (k : KeyPart) : Json :=
  .object [("part_type", .nat k.type.toNat), ("value", .octets k.value)]

/-- A register and its value. -/
structure Register where
  keyParts : List KeyPart
  value : Bytes
  deriving DecidableEq, Repr

def Register.toJson (g : Register) : Json :=
  .object [("key_parts", .array (g.keyParts.map KeyPart.toJson)), ("value", .octets g.value)]

/-- An update of the state trie. Nothing in it is an identifier. -/
structure TrieUpdate where
  rootHash : Bytes
  paths : List Bytes
  payloads : List Register
  deriving DecidableEq, Repr

def TrieUpdate.toJson (t : TrieUpdate) : Json :=
  .object [("root_hash", .octets t.rootHash), ("paths", .array (t.paths.map .octets)),
    ("payloads", .array (t.payloads.map Register.toJson))]

/-- A part of an execution: its transactions, their events, and what came of them. -/
structure Chunk where
  transactions : List Transaction
  events : List Event
  trieUpdate : Option TrieUpdate
  results : List TransactionResult
  deriving Repr

def Chunk.toJson (c : Chunk) : Json :=
  .object [("transactions", .array (c.transactions.map Transaction.toJson)),
    ("events", .array (c.events.map Event.toJson)),
    ("trie_update", .ofOption TrieUpdate.toJson c.trieUpdate),
    ("transaction_results", .array (c.results.map TransactionResult.toJson))]

/-- What the execution of one block produced. -/
structure Execution where
  height : UInt64
  blockId : Identifier
  chunks : List Chunk
  timestamp : Timestamp
  deriving Repr

def Execution.toJson (e : Execution) : Json :=
  .object [("height", .nat e.height.toNat),
    ("execution_data", .object [("block_id", e.blockId.toJson),
      ("chunks", .array (e.chunks.map Chunk.toJson))]),
    ("block_timestamp", e.timestamp.toJson)]

end LedgerFeed
