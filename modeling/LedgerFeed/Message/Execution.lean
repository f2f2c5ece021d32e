import LedgerFeed.Message.Event

/-!
# Messages about execution

What the execution of a block produced, as it arrives: chunks of transactions, their events and
results, and the updates of the state trie.
-/

namespace LedgerFeed

/-- A transaction as it arrives. -/
structure RawTransaction where
  script : Bytes
  arguments : List Bytes
  referenceBlockId : Bytes
  gasLimit : UInt64
  payer : Bytes
  authorizers : List Bytes
  deriving DecidableEq, Repr

namespace RawTransaction

def toJson (t : RawTransaction) : Json :=
  .object [("script", .hex t.script), ("arguments", .hexes t.arguments),
    ("reference_block_id", .hex t.referenceBlockId), ("gas_limit", .nat t.gasLimit.toNat),
    ("payer", .hex t.payer), ("authorizers", .hexes t.authorizers)]

def ofJson? (j : Json) : Option RawTransaction := do
  let r ← j.record?
    ["script", "arguments", "reference_block_id", "gas_limit", "payer", "authorizers"]
  return {
    script := ← r.required "script" Json.asHex
    arguments := ← r.orDefault "arguments" [] Json.asHexes
    referenceBlockId := ← r.required "reference_block_id" Json.asHex
    gasLimit := ← r.required "gas_limit" Json.asUInt64
    payer := ← r.required "payer" Json.asHex
    authorizers := ← r.orDefault "authorizers" [] Json.asHexes }

end RawTransaction

/-- A part of the key of a register as it arrives. -/
structure RawKeyPart where
  type : UInt16
  value : Bytes
  deriving DecidableEq, Repr

namespace RawKeyPart

def toJson (k : RawKeyPart) : Json :=
  .object [("type", .nat k.type.toNat), ("value", .hex k.value)]

def ofJson? (j : Json) : Option RawKeyPart := do
  let r ← j.record? ["type", "value"]
  return ⟨← r.required "type" Json.asUInt16, ← r.required "value" Json.asHex⟩

end RawKeyPart

/-- A register and its value as they arrive. -/
structure RawRegister where
  keyParts : List RawKeyPart
  value : Bytes
  deriving DecidableEq, Repr

namespace RawRegister

def toJson (g : RawRegister) : Json :=
  .object [("key_parts", .array (g.keyParts.map RawKeyPart.toJson)), ("value", .hex g.value)]

def ofJson? (j : Json) : Option RawRegister := do
  let r ← j.record? ["key_parts", "value"]
  return {
    keyParts := ← r.orDefault "key_parts" [] (Json.asList RawKeyPart.ofJson?)
    value := ← r.required "value" Json.asHex }

end RawRegister

/-- An update of the state trie as it arrives. -/
structure RawTrieUpdate where
  rootHash : Bytes
  paths : List Bytes
  payloads : List RawRegister
  deriving DecidableEq, Repr

namespace RawTrieUpdate

def toJson (t : RawTrieUpdate) : Json :=
  .object [("root_hash", .hex t.rootHash), ("paths", .hexes t.paths),
    ("payloads", .array (t.payloads.map RawRegister.toJson))]

def ofJson? (j : Json) : Option RawTrieUpdate := do
  let r ← j.record? ["root_hash", "paths", "payloads"]
  return {
    rootHash := ← r.required "root_hash" Json.asHex
    paths := ← r.orDefault "paths" [] Json.asHexes
    payloads := ← r.orDefault "payloads" [] (Json.asList RawRegister.ofJson?) }

end RawTrieUpdate

/-- The result of a transaction as it arrives. -/
structure RawTransactionResult where
  transactionId : Bytes
  failed : Bool
  computationUsed : UInt64
  deriving DecidableEq, Repr

namespace RawTransactionResult

def toJson (t : RawTransactionResult) : Json :=
  .object [("transaction_id", .hex t.transactionId), ("failed", .bool t.failed),
    ("computation_used", .nat t.computationUsed.toNat)]

def ofJson? (j : Json) : Option RawTransactionResult := do
  let r ← j.record? ["transaction_id", "failed", "computation_used"]
  return {
    transactionId := ← r.required "transaction_id" Json.asHex
    failed := ← r.required "failed" Json.asBool
    computationUsed := ← r.required "computation_used" Json.asUInt64 }

end RawTransactionResult

/-- A chunk of a block as it arrives. -/
structure RawChunk where
  transactions : List RawTransaction
  events : List RawEvent
  trieUpdate : Option RawTrieUpdate
  results : List RawTransactionResult
  deriving DecidableEq, Repr

namespace RawChunk

def toJson (c : RawChunk) : Json :=
  .object [("transactions", .array (c.transactions.map RawTransaction.toJson)),
    ("events", .array (c.events.map RawEvent.toJson)),
    ("trie_update", .ofOption RawTrieUpdate.toJson c.trieUpdate),
    ("transaction_results", .array (c.results.map RawTransactionResult.toJson))]

def ofJson? (j : Json) : Option RawChunk := do
  let r ← j.record? ["transactions", "events", "trie_update", "transaction_results"]
  return {
    transactions := ← r.orDefault "transactions" [] (Json.asList RawTransaction.ofJson?)
    events := ← r.orDefault "events" [] (Json.asList RawEvent.ofJson?)
    trieUpdate := ← r.optionalOrAbsent "trie_update" RawTrieUpdate.ofJson?
    results := ← r.orDefault "transaction_results" [] (Json.asList RawTransactionResult.ofJson?) }

end RawChunk

/-- What the execution of a block produced, as it arrives. -/
structure RawExecution where
  blockId : Bytes
  chunks : List RawChunk
  deriving DecidableEq, Repr

namespace RawExecution

def toJson (e : RawExecution) : Json :=
  .object [("block_id", .hex e.blockId),
    ("chunk_execution_data", .array (e.chunks.map RawChunk.toJson))]

def ofJson? (j : Json) : Option RawExecution := do
  let r ← j.record? ["block_id", "chunk_execution_data"]
  return {
    blockId := ← r.required "block_id" Json.asHex
    chunks := ← r.orDefault "chunk_execution_data" [] (Json.asList RawChunk.ofJson?) }

end RawExecution

/-- A message of the topic for execution data. -/
structure ExecutionMessage where
  height : UInt64
  timestamp : Timestamp
  execution : Option RawExecution
  deriving DecidableEq, Repr

namespace ExecutionMessage

def toJson (m : ExecutionMessage) : Json :=
  .object [("block_height", .nat m.height.toNat), ("block_timestamp", m.timestamp.toJson),
    ("block_execution_data", .ofOption RawExecution.toJson m.execution)]

def ofJson? (j : Json) : Option ExecutionMessage := do
  let r ← j.record? ["block_height", "block_timestamp", "block_execution_data"]
  return {
    height := ← r.required "block_height" Json.asUInt64
    timestamp := ← r.required "block_timestamp" Timestamp.ofJson?
    execution := ← r.optional "block_execution_data" RawExecution.ofJson? }

end ExecutionMessage

end LedgerFeed
