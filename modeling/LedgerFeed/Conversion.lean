import LedgerFeed.Conversion.Error
import LedgerFeed.Message.Block
import LedgerFeed.Message.Execution
import LedgerFeed.Record.Block
import LedgerFeed.Record.Execution

/-!
# From messages to records

A message becomes a record as a whole or not at all. The checks run in the order of the text below
and the first that fails is the fault: lists are checked by position, and the identifier that names
the whole of a message with results or chunks is checked last.
-/

namespace LedgerFeed

/-- The items of a list converted in order with their positions, from a first position on, up to
the first fault. -/
def convertAll {ε α β : Type} (convert : Nat → α → Except ε β) : Nat → List α → Except ε (List β)
  | _, [] => .ok []
  | i, a :: rest => do
    let b ← convert i a
    return b :: (← convertAll convert (i + 1) rest)

/-- The identifier that a field holds. -/
def checkIdentifier (e : Entity) (f : Field) (b : Bytes) : Except ConversionError Identifier :=
  match Identifier.ofBytes? b with
  | some id => .ok id
  | none => .error (.invalidField e f (.badSize 32 b.length))

/-- The address that a field holds. -/
def checkAddress (e : Entity) (f : Field) (b : Bytes) : Except ConversionError Address :=
  match Address.ofBytes? b with
  | some a => .ok a
  | none => .error (.invalidField e f (.badSize 8 b.length))

/-- The value of the payload of an event. It must be an event itself. -/
def RawEvent.decode (o : DecodeOptions) (l : Location) (payload : Bytes) :
    Except ConversionError Value :=
  match Codec.decode o payload with
  | .error fault => .error (.payload l fault)
  | .ok v => if v.isEvent then .ok v else .error (.invalidField .event .payload (.noEvent l v.kind))

def RawEvent.convert (o : DecodeOptions) (l : Location) (e : RawEvent) :
    Except ConversionError Event := do
  return {
    type := e.type
    transactionId := ← checkIdentifier .event .transactionId e.transactionId
    transactionIndex := e.transactionIndex
    eventIndex := e.eventIndex
    value := ← decode o l e.payload
    payload := e.payload }

/-- The events of a list in a message. -/
def RawEvent.convertList (o : DecodeOptions) (list : EventList) (es : List RawEvent) :
    Except ConversionError (List Event) :=
  convertAll (fun j e => e.convert o ⟨list, j⟩) 0 es

/-! ## Blocks -/

def RawGuarantee.convert (g : RawGuarantee) : Except ConversionError Guarantee := do
  return ⟨← checkIdentifier .guarantee .collectionId g.collectionId, g.signerIndices⟩

def RawSeal.convert (s : RawSeal) : Except ConversionError Seal := do
  return {
    blockId := ← checkIdentifier .seal .blockId s.blockId
    receiptId := ← checkIdentifier .seal .receiptId s.receiptId }

def RawBlock.convert (b : RawBlock) : Except ConversionError Block := do
  return {
    header := {
      id := ← checkIdentifier .block .id b.id
      parentId := ← checkIdentifier .block .parentId b.parentId
      height := b.height
      timestamp := b.timestamp }
    guarantees := ← convertAll (fun _ g => g.convert) 0 b.guarantees
    seals := ← convertAll (fun _ s => s.convert) 0 b.seals }

def BlockMessage.convert (m : BlockMessage) : Except ConversionError Block :=
  match m.block with
  | none => .error (.empty .block)
  | some b => b.convert

/-- The height of the block, which is zero if there is none. -/
def BlockMessage.height (m : BlockMessage) : UInt64 :=
  m.block.elim 0 RawBlock.height

def RawHeader.convert (h : RawHeader) : Except ConversionError BlockHeader := do
  return {
    id := ← checkIdentifier .header .id h.id
    parentId := ← checkIdentifier .header .parentId h.parentId
    height := h.height
    timestamp := h.timestamp }

def HeaderMessage.convert (m : HeaderMessage) : Except ConversionError BlockHeader :=
  match m.header with
  | none => .error (.empty .header)
  | some h => h.convert

/-- The height of the block, which is zero if there is none. -/
def HeaderMessage.height (m : HeaderMessage) : UInt64 :=
  m.header.elim 0 RawHeader.height

def DigestMessage.convert (m : DigestMessage) : Except ConversionError BlockDigest := do
  return ⟨← checkIdentifier .digest .blockId m.blockId, m.height, m.timestamp⟩

/-! ## Events -/

def EventsMessage.convert (o : DecodeOptions) (m : EventsMessage) :
    Except ConversionError BlockEvents := do
  return {
    blockId := ← checkIdentifier .events .blockId m.blockId
    height := m.height
    timestamp := m.timestamp
    events := ← RawEvent.convertList o .message m.events }

def RawAccountResult.convert (o : DecodeOptions) (i : Nat) (a : RawAccountResult) :
    Except ConversionError AccountResult := do
  return {
    address := ← checkAddress .account .address a.address
    events := ← RawEvent.convertList o (.result i) a.events }

def AccountMessage.convert (o : DecodeOptions) (m : AccountMessage) :
    Except ConversionError AccountStatus := do
  let results ← convertAll (RawAccountResult.convert o) 0 m.results
  return {
    blockId := ← checkIdentifier .account .blockId m.blockId
    height := m.height
    index := m.index
    results }

/-! ## Execution -/

def RawTransaction.convert (t : RawTransaction) : Except ConversionError Transaction := do
  return {
    script := t.script
    arguments := t.arguments
    referenceBlockId := ← checkIdentifier .transaction .referenceBlockId t.referenceBlockId
    gasLimit := t.gasLimit
    payer := ← checkAddress .transaction .payer t.payer
    authorizers :=
      ← convertAll (fun _ a => checkAddress .transaction .authorizers a) 0 t.authorizers }

def RawKeyPart.convert (k : RawKeyPart) : KeyPart :=
  ⟨k.type, k.value⟩

def RawRegister.convert (g : RawRegister) : Register :=
  ⟨g.keyParts.map RawKeyPart.convert, g.value⟩

def RawTrieUpdate.convert (t : RawTrieUpdate) : TrieUpdate :=
  ⟨t.rootHash, t.paths, t.payloads.map RawRegister.convert⟩

def RawTransactionResult.convert (t : RawTransactionResult) :
    Except ConversionError TransactionResult := do
  return {
    transactionId := ← checkIdentifier .transactionResult .transactionId t.transactionId
    failed := t.failed
    computationUsed := t.computationUsed }

def RawChunk.convert (o : DecodeOptions) (i : Nat) (c : RawChunk) :
    Except ConversionError Chunk := do
  return {
    transactions := ← convertAll (fun _ t => t.convert) 0 c.transactions
    events := ← RawEvent.convertList o (.chunk i) c.events
    trieUpdate := c.trieUpdate.map RawTrieUpdate.convert
    results := ← convertAll (fun _ r => r.convert) 0 c.results }

def ExecutionMessage.convert (o : DecodeOptions) (m : ExecutionMessage) :
    Except ConversionError Execution :=
  match m.execution with
  | none => .error (.empty .execution)
  | some e => do
    let chunks ← convertAll (RawChunk.convert o) 0 e.chunks
    return {
      height := m.height
      blockId := ← checkIdentifier .execution .blockId e.blockId
      chunks
      timestamp := m.timestamp }

end LedgerFeed
