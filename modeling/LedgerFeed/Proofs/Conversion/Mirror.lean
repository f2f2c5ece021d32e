import Mathlib.Data.List.Forall2
import LedgerFeed.Topic.Message

/-!
# Records that mirror messages

A record mirrors a message if it says field by field what the message says: scalars and raw bytes
are the same, identifiers and addresses have the bytes of the message, lists agree item by item, and
the value of an event is what its payload decodes to. Some record mirrors a message just if the
message fits: what names something has the right size, and every payload holds an event
(`Message.mirrored_iff_fits`).
-/

namespace LedgerFeed

/-! ## Parts of messages that fit -/

section
variable (o : DecodeOptions)

structure RawEvent.Fits (e : RawEvent) : Prop where
  transactionId : e.transactionId.length = 32
  payload : ∃ v, Codec.decode o e.payload = .ok v ∧ v.isEvent

structure RawGuarantee.Fits (g : RawGuarantee) : Prop where
  collectionId : g.collectionId.length = 32

structure RawSeal.Fits (s : RawSeal) : Prop where
  blockId : s.blockId.length = 32
  receiptId : s.receiptId.length = 32

structure RawBlock.Fits (b : RawBlock) : Prop where
  id : b.id.length = 32
  parentId : b.parentId.length = 32
  guarantees : ∀ g ∈ b.guarantees, g.Fits
  seals : ∀ s ∈ b.seals, s.Fits

structure RawHeader.Fits (h : RawHeader) : Prop where
  id : h.id.length = 32
  parentId : h.parentId.length = 32

structure RawAccountResult.Fits (a : RawAccountResult) : Prop where
  address : a.address.length = 8
  events : ∀ e ∈ a.events, e.Fits o

structure RawTransaction.Fits (t : RawTransaction) : Prop where
  referenceBlockId : t.referenceBlockId.length = 32
  payer : t.payer.length = 8
  authorizers : ∀ a ∈ t.authorizers, a.length = 8

structure RawTransactionResult.Fits (t : RawTransactionResult) : Prop where
  transactionId : t.transactionId.length = 32

structure RawChunk.Fits (c : RawChunk) : Prop where
  transactions : ∀ t ∈ c.transactions, t.Fits
  events : ∀ e ∈ c.events, e.Fits o
  results : ∀ t ∈ c.results, t.Fits

structure RawExecution.Fits (e : RawExecution) : Prop where
  blockId : e.blockId.length = 32
  chunks : ∀ c ∈ e.chunks, c.Fits o

/-! ## Messages that fit -/

structure DigestMessage.Fits (m : DigestMessage) : Prop where
  blockId : m.blockId.length = 32

structure EventsMessage.Fits (m : EventsMessage) : Prop where
  blockId : m.blockId.length = 32
  events : ∀ e ∈ m.events, e.Fits o

structure AccountMessage.Fits (m : AccountMessage) : Prop where
  blockId : m.blockId.length = 32
  results : ∀ a ∈ m.results, a.Fits o

/-- A message of a topic fits. Those that hold one part have to hold it. -/
def Topic.Message.Fits : (t : Topic) → t.Message → Prop
  | .blocks, m => ∃ b, BlockMessage.block m = some b ∧ b.Fits
  | .blockHeaders, m => ∃ h, HeaderMessage.header m = some h ∧ h.Fits
  | .blockDigests, m => DigestMessage.Fits m
  | .events, m => EventsMessage.Fits o m
  | .executionData, m => ∃ e, ExecutionMessage.execution m = some e ∧ e.Fits o
  | .accountStatuses, m => AccountMessage.Fits o m

/-! ## Parts of records that mirror those of messages -/

structure RawEvent.MirroredBy (e : RawEvent) (r : Event) : Prop where
  type : r.type = e.type
  transactionId : r.transactionId.octets = e.transactionId
  transactionIndex : r.transactionIndex = e.transactionIndex
  eventIndex : r.eventIndex = e.eventIndex
  value : Codec.decode o e.payload = .ok r.value
  isEvent : r.value.isEvent
  payload : r.payload = e.payload

structure RawGuarantee.MirroredBy (g : RawGuarantee) (r : Guarantee) : Prop where
  collectionId : r.collectionId.octets = g.collectionId
  signerIndices : r.signerIndices = g.signerIndices

structure RawSeal.MirroredBy (s : RawSeal) (r : Seal) : Prop where
  blockId : r.blockId.octets = s.blockId
  receiptId : r.receiptId.octets = s.receiptId

structure RawBlock.MirroredBy (b : RawBlock) (r : Block) : Prop where
  id : r.header.id.octets = b.id
  parentId : r.header.parentId.octets = b.parentId
  height : r.header.height = b.height
  timestamp : r.header.timestamp = b.timestamp
  guarantees : List.Forall₂ RawGuarantee.MirroredBy b.guarantees r.guarantees
  seals : List.Forall₂ RawSeal.MirroredBy b.seals r.seals

structure RawHeader.MirroredBy (h : RawHeader) (r : BlockHeader) : Prop where
  id : r.id.octets = h.id
  parentId : r.parentId.octets = h.parentId
  height : r.height = h.height
  timestamp : r.timestamp = h.timestamp

structure RawAccountResult.MirroredBy (a : RawAccountResult) (r : AccountResult) : Prop where
  address : r.address.octets = a.address
  events : List.Forall₂ (RawEvent.MirroredBy o) a.events r.events

structure RawTransaction.MirroredBy (t : RawTransaction) (r : Transaction) : Prop where
  script : r.script = t.script
  arguments : r.arguments = t.arguments
  referenceBlockId : r.referenceBlockId.octets = t.referenceBlockId
  gasLimit : r.gasLimit = t.gasLimit
  payer : r.payer.octets = t.payer
  authorizers : List.Forall₂ (fun b a => a.octets = b) t.authorizers r.authorizers

structure RawKeyPart.MirroredBy (k : RawKeyPart) (r : KeyPart) : Prop where
  type : r.type = k.type
  value : r.value = k.value

structure RawRegister.MirroredBy (g : RawRegister) (r : Register) : Prop where
  keyParts : List.Forall₂ RawKeyPart.MirroredBy g.keyParts r.keyParts
  value : r.value = g.value

structure RawTrieUpdate.MirroredBy (t : RawTrieUpdate) (r : TrieUpdate) : Prop where
  rootHash : r.rootHash = t.rootHash
  paths : r.paths = t.paths
  payloads : List.Forall₂ RawRegister.MirroredBy t.payloads r.payloads

structure RawTransactionResult.MirroredBy (t : RawTransactionResult) (r : TransactionResult) :
    Prop where
  transactionId : r.transactionId.octets = t.transactionId
  failed : r.failed = t.failed
  computationUsed : r.computationUsed = t.computationUsed

structure RawChunk.MirroredBy (c : RawChunk) (r : Chunk) : Prop where
  transactions : List.Forall₂ RawTransaction.MirroredBy c.transactions r.transactions
  events : List.Forall₂ (RawEvent.MirroredBy o) c.events r.events
  trieUpdate : Option.Rel RawTrieUpdate.MirroredBy c.trieUpdate r.trieUpdate
  results : List.Forall₂ RawTransactionResult.MirroredBy c.results r.results

/-! ## Records that mirror messages -/

structure DigestMessage.MirroredBy (m : DigestMessage) (r : BlockDigest) : Prop where
  blockId : r.blockId.octets = m.blockId
  height : r.height = m.height
  timestamp : r.timestamp = m.timestamp

structure EventsMessage.MirroredBy (m : EventsMessage) (r : BlockEvents) : Prop where
  blockId : r.blockId.octets = m.blockId
  height : r.height = m.height
  timestamp : r.timestamp = m.timestamp
  events : List.Forall₂ (RawEvent.MirroredBy o) m.events r.events

structure AccountMessage.MirroredBy (m : AccountMessage) (r : AccountStatus) : Prop where
  blockId : r.blockId.octets = m.blockId
  height : r.height = m.height
  index : r.index = m.index
  results : List.Forall₂ (RawAccountResult.MirroredBy o) m.results r.results

structure ExecutionMessage.MirroredBy (m : ExecutionMessage) (e : RawExecution) (r : Execution) :
    Prop where
  height : r.height = m.height
  timestamp : r.timestamp = m.timestamp
  blockId : r.blockId.octets = e.blockId
  chunks : List.Forall₂ (RawChunk.MirroredBy o) e.chunks r.chunks

/-- A record of a topic mirrors a message of it. -/
def Topic.Message.MirroredBy : (t : Topic) → t.Message → t.Record → Prop
  | .blocks, m, r => ∃ b, BlockMessage.block m = some b ∧ b.MirroredBy r
  | .blockHeaders, m, r => ∃ h, HeaderMessage.header m = some h ∧ h.MirroredBy r
  | .blockDigests, m, r => DigestMessage.MirroredBy m r
  | .events, m, r => EventsMessage.MirroredBy o m r
  | .executionData, m, r =>
    ∃ e, ExecutionMessage.execution m = some e ∧ ExecutionMessage.MirroredBy o m e r
  | .accountStatuses, m, r => AccountMessage.MirroredBy o m r

end

/-- The height of the block that a record is about. -/
def Topic.Record.height : (t : Topic) → t.Record → UInt64
  | .blocks => fun b => b.header.height
  | .blockHeaders => BlockHeader.height
  | .blockDigests => BlockDigest.height
  | .events => BlockEvents.height
  | .executionData => Execution.height
  | .accountStatuses => AccountStatus.height

/-- The number of a record, if the records of the topic are numbered. -/
def Topic.Record.index? : (t : Topic) → t.Record → Option UInt64
  | .accountStatuses, r => some (AccountStatus.index r)
  | _, _ => none

/-! ## What a mirror needs -/

section
variable {o : DecodeOptions}

/-- Bytes are those of an identifier just if there are 32. -/
theorem Identifier.exists_iff (b : Bytes) :
    (∃ id : Identifier, id.octets = b) ↔ b.length = 32 := by
  constructor
  · rintro ⟨id, rfl⟩
    exact id.size
  · intro h
    exact ⟨⟨b, h⟩, rfl⟩

/-- Bytes are those of an address just if there are 8. -/
theorem Address.exists_iff (b : Bytes) : (∃ a : Address, a.octets = b) ↔ b.length = 8 := by
  constructor
  · rintro ⟨a, rfl⟩
    exact a.size
  · intro h
    exact ⟨⟨b, h⟩, rfl⟩

/-- A list has a mirror just if each of its items has one. -/
theorem exists_forall₂_iff {α β : Type} {R : α → β → Prop} {F : α → Prop}
    (h : ∀ a, (∃ b, R a b) ↔ F a) (as : List α) :
    (∃ bs, List.Forall₂ R as bs) ↔ ∀ a ∈ as, F a := by
  constructor
  · rintro ⟨bs, hbs⟩
    induction hbs with
    | nil => exact List.forall_mem_nil F
    | cons hab _ ih => exact List.forall_mem_cons.2 ⟨(h _).1 ⟨_, hab⟩, ih⟩
  · intro has
    induction as with
    | nil => exact ⟨[], .nil⟩
    | cons a as ih =>
      obtain ⟨ha, has⟩ := List.forall_mem_cons.1 has
      obtain ⟨b, hab⟩ := (h a).2 ha
      obtain ⟨bs, hbs⟩ := ih has
      exact ⟨b :: bs, .cons hab hbs⟩

/-- An event is mirrored by some record just if it fits. -/
theorem RawEvent.mirrored_iff_fits (e : RawEvent) : (∃ r, e.MirroredBy o r) ↔ e.Fits o := by
  constructor
  · rintro ⟨r, h⟩
    exact ⟨(Identifier.exists_iff _).1 ⟨_, h.transactionId⟩, r.value, h.value, h.isEvent⟩
  · rintro ⟨hid, v, hv, hevent⟩
    obtain ⟨id, hid⟩ := (Identifier.exists_iff _).2 hid
    exact ⟨⟨e.type, id, e.transactionIndex, e.eventIndex, v, e.payload⟩,
      rfl, hid, rfl, rfl, hv, hevent, rfl⟩

/-- A guarantee is mirrored by some record just if it fits. -/
theorem RawGuarantee.mirrored_iff_fits (g : RawGuarantee) : (∃ r, g.MirroredBy r) ↔ g.Fits := by
  constructor
  · rintro ⟨r, h⟩
    exact ⟨(Identifier.exists_iff _).1 ⟨_, h.collectionId⟩⟩
  · rintro ⟨hid⟩
    obtain ⟨id, hid⟩ := (Identifier.exists_iff _).2 hid
    exact ⟨⟨id, g.signerIndices⟩, hid, rfl⟩

/-- A seal is mirrored by some record just if it fits. -/
theorem RawSeal.mirrored_iff_fits (s : RawSeal) : (∃ r, s.MirroredBy r) ↔ s.Fits := by
  constructor
  · rintro ⟨r, h⟩
    exact ⟨(Identifier.exists_iff _).1 ⟨_, h.blockId⟩, (Identifier.exists_iff _).1 ⟨_, h.receiptId⟩⟩
  · rintro ⟨hblock, hreceipt⟩
    obtain ⟨block, hblock⟩ := (Identifier.exists_iff _).2 hblock
    obtain ⟨receipt, hreceipt⟩ := (Identifier.exists_iff _).2 hreceipt
    exact ⟨⟨block, receipt⟩, hblock, hreceipt⟩

/-- A block is mirrored by some record just if it fits. -/
theorem RawBlock.mirrored_iff_fits (b : RawBlock) : (∃ r, b.MirroredBy r) ↔ b.Fits := by
  have hguarantees := exists_forall₂_iff RawGuarantee.mirrored_iff_fits b.guarantees
  have hseals := exists_forall₂_iff RawSeal.mirrored_iff_fits b.seals
  constructor
  · rintro ⟨r, h⟩
    exact ⟨(Identifier.exists_iff _).1 ⟨_, h.id⟩, (Identifier.exists_iff _).1 ⟨_, h.parentId⟩,
      hguarantees.1 ⟨_, h.guarantees⟩, hseals.1 ⟨_, h.seals⟩⟩
  · intro h
    obtain ⟨id, hid⟩ := (Identifier.exists_iff _).2 h.id
    obtain ⟨parentId, hparent⟩ := (Identifier.exists_iff _).2 h.parentId
    obtain ⟨guarantees, hg⟩ := hguarantees.2 h.guarantees
    obtain ⟨seals, hs⟩ := hseals.2 h.seals
    exact ⟨⟨⟨id, parentId, b.height, b.timestamp⟩, guarantees, seals⟩,
      hid, hparent, rfl, rfl, hg, hs⟩

/-- A header is mirrored by some record just if it fits. -/
theorem RawHeader.mirrored_iff_fits (h : RawHeader) : (∃ r, h.MirroredBy r) ↔ h.Fits := by
  constructor
  · rintro ⟨r, hr⟩
    exact ⟨(Identifier.exists_iff _).1 ⟨_, hr.id⟩, (Identifier.exists_iff _).1 ⟨_, hr.parentId⟩⟩
  · rintro ⟨hid, hparent⟩
    obtain ⟨id, hid⟩ := (Identifier.exists_iff _).2 hid
    obtain ⟨parentId, hparent⟩ := (Identifier.exists_iff _).2 hparent
    exact ⟨⟨id, parentId, h.height, h.timestamp⟩, hid, hparent, rfl, rfl⟩

/-- The result of an account is mirrored by some record just if it fits. -/
theorem RawAccountResult.mirrored_iff_fits (a : RawAccountResult) :
    (∃ r, a.MirroredBy o r) ↔ a.Fits o := by
  have hevents := exists_forall₂_iff (RawEvent.mirrored_iff_fits (o := o)) a.events
  constructor
  · rintro ⟨r, h⟩
    exact ⟨(Address.exists_iff _).1 ⟨_, h.address⟩, hevents.1 ⟨_, h.events⟩⟩
  · intro h
    obtain ⟨address, ha⟩ := (Address.exists_iff _).2 h.address
    obtain ⟨events, he⟩ := hevents.2 h.events
    exact ⟨⟨address, events⟩, ha, he⟩

/-- A transaction is mirrored by some record just if it fits. -/
theorem RawTransaction.mirrored_iff_fits (t : RawTransaction) :
    (∃ r, t.MirroredBy r) ↔ t.Fits := by
  have hauthorizers := exists_forall₂_iff Address.exists_iff t.authorizers
  constructor
  · rintro ⟨r, h⟩
    exact ⟨(Identifier.exists_iff _).1 ⟨_, h.referenceBlockId⟩,
      (Address.exists_iff _).1 ⟨_, h.payer⟩, hauthorizers.1 ⟨_, h.authorizers⟩⟩
  · intro h
    obtain ⟨id, hid⟩ := (Identifier.exists_iff _).2 h.referenceBlockId
    obtain ⟨payer, hpayer⟩ := (Address.exists_iff _).2 h.payer
    obtain ⟨authorizers, ha⟩ := hauthorizers.2 h.authorizers
    exact ⟨⟨t.script, t.arguments, id, t.gasLimit, payer, authorizers⟩,
      rfl, rfl, hid, rfl, hpayer, ha⟩

/-- The result of a transaction is mirrored by some record just if it fits. -/
theorem RawTransactionResult.mirrored_iff_fits (t : RawTransactionResult) :
    (∃ r, t.MirroredBy r) ↔ t.Fits := by
  constructor
  · rintro ⟨r, h⟩
    exact ⟨(Identifier.exists_iff _).1 ⟨_, h.transactionId⟩⟩
  · rintro ⟨hid⟩
    obtain ⟨id, hid⟩ := (Identifier.exists_iff _).2 hid
    exact ⟨⟨id, t.failed, t.computationUsed⟩, hid, rfl, rfl⟩

/-- Items that are converted one by one mirror the list. -/
theorem map_eq_iff_forall₂ {α β : Type} {R : α → β → Prop} {f : α → β}
    (h : ∀ a b, f a = b ↔ R a b) (as : List α) (bs : List β) :
    as.map f = bs ↔ List.Forall₂ R as bs := by
  have hR : R = fun a b => f a = b := by
    funext a b
    exact propext (h a b).symm
  rw [hR, ← List.forall₂_map_left_iff, List.forall₂_eq_eq_eq]

/-- A part of a key has one mirror, the one it is converted to. -/
theorem RawKeyPart.convert_eq_iff (k : RawKeyPart) (r : KeyPart) :
    k.convert = r ↔ k.MirroredBy r := by
  constructor
  · rintro rfl
    exact ⟨rfl, rfl⟩
  · obtain ⟨type, value⟩ := r
    rintro ⟨rfl, rfl⟩
    rfl

/-- A register has one mirror, the one it is converted to. -/
theorem RawRegister.convert_eq_iff (g : RawRegister) (r : Register) :
    g.convert = r ↔ g.MirroredBy r := by
  have hparts := map_eq_iff_forall₂ RawKeyPart.convert_eq_iff g.keyParts
  constructor
  · rintro rfl
    exact ⟨(hparts _).1 rfl, rfl⟩
  · obtain ⟨keyParts, value⟩ := r
    rintro ⟨hk, rfl⟩
    obtain rfl := (hparts _).2 hk
    rfl

/-- An update of the trie has one mirror, the one it is converted to. -/
theorem RawTrieUpdate.convert_eq_iff (t : RawTrieUpdate) (r : TrieUpdate) :
    t.convert = r ↔ t.MirroredBy r := by
  have hpayloads := map_eq_iff_forall₂ RawRegister.convert_eq_iff t.payloads
  constructor
  · rintro rfl
    exact ⟨rfl, rfl, (hpayloads _).1 rfl⟩
  · obtain ⟨rootHash, paths, payloads⟩ := r
    rintro ⟨rfl, rfl, hp⟩
    obtain rfl := (hpayloads _).2 hp
    rfl

/-- An update of the trie that may be missing has one mirror, which then is missing too. -/
theorem RawTrieUpdate.map_convert_eq_iff (t : Option RawTrieUpdate) (r : Option TrieUpdate) :
    t.map RawTrieUpdate.convert = r ↔ Option.Rel RawTrieUpdate.MirroredBy t r := by
  constructor
  · rintro rfl
    cases t with
    | none => exact .none
    | some t => exact .some ((t.convert_eq_iff _).1 rfl)
  · intro h
    cases h with
    | none => rfl
    | some h => exact congrArg some ((RawTrieUpdate.convert_eq_iff _ _).2 h)

/-- A chunk is mirrored by some record just if it fits. -/
theorem RawChunk.mirrored_iff_fits (c : RawChunk) : (∃ r, c.MirroredBy o r) ↔ c.Fits o := by
  have htransactions := exists_forall₂_iff RawTransaction.mirrored_iff_fits c.transactions
  have hevents := exists_forall₂_iff (RawEvent.mirrored_iff_fits (o := o)) c.events
  have hresults := exists_forall₂_iff RawTransactionResult.mirrored_iff_fits c.results
  constructor
  · rintro ⟨r, h⟩
    exact ⟨htransactions.1 ⟨_, h.transactions⟩, hevents.1 ⟨_, h.events⟩,
      hresults.1 ⟨_, h.results⟩⟩
  · intro h
    obtain ⟨transactions, ht⟩ := htransactions.2 h.transactions
    obtain ⟨events, he⟩ := hevents.2 h.events
    obtain ⟨results, hr⟩ := hresults.2 h.results
    have htrie := (RawTrieUpdate.map_convert_eq_iff c.trieUpdate _).1 rfl
    exact ⟨⟨transactions, events, _, results⟩, ht, he, htrie, hr⟩

/-- Some record mirrors a message just if the message fits. -/
theorem Topic.Message.mirrored_iff_fits (t : Topic) (m : t.Message) :
    (∃ r, Topic.Message.MirroredBy o t m r) ↔ Topic.Message.Fits o t m := by
  cases t with
  | blocks =>
    constructor
    · rintro ⟨r, b, hb, h⟩
      exact ⟨b, hb, b.mirrored_iff_fits.1 ⟨r, h⟩⟩
    · rintro ⟨b, hb, h⟩
      obtain ⟨r, hr⟩ := b.mirrored_iff_fits.2 h
      exact ⟨r, b, hb, hr⟩
  | blockHeaders =>
    constructor
    · rintro ⟨r, h, hh, hr⟩
      exact ⟨h, hh, h.mirrored_iff_fits.1 ⟨r, hr⟩⟩
    · rintro ⟨h, hh, hfits⟩
      obtain ⟨r, hr⟩ := h.mirrored_iff_fits.2 hfits
      exact ⟨r, h, hh, hr⟩
  | blockDigests =>
    constructor
    · rintro ⟨r, h⟩
      exact ⟨(Identifier.exists_iff _).1 ⟨_, h.blockId⟩⟩
    · rintro ⟨hid⟩
      obtain ⟨id, hid⟩ := (Identifier.exists_iff _).2 hid
      exact ⟨⟨id, _, _⟩, hid, rfl, rfl⟩
  | events =>
    have hevents :=
      exists_forall₂_iff (RawEvent.mirrored_iff_fits (o := o)) (EventsMessage.events m)
    constructor
    · rintro ⟨r, h⟩
      exact ⟨(Identifier.exists_iff _).1 ⟨_, h.blockId⟩, hevents.1 ⟨_, h.events⟩⟩
    · rintro ⟨hid, he⟩
      obtain ⟨id, hid⟩ := (Identifier.exists_iff _).2 hid
      obtain ⟨events, he⟩ := hevents.2 he
      exact ⟨⟨id, _, _, events⟩, hid, rfl, rfl, he⟩
  | executionData =>
    have hchunks := exists_forall₂_iff (RawChunk.mirrored_iff_fits (o := o))
    constructor
    · rintro ⟨r, e, he, h⟩
      exact ⟨e, he, (Identifier.exists_iff _).1 ⟨_, h.blockId⟩, (hchunks _).1 ⟨_, h.chunks⟩⟩
    · rintro ⟨e, he, hid, hc⟩
      obtain ⟨id, hid⟩ := (Identifier.exists_iff _).2 hid
      obtain ⟨chunks, hc⟩ := (hchunks _).2 hc
      exact ⟨⟨_, id, chunks, _⟩, e, he, rfl, rfl, hid, hc⟩
  | accountStatuses =>
    have hresults := exists_forall₂_iff (RawAccountResult.mirrored_iff_fits (o := o))
      (AccountMessage.results m)
    constructor
    · rintro ⟨r, h⟩
      exact ⟨(Identifier.exists_iff _).1 ⟨_, h.blockId⟩, hresults.1 ⟨_, h.results⟩⟩
    · rintro ⟨hid, hr⟩
      obtain ⟨id, hid⟩ := (Identifier.exists_iff _).2 hid
      obtain ⟨results, hr⟩ := hresults.2 hr
      exact ⟨⟨id, _, _, results⟩, hid, rfl, rfl, hr⟩

end

end LedgerFeed
