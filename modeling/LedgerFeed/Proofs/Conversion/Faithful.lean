import LedgerFeed.Proofs.Conversion.Mirror
import LedgerFeed.Proofs.Result

/-!
# Conversion is faithful

What a message is converted to is the record that mirrors it, and a message has a record just if it
fits (`convert_faithful`). One lemma for each converter says that it gives out the mirror of its
part and nothing else; a converter of a list rests on that of its items (`convertAll_eq_ok_iff`).
-/

namespace LedgerFeed

variable {o : DecodeOptions}

/-- An identifier passes just if it has the bytes of the message. -/
theorem checkIdentifier_eq_ok {e : Entity} {f : Field} {b : Bytes} {id : Identifier} :
    checkIdentifier e f b = .ok id ↔ id.octets = b := by
  obtain ⟨octets, hsize⟩ := id
  unfold checkIdentifier Identifier.ofBytes?
  by_cases h : b.length = 32
  · simp [h, eq_comm]
  · simp only [h, dite_false]
    exact ⟨nofun, fun hb => absurd (hb ▸ hsize) h⟩

/-- An address passes just if it has the bytes of the message. -/
theorem checkAddress_eq_ok {e : Entity} {f : Field} (b : Bytes) (a : Address) :
    checkAddress e f b = .ok a ↔ a.octets = b := by
  obtain ⟨octets, hsize⟩ := a
  unfold checkAddress Address.ofBytes?
  by_cases h : b.length = 8
  · simp [h, eq_comm]
  · simp only [h, dite_false]
    exact ⟨nofun, fun hb => absurd (hb ▸ hsize) h⟩

/-- A list is converted item by item, in order, if what an item becomes does not depend on its
position. -/
theorem convertAll_eq_ok_iff {ε α β : Type} {convert : Nat → α → Except ε β} {R : α → β → Prop}
    (h : ∀ i a b, convert i a = .ok b ↔ R a b) (i : Nat) (as : List α) (bs : List β) :
    convertAll convert i as = .ok bs ↔ List.Forall₂ R as bs := by
  constructor
  · intro hbs
    induction as generalizing i bs with
    | nil =>
      cases hbs
      exact .nil
    | cons a as ih =>
      obtain ⟨b, hb, hbs⟩ := bind_eq_ok.1 hbs
      obtain ⟨rest, hrest, hbs⟩ := bind_eq_ok.1 hbs
      cases hbs
      exact .cons ((h i a b).1 hb) (ih (i + 1) _ hrest)
  · intro hbs
    induction hbs generalizing i with
    | nil => rfl
    | cons hab _ ih => exact bind_eq_ok.2 ⟨_, (h i _ _).2 hab, bind_eq_ok.2 ⟨_, ih (i + 1), rfl⟩⟩

/-! ## Events -/

namespace RawEvent

/-- A payload passes just if it decodes to an event. -/
theorem decode_eq_ok {l : Location} {payload : Bytes} {v : Value} :
    decode o l payload = .ok v ↔ Codec.decode o payload = .ok v ∧ v.isEvent := by
  unfold decode
  split
  · next h => simp [h]
  · next w h =>
    rw [h]
    constructor
    · intro hv
      split at hv
      · next hevent =>
        cases hv
        exact ⟨rfl, hevent⟩
      · cases hv
    · rintro ⟨hv, hevent⟩
      cases hv
      exact if_pos hevent

/-- An event becomes a record just if the record mirrors it, wherever it stands. -/
theorem convert_eq_ok (l : Location) (e : RawEvent) (r : Event) :
    e.convert o l = .ok r ↔ e.MirroredBy o r := by
  constructor
  · intro h
    obtain ⟨id, hid, h⟩ := bind_eq_ok.1 h
    obtain ⟨v, hv, h⟩ := bind_eq_ok.1 h
    cases h
    obtain ⟨hv, hevent⟩ := decode_eq_ok.1 hv
    exact ⟨rfl, checkIdentifier_eq_ok.1 hid, rfl, rfl, hv, hevent, rfl⟩
  · obtain ⟨type, id, transactionIndex, eventIndex, v, payload⟩ := r
    rintro ⟨rfl, hid, rfl, rfl, hv, hevent, rfl⟩
    exact bind_eq_ok.2 ⟨id, checkIdentifier_eq_ok.2 hid,
      bind_eq_ok.2 ⟨v, decode_eq_ok.2 ⟨hv, hevent⟩, rfl⟩⟩

/-- A list of events becomes a list of records just if these mirror them one by one. -/
theorem convertList_eq_ok {list : EventList} {es : List RawEvent} {rs : List Event} :
    convertList o list es = .ok rs ↔ List.Forall₂ (RawEvent.MirroredBy o) es rs :=
  convertAll_eq_ok_iff (fun j => convert_eq_ok ⟨list, j⟩) 0 es rs

end RawEvent

/-- The result of an account becomes a record just if the record mirrors it. -/
theorem RawAccountResult.convert_eq_ok (i : Nat) (a : RawAccountResult) (r : AccountResult) :
    a.convert o i = .ok r ↔ a.MirroredBy o r := by
  constructor
  · intro h
    obtain ⟨address, ha, h⟩ := bind_eq_ok.1 h
    obtain ⟨events, he, h⟩ := bind_eq_ok.1 h
    cases h
    exact ⟨(checkAddress_eq_ok _ _).1 ha, RawEvent.convertList_eq_ok.1 he⟩
  · obtain ⟨address, events⟩ := r
    rintro ⟨ha, he⟩
    exact bind_eq_ok.2 ⟨address, (checkAddress_eq_ok _ _).2 ha,
      bind_eq_ok.2 ⟨events, RawEvent.convertList_eq_ok.2 he, rfl⟩⟩

/-- A message of events becomes a record just if the record mirrors it. -/
theorem EventsMessage.convert_eq_ok {m : EventsMessage} {r : BlockEvents} :
    m.convert o = .ok r ↔ m.MirroredBy o r := by
  constructor
  · intro h
    obtain ⟨id, hid, h⟩ := bind_eq_ok.1 h
    obtain ⟨events, he, h⟩ := bind_eq_ok.1 h
    cases h
    exact ⟨checkIdentifier_eq_ok.1 hid, rfl, rfl, RawEvent.convertList_eq_ok.1 he⟩
  · obtain ⟨id, height, timestamp, events⟩ := r
    rintro ⟨hid, rfl, rfl, he⟩
    exact bind_eq_ok.2 ⟨id, checkIdentifier_eq_ok.2 hid,
      bind_eq_ok.2 ⟨events, RawEvent.convertList_eq_ok.2 he, rfl⟩⟩

/-- A message of account statuses becomes a record just if the record mirrors it. -/
theorem AccountMessage.convert_eq_ok {m : AccountMessage} {r : AccountStatus} :
    m.convert o = .ok r ↔ m.MirroredBy o r := by
  have hresults := convertAll_eq_ok_iff (RawAccountResult.convert_eq_ok (o := o)) 0 m.results
  constructor
  · intro h
    obtain ⟨results, hr, h⟩ := bind_eq_ok.1 h
    obtain ⟨id, hid, h⟩ := bind_eq_ok.1 h
    cases h
    exact ⟨checkIdentifier_eq_ok.1 hid, rfl, rfl, (hresults _).1 hr⟩
  · obtain ⟨id, height, index, results⟩ := r
    rintro ⟨hid, rfl, rfl, hr⟩
    exact bind_eq_ok.2 ⟨results, (hresults _).2 hr,
      bind_eq_ok.2 ⟨id, checkIdentifier_eq_ok.2 hid, rfl⟩⟩

/-! ## Blocks -/

/-- A guarantee becomes a record just if the record mirrors it. -/
theorem RawGuarantee.convert_eq_ok (g : RawGuarantee) (r : Guarantee) :
    g.convert = .ok r ↔ g.MirroredBy r := by
  constructor
  · intro h
    obtain ⟨id, hid, h⟩ := bind_eq_ok.1 h
    cases h
    exact ⟨checkIdentifier_eq_ok.1 hid, rfl⟩
  · obtain ⟨id, signerIndices⟩ := r
    rintro ⟨hid, rfl⟩
    exact bind_eq_ok.2 ⟨id, checkIdentifier_eq_ok.2 hid, rfl⟩

/-- A seal becomes a record just if the record mirrors it. -/
theorem RawSeal.convert_eq_ok (s : RawSeal) (r : Seal) :
    s.convert = .ok r ↔ s.MirroredBy r := by
  constructor
  · intro h
    obtain ⟨blockId, hblock, h⟩ := bind_eq_ok.1 h
    obtain ⟨receiptId, hreceipt, h⟩ := bind_eq_ok.1 h
    cases h
    exact ⟨checkIdentifier_eq_ok.1 hblock, checkIdentifier_eq_ok.1 hreceipt⟩
  · obtain ⟨blockId, receiptId⟩ := r
    rintro ⟨hblock, hreceipt⟩
    exact bind_eq_ok.2 ⟨blockId, checkIdentifier_eq_ok.2 hblock,
      bind_eq_ok.2 ⟨receiptId, checkIdentifier_eq_ok.2 hreceipt, rfl⟩⟩

/-- A block becomes a record just if the record mirrors it. -/
theorem RawBlock.convert_eq_ok (b : RawBlock) (r : Block) :
    b.convert = .ok r ↔ b.MirroredBy r := by
  have hguarantees := convertAll_eq_ok_iff (fun _ => RawGuarantee.convert_eq_ok) 0 b.guarantees
  have hseals := convertAll_eq_ok_iff (fun _ => RawSeal.convert_eq_ok) 0 b.seals
  constructor
  · intro h
    obtain ⟨id, hid, h⟩ := bind_eq_ok.1 h
    obtain ⟨parentId, hparent, h⟩ := bind_eq_ok.1 h
    obtain ⟨guarantees, hg, h⟩ := bind_eq_ok.1 h
    obtain ⟨seals, hs, h⟩ := bind_eq_ok.1 h
    cases h
    exact ⟨checkIdentifier_eq_ok.1 hid, checkIdentifier_eq_ok.1 hparent, rfl, rfl,
      (hguarantees _).1 hg, (hseals _).1 hs⟩
  · obtain ⟨⟨id, parentId, height, timestamp⟩, guarantees, seals⟩ := r
    rintro ⟨hid, hparent, rfl, rfl, hg, hs⟩
    exact bind_eq_ok.2 ⟨id, checkIdentifier_eq_ok.2 hid,
      bind_eq_ok.2 ⟨parentId, checkIdentifier_eq_ok.2 hparent,
        bind_eq_ok.2 ⟨guarantees, (hguarantees _).2 hg,
          bind_eq_ok.2 ⟨seals, (hseals _).2 hs, rfl⟩⟩⟩⟩

/-- A message of a block becomes a record just if the block is there and the record mirrors it. -/
theorem BlockMessage.convert_eq_ok {m : BlockMessage} {r : Block} :
    m.convert = .ok r ↔ ∃ b, m.block = some b ∧ b.MirroredBy r := by
  obtain ⟨_ | b⟩ := m
  · exact ⟨nofun, fun ⟨_, hb, _⟩ => nomatch hb⟩
  constructor
  · intro h
    exact ⟨b, rfl, (b.convert_eq_ok r).1 h⟩
  · rintro ⟨_, hb, h⟩
    cases hb
    exact (b.convert_eq_ok r).2 h

/-- A header becomes a record just if the record mirrors it. -/
theorem RawHeader.convert_eq_ok (h : RawHeader) (r : BlockHeader) :
    h.convert = .ok r ↔ h.MirroredBy r := by
  constructor
  · intro hr
    obtain ⟨id, hid, hr⟩ := bind_eq_ok.1 hr
    obtain ⟨parentId, hparent, hr⟩ := bind_eq_ok.1 hr
    cases hr
    exact ⟨checkIdentifier_eq_ok.1 hid, checkIdentifier_eq_ok.1 hparent, rfl, rfl⟩
  · obtain ⟨id, parentId, height, timestamp⟩ := r
    rintro ⟨hid, hparent, rfl, rfl⟩
    exact bind_eq_ok.2 ⟨id, checkIdentifier_eq_ok.2 hid,
      bind_eq_ok.2 ⟨parentId, checkIdentifier_eq_ok.2 hparent, rfl⟩⟩

/-- A message of a header becomes a record just if the header is there and the record mirrors it. -/
theorem HeaderMessage.convert_eq_ok {m : HeaderMessage} {r : BlockHeader} :
    m.convert = .ok r ↔ ∃ h, m.header = some h ∧ h.MirroredBy r := by
  obtain ⟨_ | b⟩ := m
  · exact ⟨nofun, fun ⟨_, hb, _⟩ => nomatch hb⟩
  constructor
  · intro h
    exact ⟨b, rfl, (b.convert_eq_ok r).1 h⟩
  · rintro ⟨_, hb, h⟩
    cases hb
    exact (b.convert_eq_ok r).2 h

/-- A digest becomes a record just if the record mirrors it. -/
theorem DigestMessage.convert_eq_ok {m : DigestMessage} {r : BlockDigest} :
    m.convert = .ok r ↔ m.MirroredBy r := by
  constructor
  · intro h
    obtain ⟨id, hid, h⟩ := bind_eq_ok.1 h
    cases h
    exact ⟨checkIdentifier_eq_ok.1 hid, rfl, rfl⟩
  · obtain ⟨id, height, timestamp⟩ := r
    rintro ⟨hid, rfl, rfl⟩
    exact bind_eq_ok.2 ⟨id, checkIdentifier_eq_ok.2 hid, rfl⟩

/-! ## Execution -/

/-- A transaction becomes a record just if the record mirrors it. -/
theorem RawTransaction.convert_eq_ok (t : RawTransaction) (r : Transaction) :
    t.convert = .ok r ↔ t.MirroredBy r := by
  have hauthorizers := convertAll_eq_ok_iff
    (fun _ => checkAddress_eq_ok (e := .transaction) (f := .authorizers)) 0 t.authorizers
  constructor
  · intro h
    obtain ⟨id, hid, h⟩ := bind_eq_ok.1 h
    obtain ⟨payer, hpayer, h⟩ := bind_eq_ok.1 h
    obtain ⟨authorizers, ha, h⟩ := bind_eq_ok.1 h
    cases h
    exact ⟨rfl, rfl, checkIdentifier_eq_ok.1 hid, rfl, (checkAddress_eq_ok _ _).1 hpayer,
      (hauthorizers _).1 ha⟩
  · obtain ⟨script, arguments, id, gasLimit, payer, authorizers⟩ := r
    rintro ⟨rfl, rfl, hid, rfl, hpayer, ha⟩
    exact bind_eq_ok.2 ⟨id, checkIdentifier_eq_ok.2 hid,
      bind_eq_ok.2 ⟨payer, (checkAddress_eq_ok _ _).2 hpayer,
        bind_eq_ok.2 ⟨authorizers, (hauthorizers _).2 ha, rfl⟩⟩⟩

/-- The result of a transaction becomes a record just if the record mirrors it. -/
theorem RawTransactionResult.convert_eq_ok (t : RawTransactionResult) (r : TransactionResult) :
    t.convert = .ok r ↔ t.MirroredBy r := by
  constructor
  · intro h
    obtain ⟨id, hid, h⟩ := bind_eq_ok.1 h
    cases h
    exact ⟨checkIdentifier_eq_ok.1 hid, rfl, rfl⟩
  · obtain ⟨id, failed, computationUsed⟩ := r
    rintro ⟨hid, rfl, rfl⟩
    exact bind_eq_ok.2 ⟨id, checkIdentifier_eq_ok.2 hid, rfl⟩

/-- A chunk becomes a record just if the record mirrors it, wherever it stands. -/
theorem RawChunk.convert_eq_ok (i : Nat) (c : RawChunk) (r : Chunk) :
    c.convert o i = .ok r ↔ c.MirroredBy o r := by
  have htransactions :=
    convertAll_eq_ok_iff (fun _ => RawTransaction.convert_eq_ok) 0 c.transactions
  have hresults := convertAll_eq_ok_iff (fun _ => RawTransactionResult.convert_eq_ok) 0 c.results
  have htrie := RawTrieUpdate.map_convert_eq_iff c.trieUpdate
  constructor
  · intro h
    obtain ⟨transactions, ht, h⟩ := bind_eq_ok.1 h
    obtain ⟨events, he, h⟩ := bind_eq_ok.1 h
    obtain ⟨results, hr, h⟩ := bind_eq_ok.1 h
    cases h
    exact ⟨(htransactions _).1 ht, RawEvent.convertList_eq_ok.1 he, (htrie _).1 rfl,
      (hresults _).1 hr⟩
  · obtain ⟨transactions, events, trieUpdate, results⟩ := r
    rintro ⟨ht, he, hu, hr⟩
    obtain rfl := (htrie _).2 hu
    exact bind_eq_ok.2 ⟨transactions, (htransactions _).2 ht,
      bind_eq_ok.2 ⟨events, RawEvent.convertList_eq_ok.2 he,
        bind_eq_ok.2 ⟨results, (hresults _).2 hr, rfl⟩⟩⟩

/-- A message of execution data becomes a record just if the data is there and the record mirrors
it. -/
theorem ExecutionMessage.convert_eq_ok {m : ExecutionMessage} {r : Execution} :
    m.convert o = .ok r ↔ ∃ e, m.execution = some e ∧ m.MirroredBy o e r := by
  have hchunks := convertAll_eq_ok_iff (RawChunk.convert_eq_ok (o := o)) 0
  constructor
  · intro h
    unfold ExecutionMessage.convert at h
    split at h
    · cases h
    · next e hexecution =>
      obtain ⟨chunks, hc, h⟩ := bind_eq_ok.1 h
      obtain ⟨id, hid, h⟩ := bind_eq_ok.1 h
      cases h
      exact ⟨e, hexecution, rfl, rfl, checkIdentifier_eq_ok.1 hid, (hchunks _ _).1 hc⟩
  · obtain ⟨height, id, chunks, timestamp⟩ := r
    rintro ⟨e, hexecution, ⟨rfl, rfl, hid, hc⟩⟩
    unfold ExecutionMessage.convert
    rw [hexecution]
    exact bind_eq_ok.2 ⟨chunks, (hchunks _ _).2 hc,
      bind_eq_ok.2 ⟨id, checkIdentifier_eq_ok.2 hid, rfl⟩⟩

/-! ## Messages of all topics -/

namespace Topic

/-- A message of any topic becomes a record just if the record mirrors it. -/
theorem Message.convert_eq_ok {t : Topic} {m : t.Message} {r : t.Record} :
    Message.convert t o m = .ok r ↔ Message.MirroredBy o t m r := by
  cases t with
  | blocks => exact BlockMessage.convert_eq_ok
  | blockHeaders => exact HeaderMessage.convert_eq_ok
  | blockDigests => exact DigestMessage.convert_eq_ok
  | events => exact EventsMessage.convert_eq_ok
  | executionData => exact ExecutionMessage.convert_eq_ok
  | accountStatuses => exact AccountMessage.convert_eq_ok

/-- A record that mirrors a message has its height and its number. -/
theorem Message.MirroredBy.height_index {t : Topic} {m : t.Message} {r : t.Record}
    (h : Message.MirroredBy o t m r) :
    Record.height t r = Message.height t m ∧ Record.index? t r = Message.index? t m := by
  cases t with
  | blocks =>
    obtain ⟨b, hb, h⟩ := h
    obtain ⟨_⟩ := m
    cases hb
    exact ⟨h.height, rfl⟩
  | blockHeaders =>
    obtain ⟨b, hb, h⟩ := h
    obtain ⟨_⟩ := m
    cases hb
    exact ⟨h.height, rfl⟩
  | blockDigests => exact ⟨h.height, rfl⟩
  | events => exact ⟨h.height, rfl⟩
  | executionData =>
    obtain ⟨e, -, h⟩ := h
    exact ⟨h.height, rfl⟩
  | accountStatuses => exact ⟨h.height, congrArg some h.index⟩

/-- A message of any topic has a record just if it fits, and the record is the one that mirrors it:
its lists have the lengths and the order of those in the message, what needs no check is unchanged,
and the values of events are those of their payloads. The height and the number are those of the
message. -/
theorem convert_faithful (t : Topic) (o : DecodeOptions) (m : t.Message) :
    ((∃ r, Message.convert t o m = .ok r) ↔ Message.Fits o t m) ∧
      ∀ r, (Message.convert t o m = .ok r ↔ Message.MirroredBy o t m r) ∧
        (Message.convert t o m = .ok r →
          Record.height t r = Message.height t m ∧ Record.index? t r = Message.index? t m) := by
  refine ⟨?_, ?_⟩
  · rw [← Message.mirrored_iff_fits]
    exact exists_congr fun r => Message.convert_eq_ok
  · intro r
    refine ⟨Message.convert_eq_ok, ?_⟩
    intro h
    exact (Message.convert_eq_ok.1 h).height_index

/-- An event behind a transaction with two authorizers, in the second chunk of a block. -/
theorem convert_faithful_second_chunk :
    let event : RawEvent := ⟨"A.E", List.replicate 32 2, 0, 1,
      [0xd8, 0x82, 0x82, 0, 0x83, 0x10, 0x63, 0x41, 0x2e, 0x45, 0x80]⟩
    let transaction : RawTransaction :=
      ⟨[], [[1]], List.replicate 32 0, 9, List.replicate 8 1,
        [List.replicate 8 1, List.replicate 8 2]⟩
    let chunk : RawChunk :=
      ⟨[transaction], [event], some ⟨[7], [], [⟨[⟨0, [1]⟩], []⟩]⟩, [⟨List.replicate 32 2, true, 4⟩]⟩
    let time : Timestamp := ⟨⟨2024, 1, 1⟩, ⟨0, 0, 0, 0⟩, by decide, by decide⟩
    let m : ExecutionMessage :=
      ⟨5, time, some ⟨List.replicate 32 1, [⟨[], [], none, []⟩, chunk]⟩⟩
    Message.Fits .lenient .executionData m ∧
      ∃ r, Message.convert .executionData .lenient m = .ok r ∧
        Record.height .executionData r = 5 := by
  intro event transaction chunk time m
  have hevent : event.Fits .lenient := ⟨rfl, .composite .event "A.E" [], rfl, rfl⟩
  have htransaction : transaction.Fits := ⟨rfl, rfl, by decide⟩
  have hchunk : chunk.Fits .lenient :=
    ⟨List.forall_mem_singleton.2 htransaction, List.forall_mem_singleton.2 hevent,
      List.forall_mem_singleton.2 ⟨rfl⟩⟩
  have hempty : RawChunk.Fits .lenient ⟨[], [], none, []⟩ := ⟨nofun, nofun, nofun⟩
  have hm : Message.Fits .lenient .executionData m :=
    ⟨_, rfl, rfl, List.forall_mem_cons.2 ⟨hempty, List.forall_mem_singleton.2 hchunk⟩⟩
  obtain ⟨r, hr⟩ := (convert_faithful .executionData .lenient m).1.2 hm
  have hheight := (((convert_faithful .executionData .lenient m).2 r).2 hr).1
  exact ⟨hm, r, hr, hheight⟩

end Topic

end LedgerFeed
