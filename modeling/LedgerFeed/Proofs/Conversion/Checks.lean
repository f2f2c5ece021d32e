import LedgerFeed.Proofs.Result
import LedgerFeed.Topic.Message

/-!
# What a conversion checks

The checks of a message as a list, in the order in which they count. A conversion makes them one
after the other (`Makes`): it fails with the fault of the first that finds one, and has a record if
none does. The list of a message is put together from those of its parts, and the laws of `Makes`
follow: one for each way in which converters are put together.
-/

namespace LedgerFeed

/-- Something that the conversion of a message checks. -/
inductive Check
  /-- The part that a message is about is there. -/
  | present (e : Entity) (isPresent : Bool)
  | identifier (e : Entity) (f : Field) (b : Bytes)
  | address (e : Entity) (f : Field) (b : Bytes)
  /-- The payload of the event at a place holds an event. -/
  | event (l : Location) (payload : Bytes)
  deriving DecidableEq, Repr

/-- The fault that a check finds, if it finds one. -/
def Check.fault? (o : DecodeOptions) : Check → Option ConversionError
  | .present e isPresent => if isPresent then none else some (.empty e)
  | .identifier e f b =>
    if b.length = 32 then none else some (.invalidField e f (.badSize 32 b.length))
  | .address e f b =>
    if b.length = 8 then none else some (.invalidField e f (.badSize 8 b.length))
  | .event l payload =>
    match Codec.decode o payload with
    | .error fault => some (.payload l fault)
    | .ok v =>
      if v.isEvent then none else some (.invalidField .event .payload (.noEvent l v.kind))

/-! ## The checks of parts -/

def RawEvent.checks (l : Location) (e : RawEvent) : List Check :=
  [.identifier .event .transactionId e.transactionId, .event l e.payload]

/-- The checks of the events of a list, by their positions. -/
def RawEvent.checksOfList (list : EventList) (es : List RawEvent) : List Check :=
  (es.mapIdx fun j e => e.checks ⟨list, j⟩).flatten

def RawGuarantee.checks (g : RawGuarantee) : List Check :=
  [.identifier .guarantee .collectionId g.collectionId]

def RawSeal.checks (s : RawSeal) : List Check :=
  [.identifier .seal .blockId s.blockId, .identifier .seal .receiptId s.receiptId]

def RawBlock.checks (b : RawBlock) : List Check :=
  .identifier .block .id b.id :: .identifier .block .parentId b.parentId ::
    (b.guarantees.flatMap RawGuarantee.checks ++ b.seals.flatMap RawSeal.checks)

def RawHeader.checks (h : RawHeader) : List Check :=
  [.identifier .header .id h.id, .identifier .header .parentId h.parentId]

def RawAccountResult.checks (i : Nat) (a : RawAccountResult) : List Check :=
  .address .account .address a.address :: RawEvent.checksOfList (.result i) a.events

def RawTransaction.checks (t : RawTransaction) : List Check :=
  .identifier .transaction .referenceBlockId t.referenceBlockId ::
    .address .transaction .payer t.payer ::
    t.authorizers.map (.address .transaction .authorizers)

def RawTransactionResult.checks (t : RawTransactionResult) : List Check :=
  [.identifier .transactionResult .transactionId t.transactionId]

def RawChunk.checks (i : Nat) (c : RawChunk) : List Check :=
  c.transactions.flatMap RawTransaction.checks ++
    (RawEvent.checksOfList (.chunk i) c.events ++ c.results.flatMap RawTransactionResult.checks)

def RawExecution.checks (e : RawExecution) : List Check :=
  (e.chunks.mapIdx RawChunk.checks).flatten ++ [.identifier .execution .blockId e.blockId]

/-- The checks of a message. Those of a message that holds one part start with its presence. -/
def Topic.Message.checks : (t : Topic) → t.Message → List Check
  | .blocks, m =>
    let b := BlockMessage.block m
    .present .block b.isSome :: b.elim [] RawBlock.checks
  | .blockHeaders, m =>
    let h := HeaderMessage.header m
    .present .header h.isSome :: h.elim [] RawHeader.checks
  | .blockDigests, m => [.identifier .digest .blockId (DigestMessage.blockId m)]
  | .events, m =>
    .identifier .events .blockId (EventsMessage.blockId m) ::
      RawEvent.checksOfList .message (EventsMessage.events m)
  | .executionData, m =>
    let e := ExecutionMessage.execution m
    .present .execution e.isSome :: e.elim [] RawExecution.checks
  | .accountStatuses, m =>
    ((AccountMessage.results m).mapIdx RawAccountResult.checks).flatten ++
      [.identifier .account .blockId (AccountMessage.blockId m)]

/-! ## Computations that make checks -/

section
variable {o : DecodeOptions} {α β : Type}

/-- A computation makes checks in order: it fails with the fault of the first that finds one, and
with no other. -/
def Makes (o : DecodeOptions) (x : Except ConversionError α) (cs : List Check) : Prop :=
  ∀ e, x = .error e ↔ cs.findSome? (Check.fault? o) = some e

/-- What needs no checks succeeds. -/
theorem Makes.pure (a : α) : Makes o (pure a) [] :=
  fun _ => ⟨nofun, nofun⟩

/-- The checks of a sequence are those of its first part and then those of the second. -/
theorem Makes.bind {x : Except ConversionError α} {f : α → Except ConversionError β}
    {cs ds : List Check} (hx : Makes o x cs) (hf : ∀ a, Makes o (f a) ds) :
    Makes o (x >>= f) (cs ++ ds) := by
  intro e
  rw [List.findSome?_append]
  cases x with
  | error e' =>
    rw [(hx e').1 rfl]
    exact ⟨fun h => congrArg some (Except.error.inj h), fun h => congrArg _ (Option.some.inj h)⟩
  | ok a =>
    have hnone : cs.findSome? (Check.fault? o) = none :=
      Option.eq_none_iff_forall_ne_some.2 fun e' h => nomatch (hx e').2 h
    rw [hnone, Option.none_or]
    exact hf a e

/-- What is done with the result of a computation last checks nothing. -/
theorem Makes.last {x : Except ConversionError α} {f : α → β} {cs : List Check}
    (hx : Makes o x cs) : Makes o (x >>= fun a => Pure.pure (f a)) cs := by
  rw [← List.append_nil cs]
  exact hx.bind fun a => .pure (f a)

/-- The items of a list are checked by their positions. -/
theorem convertAll_makes {convert : Nat → α → Except ConversionError β}
    {checks : Nat → α → List Check} (h : ∀ i a, Makes o (convert i a) (checks i a)) (i : Nat)
    (as : List α) :
    Makes o (convertAll convert i as) (as.mapIdx fun k a => checks (i + k) a).flatten := by
  induction as generalizing i with
  | nil => exact .pure []
  | cons a as ih =>
    have hrest := ih (i + 1)
    simp only [Nat.add_assoc, Nat.add_comm 1] at hrest
    rw [List.mapIdx_cons, List.flatten_cons]
    exact (h i a).bind fun b => hrest.last

/-- A list makes the checks of its items in order, each with the position of the item. -/
theorem convertAll_makes_mapIdx {convert : Nat → α → Except ConversionError β}
    {checks : Nat → α → List Check} (h : ∀ i a, Makes o (convert i a) (checks i a))
    (as : List α) : Makes o (convertAll convert 0 as) (as.mapIdx checks).flatten := by
  have hall := convertAll_makes h 0 as
  simp only [Nat.zero_add] at hall
  exact hall

/-- The items of a list are checked one by one. -/
theorem convertAll_makes_flatMap {convert : α → Except ConversionError β}
    {checks : α → List Check} (h : ∀ a, Makes o (convert a) (checks a)) (as : List α) :
    Makes o (convertAll (fun _ => convert) 0 as) (as.flatMap checks) := by
  have hmap : (as.mapIdx fun _ a => checks a) = as.map checks :=
    List.ext_getElem? fun i => by rw [List.getElem?_mapIdx, List.getElem?_map]
  rw [List.flatMap_def, ← hmap]
  exact convertAll_makes_mapIdx (fun _ => h) as

/-! ## Converters of parts -/

/-- An identifier makes one check, of its size. -/
theorem checkIdentifier_makes (e : Entity) (f : Field) (b : Bytes) :
    Makes o (checkIdentifier e f b) [.identifier e f b] := by
  intro e'
  unfold checkIdentifier Identifier.ofBytes?
  by_cases h : b.length = 32 <;> simp [Check.fault?, h]

/-- An address makes one check, of its size. -/
theorem checkAddress_makes (e : Entity) (f : Field) (b : Bytes) :
    Makes o (checkAddress e f b) [.address e f b] := by
  intro e'
  unfold checkAddress Address.ofBytes?
  by_cases h : b.length = 8 <;> simp [Check.fault?, h]

/-- A payload makes one check, that it holds an event. -/
theorem RawEvent.decode_makes (l : Location) (payload : Bytes) :
    Makes o (decode o l payload) [.event l payload] := by
  intro e
  rw [List.findSome?_singleton, Check.fault?, decode]
  cases Codec.decode o payload with
  | error fault => simp
  | ok v => by_cases h : v.isEvent = true <;> simp [h]

/-- An event checks its identifier and then its payload. -/
theorem RawEvent.convert_makes (l : Location) (e : RawEvent) :
    Makes o (e.convert o l) (e.checks l) :=
  (checkIdentifier_makes _ _ _).bind fun _ => (decode_makes l e.payload).last

/-- A list of events checks them in order. -/
theorem RawEvent.convertList_makes (list : EventList) (es : List RawEvent) :
    Makes o (convertList o list es) (checksOfList list es) :=
  convertAll_makes_mapIdx (fun j e => e.convert_makes ⟨list, j⟩) es

/-- A guarantee checks its identifier. -/
theorem RawGuarantee.convert_makes (g : RawGuarantee) : Makes o g.convert g.checks :=
  (checkIdentifier_makes _ _ _).last

/-- A seal checks its two identifiers. -/
theorem RawSeal.convert_makes (s : RawSeal) : Makes o s.convert s.checks :=
  (checkIdentifier_makes _ _ _).bind fun _ => (checkIdentifier_makes _ _ _).last

/-- A block checks its own identifiers, then its guarantees and then its seals. -/
theorem RawBlock.convert_makes (b : RawBlock) : Makes o b.convert b.checks :=
  (checkIdentifier_makes _ _ _).bind fun _ => (checkIdentifier_makes _ _ _).bind fun _ =>
    (convertAll_makes_flatMap RawGuarantee.convert_makes b.guarantees).bind fun _ =>
      (convertAll_makes_flatMap RawSeal.convert_makes b.seals).last

/-- A header checks its two identifiers. -/
theorem RawHeader.convert_makes (h : RawHeader) : Makes o h.convert h.checks :=
  (checkIdentifier_makes _ _ _).bind fun _ => (checkIdentifier_makes _ _ _).last

/-- The result of an account checks the address and then the events. -/
theorem RawAccountResult.convert_makes (i : Nat) (a : RawAccountResult) :
    Makes o (a.convert o i) (a.checks i) :=
  (checkAddress_makes _ _ _).bind fun _ => (RawEvent.convertList_makes (.result i) a.events).last

/-- A transaction checks its reference block, the payer and the authorizers. -/
theorem RawTransaction.convert_makes (t : RawTransaction) : Makes o t.convert t.checks := by
  have hauthorizers := convertAll_makes_flatMap
    (checkAddress_makes (o := o) .transaction .authorizers) t.authorizers
  rw [← List.map_eq_flatMap] at hauthorizers
  exact (checkIdentifier_makes _ _ _).bind fun _ => (checkAddress_makes _ _ _).bind fun _ =>
    hauthorizers.last

/-- The result of a transaction checks its identifier. -/
theorem RawTransactionResult.convert_makes (t : RawTransactionResult) :
    Makes o t.convert t.checks :=
  (checkIdentifier_makes _ _ _).last

/-- A chunk checks its transactions, then its events and then its results. -/
theorem RawChunk.convert_makes (i : Nat) (c : RawChunk) : Makes o (c.convert o i) (c.checks i) :=
  (convertAll_makes_flatMap RawTransaction.convert_makes c.transactions).bind fun _ =>
    (RawEvent.convertList_makes (.chunk i) c.events).bind fun _ =>
      (convertAll_makes_flatMap RawTransactionResult.convert_makes c.results).last

/-! ## Converters of messages -/

/-- A part that is missing fails the check that it is there, and no other is made. -/
theorem makes_of_absent (e : Entity) (cs : List Check) :
    Makes o (.error (.empty e) : Except ConversionError α) (.present e false :: cs) := by
  intro e'
  simp [Check.fault?]

/-- A part that is there passes the check that it is, and then makes its own. -/
theorem Makes.of_present {x : Except ConversionError α} {cs : List Check} (h : Makes o x cs)
    (e : Entity) : Makes o x (.present e true :: cs) := by
  intro e'
  simpa [Check.fault?] using h e'

/-- The conversion of a message makes the checks of the message. -/
theorem Topic.Message.convert_makes (t : Topic) (m : t.Message) :
    Makes o (convert t o m) (checks t m) := by
  cases t with
  | blocks =>
    obtain ⟨_ | b⟩ := m
    · exact makes_of_absent .block []
    · exact b.convert_makes.of_present .block
  | blockHeaders =>
    obtain ⟨_ | h⟩ := m
    · exact makes_of_absent .header []
    · exact h.convert_makes.of_present .header
  | blockDigests => exact (checkIdentifier_makes _ _ _).last
  | events =>
    obtain ⟨blockId, _, _, events⟩ := m
    exact (checkIdentifier_makes _ _ _).bind fun _ =>
      (RawEvent.convertList_makes .message events).last
  | executionData =>
    obtain ⟨_, _, _ | e⟩ := m
    · exact makes_of_absent .execution []
    · refine Makes.of_present ?_ .execution
      exact (convertAll_makes_mapIdx RawChunk.convert_makes e.chunks).bind fun _ =>
        (checkIdentifier_makes _ _ _).last
  | accountStatuses =>
    obtain ⟨_, _, _, results⟩ := m
    exact (convertAll_makes_mapIdx RawAccountResult.convert_makes results).bind fun _ =>
      (checkIdentifier_makes _ _ _).last

end

end LedgerFeed
