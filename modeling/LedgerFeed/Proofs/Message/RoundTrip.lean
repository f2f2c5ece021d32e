import LedgerFeed.Message.Block
import LedgerFeed.Message.Execution
import LedgerFeed.Proofs.Json.Record
import LedgerFeed.Proofs.Timestamp.RoundTrip

/-!
# Messages read back

Every part of a message that is written is read back. The law of a part lists the fields as they
are written, each with the law of what it holds and the rule by which it is read; the number in it
is how deeply the part nests.
-/

namespace LedgerFeed

open Json (ReadsBack readsBack_of_fields hex_readsBack hexes_readsBack text_readsBack bool_readsBack
  uint16_readsBack uint32_readsBack uint64_readsBack)

/-- A timestamp is read back from its text. -/
theorem Timestamp.readsBack : ReadsBack 0 toJson ofJson? where
  shallow _ := ⟨trivial, Nat.le_refl 0⟩
  reads f hf t := by
    rw [toJson, hf.text]
    exact ofJson?_toJson t

/-! ## Blocks -/

/-- A header is read back. -/
theorem RawHeader.readsBack : ReadsBack 1 toJson ofJson? :=
  readsBack_of_fields (fun _ => rfl) (by decide) fun _ =>
    .cons (hex_readsBack.required (by decide)) <|
    .cons (hex_readsBack.required (by decide)) <|
    .cons (uint64_readsBack.required (by decide)) <|
    .cons (Timestamp.readsBack.required (by decide)) .done

/-- A guarantee is read back. -/
theorem RawGuarantee.readsBack : ReadsBack 1 toJson ofJson? :=
  readsBack_of_fields (fun _ => rfl) (by decide) fun _ =>
    .cons (hex_readsBack.required (by decide)) <|
    .cons (hex_readsBack.orDefault (by decide)) .done

/-- A seal is read back. -/
theorem RawSeal.readsBack : ReadsBack 1 toJson ofJson? :=
  readsBack_of_fields (fun _ => rfl) (by decide) fun _ =>
    .cons (hex_readsBack.required (by decide)) <|
    .cons (hex_readsBack.required (by decide)) .done

/-- A block is read back with its guarantees and seals. -/
theorem RawBlock.readsBack : ReadsBack 3 toJson ofJson? :=
  readsBack_of_fields (fun _ => rfl) (by decide) fun _ =>
    .cons (hex_readsBack.required (by decide)) <|
    .cons (hex_readsBack.required (by decide)) <|
    .cons (uint64_readsBack.required (by decide)) <|
    .cons (Timestamp.readsBack.required (by decide)) <|
    .cons (RawGuarantee.readsBack.list.orDefault (by decide)) <|
    .cons (RawSeal.readsBack.list.orDefault (by decide)) .done

/-- The message of a block is read back, with a block or without. -/
theorem BlockMessage.readsBack : ReadsBack 4 toJson ofJson? :=
  readsBack_of_fields (fun _ => rfl) (by decide) fun _ =>
    .cons (RawBlock.readsBack.optional (by decide) rfl) .done

/-- The message of a header is read back, with a header or without. -/
theorem HeaderMessage.readsBack : ReadsBack 2 toJson ofJson? :=
  readsBack_of_fields (fun _ => rfl) (by decide) fun _ =>
    .cons (RawHeader.readsBack.optional (by decide) rfl) .done

/-- A digest is read back. -/
theorem DigestMessage.readsBack : ReadsBack 1 toJson ofJson? :=
  readsBack_of_fields (fun _ => rfl) (by decide) fun _ =>
    .cons (hex_readsBack.required (by decide)) <|
    .cons (uint64_readsBack.required (by decide)) <|
    .cons (Timestamp.readsBack.required (by decide)) .done

/-! ## Events -/

/-- An event is read back, its payload from digits. -/
theorem RawEvent.readsBack : ReadsBack 1 toJson ofJson? :=
  readsBack_of_fields (fun _ => rfl) (by decide) fun _ =>
    .cons (text_readsBack.required (by decide)) <|
    .cons (hex_readsBack.required (by decide)) <|
    .cons (uint32_readsBack.required (by decide)) <|
    .cons (uint32_readsBack.required (by decide)) <|
    .cons (hex_readsBack.required (by decide)) .done

/-- The message of the events of a block is read back. -/
theorem EventsMessage.readsBack : ReadsBack 3 toJson ofJson? :=
  readsBack_of_fields (fun _ => rfl) (by decide) fun _ =>
    .cons (hex_readsBack.required (by decide)) <|
    .cons (uint64_readsBack.required (by decide)) <|
    .cons (Timestamp.readsBack.required (by decide)) <|
    .cons (RawEvent.readsBack.list.orDefault (by decide)) .done

/-- The result of an account is read back. -/
theorem RawAccountResult.readsBack : ReadsBack 3 toJson ofJson? :=
  readsBack_of_fields (fun _ => rfl) (by decide) fun _ =>
    .cons (hex_readsBack.required (by decide)) <|
    .cons (RawEvent.readsBack.list.orDefault (by decide)) .done

/-- The message of account statuses is read back. -/
theorem AccountMessage.readsBack : ReadsBack 5 toJson ofJson? :=
  readsBack_of_fields (fun _ => rfl) (by decide) fun _ =>
    .cons (hex_readsBack.required (by decide)) <|
    .cons (uint64_readsBack.required (by decide)) <|
    .cons (uint64_readsBack.required (by decide)) <|
    .cons (RawAccountResult.readsBack.list.orDefault (by decide)) .done

/-! ## Execution -/

/-- A transaction is read back. -/
theorem RawTransaction.readsBack : ReadsBack 2 toJson ofJson? :=
  readsBack_of_fields (fun _ => rfl) (by decide) fun _ =>
    .cons (hex_readsBack.required (by decide)) <|
    .cons (hexes_readsBack.orDefault (by decide)) <|
    .cons (hex_readsBack.required (by decide)) <|
    .cons (uint64_readsBack.required (by decide)) <|
    .cons (hex_readsBack.required (by decide)) <|
    .cons (hexes_readsBack.orDefault (by decide)) .done

/-- A part of a key is read back. -/
theorem RawKeyPart.readsBack : ReadsBack 1 toJson ofJson? :=
  readsBack_of_fields (fun _ => rfl) (by decide) fun _ =>
    .cons (uint16_readsBack.required (by decide)) <|
    .cons (hex_readsBack.required (by decide)) .done

/-- A register is read back. -/
theorem RawRegister.readsBack : ReadsBack 3 toJson ofJson? :=
  readsBack_of_fields (fun _ => rfl) (by decide) fun _ =>
    .cons (RawKeyPart.readsBack.list.orDefault (by decide)) <|
    .cons (hex_readsBack.required (by decide)) .done

/-- An update of the trie is read back. -/
theorem RawTrieUpdate.readsBack : ReadsBack 5 toJson ofJson? :=
  readsBack_of_fields (fun _ => rfl) (by decide) fun _ =>
    .cons (hex_readsBack.required (by decide)) <|
    .cons (hexes_readsBack.orDefault (by decide)) <|
    .cons (RawRegister.readsBack.list.orDefault (by decide)) .done

/-- The result of a transaction is read back. -/
theorem RawTransactionResult.readsBack : ReadsBack 1 toJson ofJson? :=
  readsBack_of_fields (fun _ => rfl) (by decide) fun _ =>
    .cons (hex_readsBack.required (by decide)) <|
    .cons (bool_readsBack.required (by decide)) <|
    .cons (uint64_readsBack.required (by decide)) .done

/-- A chunk is read back, with an update of the trie or without. -/
theorem RawChunk.readsBack : ReadsBack 6 toJson ofJson? :=
  readsBack_of_fields (fun _ => rfl) (by decide) fun _ =>
    .cons (RawTransaction.readsBack.list.orDefault (by decide)) <|
    .cons (RawEvent.readsBack.list.orDefault (by decide)) <|
    .cons (RawTrieUpdate.readsBack.optionalOrAbsent (by decide) rfl) <|
    .cons (RawTransactionResult.readsBack.list.orDefault (by decide)) .done

/-- The data of an execution is read back. -/
theorem RawExecution.readsBack : ReadsBack 8 toJson ofJson? :=
  readsBack_of_fields (fun _ => rfl) (by decide) fun _ =>
    .cons (hex_readsBack.required (by decide)) <|
    .cons (RawChunk.readsBack.list.orDefault (by decide)) .done

/-- The message of execution data is read back, with the data or without. -/
theorem ExecutionMessage.readsBack : ReadsBack 9 toJson ofJson? :=
  readsBack_of_fields (fun _ => rfl) (by decide) fun _ =>
    .cons (uint64_readsBack.required (by decide)) <|
    .cons (Timestamp.readsBack.required (by decide)) <|
    .cons (RawExecution.readsBack.optional (by decide) rfl) .done

end LedgerFeed
