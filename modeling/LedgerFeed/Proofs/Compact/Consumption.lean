import LedgerFeed.Proofs.Compact.Lengths
import LedgerFeed.Proofs.Compact.Shortest
import LedgerFeed.Proofs.Value.Size

/-!
# What compact decoding consumes

A payload may declare any number of items, so the loops of the decoder are bounded by the input that
is left and not by the count: a reader that takes bytes off its input whenever it succeeds
(`Shortens`) goes through no more rounds than there are bytes, and one that fails. The readers of
values, entries and fields are of that kind. What is built is paid for: two bytes for each value,
behind four for the header (`decodeCompact_pays`).
-/

namespace LedgerFeed.Compact

/-! ## Loops -/

section
variable {α β : Type} {read : Reader α} {L : α → Bytes → Prop}

/-- A reader takes bytes off its input whenever it succeeds. -/
def Shortens (read : Reader α) : Prop :=
  ∀ b a rest, read b = .ok (a, rest) → rest.length < b.length

/-- A reader of spellings that are not empty takes bytes off its input. -/
theorem shortens_of_reads (h : Reads read L) (hne : ∀ a p, L a p → p ≠ []) : Shortens read := by
  intro b a rest hb
  obtain ⟨p, hp, rfl⟩ := (h b a rest).1 hb
  have hpos := List.length_pos_iff.2 (hne a p hp)
  rw [List.length_append]
  omega

/-- Two counts that are both beyond the input come to the same. -/
theorem repeated_of_length_lt (h : Shortens read) {m n : Nat} {b : Bytes} (hm : b.length < m)
    (hn : b.length < n) : repeated read m b = repeated read n b := by
  induction m generalizing n b with
  | zero => exact absurd hm (Nat.not_lt_zero _)
  | succ m ih =>
    cases n with
    | zero => exact absurd hn (Nat.not_lt_zero _)
    | succ n =>
      rw [repeated, repeated]
      cases hread : read b with
      | error e => rfl
      | ok r =>
        obtain ⟨a, rest⟩ := r
        have hlt := h b a rest hread
        have hrest : repeated read m rest = repeated read n rest := ih (by omega) (by omega)
        simp only [bind, Except.bind, hrest]

/-- A loop over a declared count comes to the same as one with a round for each byte of the input
and one more, if that is less. -/
theorem repeated_min (h : Shortens read) (n : Nat) (b : Bytes) :
    repeated read n b = repeated read (min n (b.length + 1)) b := by
  by_cases hn : n ≤ b.length + 1
  · rw [Nat.min_eq_left hn]
  · rw [Nat.min_eq_right (by omega)]
    exact repeated_of_length_lt h (by omega) (by omega)

/-- More items than there are bytes are not read. -/
theorem repeated_overdrawn (h : Shortens read) {n : Nat} {b : Bytes} (hn : b.length < n) :
    ∃ e, repeated read n b = .error e := by
  induction n generalizing b with
  | zero => exact absurd hn (Nat.not_lt_zero _)
  | succ n ih =>
    rw [repeated]
    cases hread : read b with
    | error e => exact ⟨e, rfl⟩
    | ok r =>
      obtain ⟨a, rest⟩ := r
      have hlt := h b a rest hread
      obtain ⟨e, he⟩ := ih (b := rest) (by omega)
      exact ⟨e, by simp only [bind, Except.bind, he]⟩

/-- However many rounds of a reader are declared, a loop over it ends with its input. -/
structure EndsWithInput (read : Reader α) : Prop where
  shortens : Shortens read
  rounds : ∀ n b, repeated read n b = repeated read (min n (b.length + 1)) b
  overdrawn : ∀ n b, b.length < n → ∃ e, repeated read n b = .error e

/-- A loop over a reader that takes bytes off its input ends with the input. -/
theorem Shortens.endsWithInput (h : Shortens read) : EndsWithInput read :=
  ⟨h, repeated_min h, fun _ _ => repeated_overdrawn h⟩

end

/-! ## The readers of the loops -/

/-- No value is spelled by nothing. -/
theorem Spells.ne_nil {v : Value} {p : Bytes} (h : Spells v p) : p ≠ [] := by
  obtain ⟨⟨ha, -⟩, -⟩ := h
  simp [ha.ne_nil]

/-- No pair is spelled by nothing. -/
theorem PairOf.ne_nil {α β : Type} {L : α → Bytes → Prop} {M : β → Bytes → Prop} {e : α × β}
    {p : Bytes} (h : PairOf L M e p) : p ≠ [] := by
  obtain ⟨hh, -, -⟩ := h
  simp [hh.ne_nil]

/-- A reader of pairs takes bytes off its input. -/
theorem readPair_shortens {α β : Type} {first : Reader α} {second : Reader β}
    {L : α → Bytes → Prop} {M : β → Bytes → Prop} (h : Reads first L) (h' : Reads second M) :
    Shortens (readPair first second) :=
  shortens_of_reads (readPair_reads h h') fun _ _ => PairOf.ne_nil

/-! ## Two bytes a value -/

/-- The head of the array and the code take two bytes at least. -/
theorem two_le_length_writeKind (k : Kind) : 2 ≤ (writeKind k).length := by
  have ha : 0 < (Cbor.writeArray (arity k)).length := length_head_pos 4 _
  have hc : 0 < (Cbor.writeNat k.code).length := length_head_pos 0 _
  rw [writeKind, List.length_append]
  omega

/-- Every value takes two bytes at least. -/
theorem two_le_length_write (v : Value) : 2 ≤ (write v).length := by
  obtain ⟨elements, h⟩ := write_eq v
  have hk := two_le_length_writeKind v.kind
  rw [h, List.length_append]
  omega

/-- What is counted of items is no more than their bytes, if it is so for each. -/
theorem two_mul_sum_le_flatMap {α : Type} {count : α → Nat} {write : α → Bytes} {items : List α}
    (h : ∀ a ∈ items, 2 * count a ≤ (write a).length) :
    2 * (items.map count).sum ≤ (items.flatMap write).length := by
  induction items with
  | nil => exact Nat.le_refl 0
  | cons a items ih =>
    obtain ⟨ha, hitems⟩ := List.forall_mem_cons.1 h
    have hrest := ih hitems
    rw [List.map_cons, List.sum_cons, List.flatMap_cons, List.length_append]
    omega

/-- The bytes of a value are two for each value it is made of, or more: the array and the code. -/
theorem two_mul_nodes_le (v : Value) : 2 * v.nodes ≤ (write v).length := by
  induction v with
  | void | absent | bool | text | address | integer | fixed | path | type =>
    exact two_le_length_write _
  | present content ih =>
    have hk := two_le_length_writeKind .optional
    rw [Value.nodes, write, List.length_append]
    omega
  | array items ih =>
    have hk := two_le_length_writeKind .array
    have hitems := two_mul_sum_le_flatMap ih
    rw [Value.nodes, Value.nodesOfItems_eq, write, writeItems_eq, List.length_append,
      List.length_append]
    omega
  | dictionary entries ih =>
    have hk := two_le_length_writeKind .dictionary
    have hentries : ∀ e ∈ entries, 2 * (e.1.nodes + e.2.nodes) ≤ (writeEntry e).length := by
      intro e he
      obtain ⟨hkey, hvalue⟩ := ih e he
      rw [writeEntry, List.length_append, List.length_append]
      omega
    have hsum := two_mul_sum_le_flatMap hentries
    rw [Value.nodes, Value.nodesOfEntries_eq, write, writeEntries_eq, List.length_append,
      List.length_append]
    omega
  | composite k typeId fields ih =>
    have hk := two_le_length_writeKind (.composite k)
    have hfields : ∀ f ∈ fields, 2 * f.2.nodes ≤ (writeField f).length := by
      intro f hf
      have hvalue := ih f hf
      rw [writeField, List.length_append, List.length_append]
      omega
    have hsum := two_mul_sum_le_flatMap hfields
    rw [Value.nodes, Value.nodesOfFields_eq, write, writeFields_eq, List.length_append,
      List.length_append, List.length_append]
    omega

end LedgerFeed.Compact

namespace LedgerFeed.Codec

open LedgerFeed.Compact

/-- At every level, what is read of a value, an entry or a field is at least a byte, so that a loop
over however many of them are declared ends with its input. A payload that decodes has four bytes,
and two more for each value that its value is made of. -/
theorem decodeCompact_pays :
    (∀ levels, EndsWithInput (readValue levels) ∧
      EndsWithInput (readPair (readValue levels) (readValue levels)) ∧
      EndsWithInput (readPair (item Cbor.readText) (readValue levels))) ∧
    ∀ p v, decodeCompact p = .ok v → 4 + 2 * v.nodes ≤ p.length := by
  refine ⟨?_, ?_⟩
  · intro levels
    have hvalue := readValue_reads levels
    refine ⟨?_, ?_, ?_⟩
    · exact (shortens_of_reads hvalue fun _ _ h => h.1.ne_nil).endsWithInput
    · exact (readPair_shortens hvalue hvalue).endsWithInput
    · exact (readPair_shortens (item_reads Cbor.readText_reads) hvalue).endsWithInput
  · intro p v h
    have hp := Compact.decode_eq_ok_iff.1 (decodeCompact_eq_ok.1 h)
    have hshort := (payload_undercuts hp).length_le
    have hheader : header.length = 4 := rfl
    have hnodes := two_mul_nodes_le v
    rw [List.length_append] at hshort
    omega

/-- An array that declares the most items there can be and holds two is refused; void values have
no byte to spare. -/
theorem decodeCompact_pays_void :
    let p : Bytes := [0xd8, 0x82, 0x82, 0, 0x81, 0]
    (∃ e, repeated (readValue 63) (2 ^ 64 - 1) [0x81, 0, 0x81, 0] = .error e) ∧
      decodeCompact p = .ok .void ∧ 4 + 2 * Value.void.nodes ≤ p.length := by
  intro p
  have hp : decodeCompact p = .ok .void := rfl
  have hloop := (decodeCompact_pays.1 63).1.overdrawn
  exact ⟨hloop _ _ (by decide), hp, decodeCompact_pays.2 p .void hp⟩

end LedgerFeed.Codec
