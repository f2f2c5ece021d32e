import LedgerFeed.Proofs.Compact.Bounds
import LedgerFeed.Proofs.Compact.Grammar
import LedgerFeed.Proofs.Compact.RoundTrip

/-!
# What compact decoding accepts

Decoding accepts exactly the grammar of payloads (`decodeCompact_iff_payload`). Every reader takes
the spellings of one language off its input (`Reads`), so the law of a reader follows from those of
the readers it is made of; a reader of values that may open some number of levels takes the values
of that depth (`readValue_reads`, by induction on the levels).
-/

namespace LedgerFeed.Compact

/-! ## Readers of parts -/

/-- An item of the payload reads what the reader of items reads. -/
theorem item_reads {α : Type} {read : Cbor.Reader α} {L : α → Bytes → Prop} (h : Reads read L) :
    Reads (item read) L :=
  fun b a rest => item_eq_ok.trans (h b a rest)

/-- Lengths are read from the heads of arrays. -/
theorem readLength_reads : Reads readLength (Cbor.Head 4) := by
  intro b n rest
  rw [← Cbor.readArray_iff, ← item_eq_ok]
  constructor
  · intro h
    obtain ⟨⟨size, rest'⟩, hsize, h⟩ := bind_eq_ok.1 h
    cases size with
    | none => cases h
    | some n' =>
      cases h
      exact hsize
  · intro h
    exact bind_eq_ok.2 ⟨_, h, rfl⟩

/-- An expected length is read from the heads of arrays of that length. -/
theorem expectLength_reads (n : Nat) : Reads (expectLength n) fun _ p => Cbor.Head 4 n p := by
  rintro b ⟨⟩ rest
  rw [← readLength_reads b n rest]
  constructor
  · intro h
    obtain ⟨⟨found, rest'⟩, hfound, h⟩ := bind_eq_ok.1 h
    dsimp only at h
    split at h
    · next hn =>
      cases h
      rwa [← hn]
    · cases h
  · intro h
    exact bind_eq_ok.2 ⟨_, h, if_pos rfl⟩

/-- A part of fixed size is read from the byte strings of that size. -/
theorem readSized_reads (part : Sized) :
    Reads (readSized part) fun octets p => Cbor.Octets octets.val p := by
  rintro b ⟨octets, hlen⟩ rest
  rw [← item_reads Cbor.readBytes_reads b octets rest]
  constructor
  · intro h
    obtain ⟨⟨octets', rest'⟩, hoctets, h⟩ := bind_eq_ok.1 h
    dsimp only at h
    split at h
    · cases h
      exact hoctets
    · cases h
  · intro h
    exact bind_eq_ok.2 ⟨_, h, dif_pos hlen⟩

section
variable {α β : Type} {read : Reader α} {L : α → Bytes → Prop}

/-- A repeated reader reads so many items one behind the other. -/
theorem repeated_reads (h : Reads read L) (n : Nat) :
    Reads (repeated read n) fun as p => as.length = n ∧ InTurn L as p := by
  intro b as rest
  constructor
  · intro hb
    induction n generalizing b as with
    | zero =>
      cases hb
      exact ⟨[], ⟨rfl, .nil⟩, rfl⟩
    | succ n ih =>
      obtain ⟨⟨a, rest₁⟩, ha, hb⟩ := bind_eq_ok.1 hb
      obtain ⟨⟨as', rest₂⟩, has, hb⟩ := bind_eq_ok.1 hb
      cases hb
      obtain ⟨p, hp, rfl⟩ := (h _ _ _).1 ha
      obtain ⟨q, ⟨hlen, hq⟩, rfl⟩ := ih _ _ has
      exact ⟨p ++ q, ⟨congrArg (· + 1) hlen, .cons hp hq⟩, (List.append_assoc _ _ _).symm⟩
  · rintro ⟨p, ⟨rfl, hp⟩, rfl⟩
    induction hp with
    | nil => rfl
    | cons ha _ ih =>
      rw [List.append_assoc]
      exact bind_eq_ok.2 ⟨_, h.ok ha _, bind_eq_ok.2 ⟨_, ih, rfl⟩⟩

/-- A list is read from the arrays of its items. -/
theorem readList_reads (h : Reads read L) : Reads (readList read) (ListOf L) := by
  intro b as rest
  constructor
  · intro hb
    obtain ⟨⟨n, rest'⟩, hn, has⟩ := bind_eq_ok.1 hb
    obtain ⟨p, hp, rfl⟩ := (readLength_reads _ _ _).1 hn
    obtain ⟨q, ⟨hlen, hq⟩, rfl⟩ := (repeated_reads h n _ _ _).1 has
    rw [← hlen] at hp
    exact ⟨p ++ q, ⟨hp, hq⟩, (List.append_assoc _ _ _).symm⟩
  · rintro ⟨_, ⟨hp, hq⟩, rfl⟩
    rw [List.append_assoc]
    exact bind_eq_ok.2 ⟨_, readLength_reads.ok hp _, (repeated_reads h _).ok ⟨rfl, hq⟩ rest⟩

/-- A pair is read from the arrays of its two parts. -/
theorem readPair_reads {second : Reader β} {M : β → Bytes → Prop} (h : Reads read L)
    (h' : Reads second M) : Reads (readPair read second) (PairOf L M) := by
  rintro b ⟨x, y⟩ rest
  constructor
  · intro hb
    obtain ⟨⟨_, rest₁⟩, hlen, hb⟩ := bind_eq_ok.1 hb
    obtain ⟨⟨x', rest₂⟩, hx, hb⟩ := bind_eq_ok.1 hb
    obtain ⟨⟨y', rest₃⟩, hy, hb⟩ := bind_eq_ok.1 hb
    cases hb
    obtain ⟨l, hl, rfl⟩ := (expectLength_reads 2 _ _ _).1 hlen
    obtain ⟨p, hp, rfl⟩ := (h _ _ _).1 hx
    obtain ⟨q, hq, rfl⟩ := (h' _ _ _).1 hy
    exact ⟨l ++ p ++ q, ⟨hl, hp, hq⟩, by simp only [List.append_assoc]⟩
  · rintro ⟨_, ⟨hl, hp, hq⟩, rfl⟩
    rw [List.append_assoc, List.append_assoc]
    have hlen := (expectLength_reads 2).ok (a := ()) hl
    exact bind_eq_ok.2 ⟨_, hlen _,
      bind_eq_ok.2 ⟨_, h.ok hp _, bind_eq_ok.2 ⟨_, h'.ok hq rest, rfl⟩⟩⟩

/-- The first byte of a spelling tells it from null. -/
def ToldFromNull (L : α → Bytes → Prop) : Prop :=
  ∀ a p, L a p → ∃ x behind, p = x :: behind ∧ ∀ more, Cbor.nextIsNull (x :: more) = .ok false

/-- Null is told from an item by its first byte, if no spelling of an item is taken for null. -/
theorem readOptional_reads (h : Reads read L) (hnull : ToldFromNull L) :
    Reads (readOptional read) (OrNull L) := by
  intro b a rest
  constructor
  · intro hb
    unfold readOptional at hb
    split at hb
    · cases hb
    · obtain ⟨⟨_, rest₁⟩, hn, hb⟩ := bind_eq_ok.1 hb
      cases hb
      exact ⟨_, .null, Cbor.readNull_eq_ok.1 (item_eq_ok.1 hn)⟩
    · obtain ⟨⟨x, rest₁⟩, hx, hb⟩ := bind_eq_ok.1 hb
      cases hb
      obtain ⟨p, hp, rfl⟩ := (h _ _ _).1 hx
      exact ⟨p, .item hp, rfl⟩
  · rintro ⟨p, hp, rfl⟩
    cases hp with
    | null => rfl
    | item hp =>
      obtain ⟨x, behind, rfl, hx⟩ := hnull _ _ hp
      rw [readOptional, List.cons_append, hx]
      exact bind_eq_ok.2 ⟨_, h.ok hp rest, rfl⟩

end

/-! ## Readers of numbers -/

/-- A number between the bounds stays as it is. -/
theorem clamp_val_of_mem {lo hi n : Int} (h : lo ≤ hi) (h0 : lo ≤ n) (h1 : n ≤ hi) :
    (Bounded.clamp h n).val = n := by
  simp only [Bounded.clamp]
  omega

/-- Integers are read from the spellings of their type, if they are within its bounds. -/
theorem readInteger_reads (t : IntegerType) :
    Reads (readInteger t) fun n p => IntegerOf t n p ∧ t.lo ≤ n ∧ n ≤ t.hi := by
  intro b n rest
  constructor
  · intro h
    cases t with
    | int =>
      obtain ⟨⟨⟨octets, hlen⟩, rest'⟩, hoctets, h⟩ := bind_eq_ok.1 h
      cases h
      obtain ⟨p, hp, rfl⟩ := (readSized_reads .int _ _ _).1 hoctets
      have hlen : octets.length = 16 := hlen
      have hbounds := Bytes.toInt_bounds octets
      rw [hlen] at hbounds
      simp only [IntegerType.lo, IntegerType.hi]
      exact ⟨p, ⟨.int hlen hp, by omega, by omega⟩, rfl⟩
    | uint =>
      obtain ⟨⟨⟨octets, hlen⟩, rest'⟩, hoctets, h⟩ := bind_eq_ok.1 h
      cases h
      obtain ⟨p, hp, rfl⟩ := (readSized_reads .uint _ _ _).1 hoctets
      have hlen : octets.length = 16 := hlen
      have hlt := Bytes.toNat_lt octets
      rw [hlen] at hlt
      simp only [IntegerType.lo, IntegerType.hi]
      exact ⟨p, ⟨.uint hlen hp, by omega, by omega⟩, rfl⟩
    | int64 =>
      obtain ⟨p, ⟨hp, h0, h1⟩, rfl⟩ := (item_reads Cbor.readInt64_reads _ _ _).1 h
      simp only [IntegerType.lo, IntegerType.hi]
      exact ⟨p, ⟨.int64 hp, by omega, by omega⟩, rfl⟩
    | uint8 =>
      obtain ⟨⟨n', rest'⟩, hn, h⟩ := bind_eq_ok.1 h
      cases h
      obtain ⟨p, ⟨hp, hlt⟩, rfl⟩ := (item_reads Cbor.readUInt8_reads _ _ _).1 hn
      simp only [IntegerType.lo, IntegerType.hi]
      exact ⟨p, ⟨.uint8 hp, by omega, by omega⟩, rfl⟩
    | uint64 =>
      obtain ⟨⟨n', rest'⟩, hn, h⟩ := bind_eq_ok.1 h
      cases h
      obtain ⟨p, hp, rfl⟩ := (item_reads Cbor.readUInt64_reads _ _ _).1 hn
      have hlt := hp.lt (by decide)
      simp only [IntegerType.lo, IntegerType.hi]
      exact ⟨p, ⟨.uint64 hp, by omega, by omega⟩, rfl⟩
  · rintro ⟨p, ⟨hp, h0, h1⟩, rfl⟩
    cases hp with
    | int hlen hp =>
      have hoctets := (readSized_reads .int).ok (a := ⟨_, hlen⟩) hp rest
      exact bind_eq_ok.2 ⟨_, hoctets, rfl⟩
    | uint hlen hp =>
      have hoctets := (readSized_reads .uint).ok (a := ⟨_, hlen⟩) hp rest
      exact bind_eq_ok.2 ⟨_, hoctets, rfl⟩
    | int64 hp =>
      simp only [IntegerType.lo, IntegerType.hi] at h0 h1
      exact (item_reads Cbor.readInt64_reads).ok ⟨hp, h0, by omega⟩ rest
    | uint8 hp =>
      simp only [IntegerType.hi] at h1
      have hn := (item_reads Cbor.readUInt8_reads).ok ⟨hp, by omega⟩ rest
      exact bind_eq_ok.2 ⟨_, hn, rfl⟩
    | uint64 hp =>
      exact bind_eq_ok.2 ⟨_, (item_reads Cbor.readUInt64_reads).ok hp rest, rfl⟩

/-- Units are read from the spellings of their type, if they are within its bounds. -/
theorem readUnits_reads (t : FixedType) :
    Reads (readUnits t) fun n p => UnitsOf t n p ∧ t.lo ≤ n ∧ n ≤ t.hi := by
  intro b n rest
  constructor
  · intro h
    cases t with
    | fix64 =>
      obtain ⟨p, ⟨hp, h0, h1⟩, rfl⟩ := (item_reads Cbor.readInt64_reads _ _ _).1 h
      simp only [FixedType.lo, FixedType.hi]
      exact ⟨p, ⟨.fix64 hp, by omega, by omega⟩, rfl⟩
    | ufix64 =>
      obtain ⟨⟨n', rest'⟩, hn, h⟩ := bind_eq_ok.1 h
      cases h
      obtain ⟨p, hp, rfl⟩ := (item_reads Cbor.readUInt64_reads _ _ _).1 hn
      have hlt := hp.lt (by decide)
      simp only [FixedType.lo, FixedType.hi]
      exact ⟨p, ⟨.ufix64 hp, by omega, by omega⟩, rfl⟩
  · rintro ⟨p, ⟨hp, h0, h1⟩, rfl⟩
    cases hp with
    | fix64 hp =>
      simp only [FixedType.lo, FixedType.hi] at h0 h1
      exact (item_reads Cbor.readInt64_reads).ok ⟨hp, h0, by omega⟩ rest
    | ufix64 hp =>
      exact bind_eq_ok.2 ⟨_, (item_reads Cbor.readUInt64_reads).ok hp rest, rfl⟩

/-! ## Readers of values -/

/-- What starts with the head of a text or an array is told from null. -/
theorem toldFromNull_of_head {α : Type} {L : α → Bytes → Prop} (major : Nat) (h2 : 2 ≤ major)
    (h7 : major < 7) (h : ∀ a p, L a p → ∃ n h p', Cbor.Head major n h ∧ p = h ++ p') :
    ToldFromNull L := by
  intro a p hp
  obtain ⟨n, h, p', hh, rfl⟩ := h a p hp
  obtain ⟨x, behind, rfl, rfl, hcode, -⟩ := hh.isHead (Nat.lt_succ_of_lt h7)
  exact ⟨x, behind ++ p', rfl, Cbor.nextIsNull_cons h2 h7 hcode⟩

/-- No text starts like null. -/
theorem text_toldFromNull : ToldFromNull Cbor.Text := by
  refine toldFromNull_of_head 3 (by decide) (by decide) ?_
  rintro s p ⟨h⟩
  exact ⟨_, _, _, h, rfl⟩

/-- No value starts like null. -/
theorem spells_toldFromNull : ToldFromNull Spells := by
  refine toldFromNull_of_head 4 (by decide) (by decide) ?_
  rintro v p ⟨⟨h, -⟩, -⟩
  exact ⟨_, _, _, h, by rw [List.append_assoc]⟩

/-- A reader of values inside a value makes one of the value, behind its code. -/
theorem readBody_reads {read : Reader Value} {L : Value → Bytes → Prop} (h : Reads read L)
    (hnull : ToldFromNull L) (k : Kind) : Reads (readBody read k) (Body L k) := by
  have htext := item_reads Cbor.readText_reads
  intro b v rest
  constructor
  · intro hb
    cases k with
    | void =>
      cases hb
      exact ⟨[], .void, rfl⟩
    | optional =>
      obtain ⟨⟨content, rest'⟩, hcontent, hb⟩ := bind_eq_ok.1 hb
      cases hb
      obtain ⟨p, hp, rfl⟩ := (readOptional_reads h hnull _ _ _).1 hcontent
      cases content with
      | none => exact ⟨p, .absent hp, rfl⟩
      | some v => exact ⟨p, .present hp, rfl⟩
    | bool =>
      obtain ⟨⟨v, rest'⟩, hv, hb⟩ := bind_eq_ok.1 hb
      cases hb
      obtain ⟨p, hp, rfl⟩ := (item_reads Cbor.readBool_reads _ _ _).1 hv
      exact ⟨p, .bool hp, rfl⟩
    | text =>
      obtain ⟨⟨s, rest'⟩, hs, hb⟩ := bind_eq_ok.1 hb
      cases hb
      obtain ⟨p, hp, rfl⟩ := (htext _ _ _).1 hs
      exact ⟨p, .text hp, rfl⟩
    | address =>
      obtain ⟨⟨octets, rest'⟩, hoctets, hb⟩ := bind_eq_ok.1 hb
      cases hb
      obtain ⟨p, hp, rfl⟩ := (readSized_reads .address _ _ _).1 hoctets
      exact ⟨p, .address hp, rfl⟩
    | integer t =>
      obtain ⟨⟨n, rest'⟩, hn, hb⟩ := bind_eq_ok.1 hb
      cases hb
      obtain ⟨p, ⟨hp, h0, h1⟩, rfl⟩ := (readInteger_reads t _ _ _).1 hn
      rw [← clamp_val_of_mem t.lo_le_hi h0 h1] at hp
      exact ⟨p, .integer hp, rfl⟩
    | fixed t =>
      obtain ⟨⟨n, rest'⟩, hn, hb⟩ := bind_eq_ok.1 hb
      cases hb
      obtain ⟨p, ⟨hp, h0, h1⟩, rfl⟩ := (readUnits_reads t _ _ _).1 hn
      rw [← clamp_val_of_mem t.lo_le_hi h0 h1] at hp
      exact ⟨p, .fixed hp, rfl⟩
    | array =>
      obtain ⟨⟨items, rest'⟩, hitems, hb⟩ := bind_eq_ok.1 hb
      cases hb
      obtain ⟨p, hp, rfl⟩ := (readList_reads h _ _ _).1 hitems
      exact ⟨p, .array hp, rfl⟩
    | dictionary =>
      obtain ⟨⟨entries, rest'⟩, hentries, hb⟩ := bind_eq_ok.1 hb
      cases hb
      obtain ⟨p, hp, rfl⟩ := (readList_reads (readPair_reads h h) _ _ _).1 hentries
      exact ⟨p, .dictionary hp, rfl⟩
    | composite k =>
      obtain ⟨⟨typeId, rest₁⟩, htypeId, hb⟩ := bind_eq_ok.1 hb
      obtain ⟨⟨fields, rest₂⟩, hfields, hb⟩ := bind_eq_ok.1 hb
      cases hb
      obtain ⟨p, hp, rfl⟩ := (htext _ _ _).1 htypeId
      obtain ⟨q, hq, rfl⟩ := (readList_reads (readPair_reads htext h) _ _ _).1 hfields
      exact ⟨p ++ q, .composite hp hq, (List.append_assoc _ _ _).symm⟩
    | path =>
      obtain ⟨⟨domain, rest₁⟩, hdomain, hb⟩ := bind_eq_ok.1 hb
      obtain ⟨⟨identifier, rest₂⟩, hidentifier, hb⟩ := bind_eq_ok.1 hb
      cases hb
      obtain ⟨p, hp, rfl⟩ := (htext _ _ _).1 hdomain
      obtain ⟨q, hq, rfl⟩ := (htext _ _ _).1 hidentifier
      exact ⟨p ++ q, .path hp hq, (List.append_assoc _ _ _).symm⟩
    | type =>
      obtain ⟨⟨kind, rest₁⟩, hkind, hb⟩ := bind_eq_ok.1 hb
      obtain ⟨⟨typeId, rest₂⟩, htypeId, hb⟩ := bind_eq_ok.1 hb
      cases hb
      obtain ⟨p, hp, rfl⟩ := (htext _ _ _).1 hkind
      obtain ⟨q, hq, rfl⟩ := (readOptional_reads htext text_toldFromNull _ _ _).1 htypeId
      exact ⟨p ++ q, .type hp hq, (List.append_assoc _ _ _).symm⟩
  · rintro ⟨p, hp, rfl⟩
    cases hp with
    | void => rfl
    | absent hp =>
      exact bind_eq_ok.2 ⟨_, (readOptional_reads h hnull).ok hp rest, rfl⟩
    | present hp =>
      exact bind_eq_ok.2 ⟨_, (readOptional_reads h hnull).ok hp rest, rfl⟩
    | bool hp => exact bind_eq_ok.2 ⟨_, (item_reads Cbor.readBool_reads).ok hp rest, rfl⟩
    | text hp => exact bind_eq_ok.2 ⟨_, htext.ok hp rest, rfl⟩
    | @address a _ hp =>
      have ha := (readSized_reads .address).ok (a := ⟨a.octets, a.size⟩) hp rest
      exact bind_eq_ok.2 ⟨_, ha, rfl⟩
    | @integer t n _ hp =>
      have hn := (readInteger_reads t).ok ⟨hp, n.lo_le, n.le_hi⟩ rest
      refine bind_eq_ok.2 ⟨_, hn, ?_⟩
      simp only [Bounded.clamp_val]
      rfl
    | @fixed t n _ hp =>
      have hn := (readUnits_reads t).ok ⟨hp, n.lo_le, n.le_hi⟩ rest
      refine bind_eq_ok.2 ⟨_, hn, ?_⟩
      simp only [Bounded.clamp_val]
      rfl
    | array hp => exact bind_eq_ok.2 ⟨_, (readList_reads h).ok hp rest, rfl⟩
    | dictionary hp =>
      exact bind_eq_ok.2 ⟨_, (readList_reads (readPair_reads h h)).ok hp rest, rfl⟩
    | composite hp hq =>
      rw [List.append_assoc]
      have hfields := (readList_reads (readPair_reads htext h)).ok hq rest
      exact bind_eq_ok.2 ⟨_, htext.ok hp _, bind_eq_ok.2 ⟨_, hfields, rfl⟩⟩
    | path hp hq =>
      rw [List.append_assoc]
      exact bind_eq_ok.2 ⟨_, htext.ok hp _, bind_eq_ok.2 ⟨_, htext.ok hq rest, rfl⟩⟩
    | type hp hq =>
      rw [List.append_assoc]
      have htypeId := (readOptional_reads htext text_toldFromNull).ok hq rest
      exact bind_eq_ok.2 ⟨_, htext.ok hp _, bind_eq_ok.2 ⟨_, htypeId, rfl⟩⟩

/-! ## Values and payloads -/

/-- The code and the arity of a kind are those of the grammar. -/
theorem form_eq (k : Kind) : form k = (k.code, arity k) := by
  rcases k with _ | _ | _ | _ | _ | t | t | _ | _ | t | _ | _ <;> (try cases t) <;> rfl

/-- Behind its array and its code a value is read by its kind. -/
theorem readValue_opens {k : Kind} {h : Bytes} (hk : Opens k h) (levels : Nat) (q : Bytes) :
    readValue (levels + 1) (h ++ q) = readBody (readValue levels) k q := by
  obtain ⟨ha, hc⟩ := hk
  rw [form_eq] at ha hc
  have hsize := readLength_reads.ok ha
  have hcode := (item_reads Cbor.readUInt8_reads).ok ⟨hc, code_lt k⟩ q
  rw [List.append_assoc, readValue, hsize]
  simp only [bind, Except.bind, if_neg (arity_bounds k).1, hcode, Kind.ofCode?_code, if_true]

/-- A value is read by its array, its code, and what is behind the code. -/
theorem readValue_succ_iff {levels : Nat} {b rest : Bytes} {v : Value} :
    readValue (levels + 1) b = .ok (v, rest) ↔
      ∃ k h q, Opens k h ∧ b = h ++ q ∧ readBody (readValue levels) k q = .ok (v, rest) := by
  constructor
  · intro h
    obtain ⟨⟨size, rest₁⟩, hsize, h⟩ := bind_eq_ok.1 h
    dsimp only at h
    split at h
    · cases h
    obtain ⟨⟨code, rest₂⟩, hcode, hbody⟩ := bind_eq_ok.1 h
    dsimp only at hbody
    split at hbody
    · cases hbody
    next k hk =>
    split at hbody
    · next harity =>
      obtain ⟨a, ha, rfl⟩ := (readLength_reads _ _ _).1 hsize
      obtain ⟨c, ⟨hc, -⟩, rfl⟩ := (item_reads Cbor.readUInt8_reads _ _ _).1 hcode
      rw [Kind.ofCode?_eq_some_iff] at hk
      have hopens : Opens k (a ++ c) := ⟨by rwa [form_eq, ← harity], by rwa [form_eq, ← hk]⟩
      exact ⟨k, _, rest₂, hopens, (List.append_assoc _ _ _).symm, hbody⟩
    · cases hbody
  · rintro ⟨k, h, q, hk, rfl, hq⟩
    rwa [readValue_opens hk]

/-- A reader that may open some number of levels reads the values of that depth. -/
theorem readValue_reads (levels : Nat) : Reads (readValue levels) (UpTo levels Spells) := by
  induction levels with
  | zero =>
    intro b v rest
    constructor
    · intro h
      cases h
    · rintro ⟨p, hp, -⟩
      exact absurd hp.2 (Nat.not_le.2 v.depth_pos)
  | succ levels ih =>
    have hbody := readBody_reads ih fun v p h => spells_toldFromNull v p h.1
    intro b v rest
    rw [readValue_succ_iff]
    constructor
    · rintro ⟨k, h, q, hk, rfl, hq⟩
      obtain ⟨p, hp, rfl⟩ := (hbody k _ _ _).1 hq
      obtain ⟨hp, hd⟩ := body_upTo_iff.1 hp
      exact ⟨h ++ p, ⟨⟨hk, hp⟩, hd⟩, (List.append_assoc _ _ _).symm⟩
    · rintro ⟨_, ⟨⟨hk, hp⟩, hd⟩, rfl⟩
      have hq := (hbody _).ok (body_upTo_iff.2 ⟨hp, hd⟩) rest
      exact ⟨_, _, _, hk, List.append_assoc _ _ _, hq⟩

/-- What stands in front of the value of a payload. -/
theorem readHeader_reads : Reads readHeader fun _ p =>
    ∃ t a n, Cbor.Head 6 130 t ∧ Cbor.Head 4 2 a ∧ Cbor.Head 0 0 n ∧ p = t ++ a ++ n := by
  rintro b ⟨⟩ rest
  constructor
  · intro h
    obtain ⟨⟨found, rest₁⟩, htag, h⟩ := bind_eq_ok.1 h
    dsimp only at h
    split at h
    · cases h
    next hfound =>
    obtain rfl := Decidable.of_not_not hfound
    obtain ⟨⟨_, rest₂⟩, hlength, h⟩ := bind_eq_ok.1 h
    obtain ⟨⟨v, rest₃⟩, hv, h⟩ := bind_eq_ok.1 h
    dsimp only at h
    split at h
    · next hversion =>
      cases h
      obtain ⟨t, ht, rfl⟩ := (item_reads Cbor.readTag_reads _ _ _).1 htag
      obtain ⟨a, ha, rfl⟩ := (expectLength_reads 2 _ _ _).1 hlength
      obtain ⟨n, hn, rfl⟩ := (item_reads Cbor.readUInt64_reads _ _ _).1 hv
      rw [hversion] at hn
      exact ⟨t ++ a ++ n, ⟨t, a, n, ht, ha, hn, rfl⟩, by simp only [List.append_assoc]⟩
    · cases h
  · rintro ⟨_, ⟨t, a, n, ht, ha, hn, rfl⟩, rfl⟩
    have htag := (item_reads Cbor.readTag_reads).ok ht
    have hlength := (expectLength_reads 2).ok (a := ()) ha
    have hversion := (item_reads Cbor.readUInt64_reads).ok hn rest
    rw [List.append_assoc, List.append_assoc]
    refine bind_eq_ok.2 ⟨_, htag _, bind_eq_ok.2 ⟨_, hlength _, bind_eq_ok.2 ⟨_, hversion, ?_⟩⟩⟩
    rfl

/-- The decoder accepts the payloads of a value and nothing else. -/
theorem decode_eq_ok_iff {p : Bytes} {v : Value} : decode p = .ok v ↔ Payload v p := by
  unfold decode
  constructor
  · intro h
    split at h
    · cases h
    obtain ⟨⟨_, rest₁⟩, hheader, h⟩ := bind_eq_ok.1 h
    obtain ⟨⟨v', rest₂⟩, hv, h⟩ := bind_eq_ok.1 h
    dsimp only at h
    split at h
    · next hend =>
      cases h
      obtain ⟨_, ⟨t, a, n, ht, ha, hn, rfl⟩, rfl⟩ := (readHeader_reads _ _ _).1 hheader
      obtain ⟨q, ⟨hq, hd⟩, rfl⟩ := (readValue_reads _ _ _ _).1 hv
      rw [List.isEmpty_iff.1 hend, List.append_nil]
      exact ⟨ht, ha, hn, hq, hd⟩
    · cases h
  · rintro ⟨ht, ha, hn, hp, hd⟩
    have hheader := readHeader_reads.ok (a := ()) ⟨_, _, _, ht, ha, hn, rfl⟩
    have hv := (readValue_reads Value.maxDepth).ok ⟨hp, hd⟩ []
    rw [List.append_nil] at hv
    rw [if_neg (by simp [ht.ne_nil])]
    exact bind_eq_ok.2 ⟨_, hheader _, bind_eq_ok.2 ⟨_, hv, rfl⟩⟩

end LedgerFeed.Compact

namespace LedgerFeed.Codec

/-- Compact decoding gives a value just if the decoder behind it does. -/
theorem decodeCompact_eq_ok {p : Bytes} {v : Value} :
    decodeCompact p = .ok v ↔ Compact.decode p = .ok v := by
  unfold decodeCompact
  split
  · next h => simp [h]
  · next h => simp [h]

/-- Compact decoding accepts the payloads of the grammar and nothing else: a byte string decodes to
a value just if it is a payload of the value. -/
theorem decodeCompact_iff_payload (p : Bytes) (v : Value) :
    decodeCompact p = .ok v ↔ Compact.Payload v p :=
  decodeCompact_eq_ok.trans Compact.decode_eq_ok_iff

end LedgerFeed.Codec
