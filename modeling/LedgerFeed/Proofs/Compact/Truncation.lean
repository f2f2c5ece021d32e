import LedgerFeed.Proofs.Cbor.Truncation
import LedgerFeed.Proofs.Compact.Acceptance

/-!
# Compact payloads cut off

A payload that is cut off anywhere runs out of input before anything else is wrong with it, and a
payload with bytes behind it is read to its end first. Of the readers of parts this is said by
`Starves`, over the languages of the grammar; each law follows from those of the readers it is made
of, as the laws of acceptance do.
-/

namespace LedgerFeed.Compact

/-! ## Parts cut off -/

/-- An item that is cut off has the same fault inside a payload. -/
theorem item_starves {α : Type} {read : Cbor.Reader α} {L : α → Bytes → Prop} {e : Cbor.Fault}
    (hs : Starves read L e) : Starves (item read) L (.item e) := by
  intro a p q hp hq
  rw [item, hs a p q hp hq]

/-- A cut length leaves its reader without input. -/
theorem readLength_starves : Starves readLength (Cbor.Head 4) (.item .endOfInput) := by
  intro n p q hp hq
  exact (item_starves Cbor.readArray_starves).bind_error ⟨n, rfl, hp⟩ hq _

/-- A cut head of an expected length leaves its reader without input. -/
theorem expectLength_starves (n : Nat) :
    Starves (expectLength n) (fun _ p => Cbor.Head 4 n p) (.item .endOfInput) := by
  intro _ p q hp hq
  exact readLength_starves.bind_error hp hq _

/-- A cut part of fixed size leaves its reader without input. -/
theorem readSized_starves (part : Sized) :
    Starves (readSized part) (fun octets p => Cbor.Octets octets.val p) (.item .endOfInput) := by
  intro octets p q hp hq
  exact (item_starves Cbor.readBytes_starves).bind_error hp hq _

section
variable {α β : Type} {read : Reader α} {L : α → Bytes → Prop} {e : Fault}

/-- Items that are cut off have the fault of the one that the cut is in. -/
theorem repeated_starves (h : Reads read L) (hs : Starves read L e) (n : Nat) :
    Starves (repeated read n) (fun as p => as.length = n ∧ InTurn L as p) e := by
  rintro as p q ⟨rfl, hp⟩ hq
  induction hp generalizing q with
  | nil => exact absurd hq (isCut_nil q)
  | cons ha _ ih =>
    refine hs.bind h ha hq ?_
    intro q' hq'
    dsimp only
    rw [ih q' hq']
    rfl

/-- A cut list leaves its reader without input, in its head or in an item. -/
theorem readList_starves (h : Reads read L) (hs : Starves read L (.item .endOfInput)) :
    Starves (readList read) (ListOf L) (.item .endOfInput) := by
  rintro as p q ⟨hh, hp⟩ hq
  refine readLength_starves.bind readLength_reads hh hq ?_
  intro q' hq'
  exact repeated_starves h hs _ as _ q' ⟨rfl, hp⟩ hq'

/-- A cut pair leaves its reader without input, in its head or in a part. -/
theorem readPair_starves {second : Reader β} {M : β → Bytes → Prop} (h : Reads read L)
    (hs : Starves read L (.item .endOfInput)) (hs' : Starves second M (.item .endOfInput)) :
    Starves (readPair read second) (PairOf L M) (.item .endOfInput) := by
  rintro _ _ q ⟨hl, hp, hp'⟩ hq
  rw [List.append_assoc] at hq
  refine (expectLength_starves 2).bind (expectLength_reads 2) (a := ()) hl hq ?_
  intro q hq
  refine hs.bind h hp hq ?_
  intro q hq
  exact hs'.bind_error hp' hq _

/-- The first byte of an item that is cut off is still told from null. -/
theorem readOptional_starves (hnull : ToldFromNull L) (hs : Starves read L (.item .endOfInput)) :
    Starves (readOptional read) (OrNull L) (.item .endOfInput) := by
  intro a p q hp hq
  cases hp with
  | null =>
    rw [isCut_singleton hq]
    rfl
  | item hp =>
    obtain ⟨x, behind, rfl, hx⟩ := hnull _ _ hp
    rcases isCut_cons hq with rfl | ⟨q', rfl, -⟩
    · rfl
    · rw [readOptional, hx]
      exact hs.bind_error hp hq _

end

/-! ## Numbers cut off -/

/-- A cut integer leaves its reader without input. -/
theorem readInteger_starves (t : IntegerType) :
    Starves (readInteger t) (fun n p => IntegerOf t n p ∧ t.lo ≤ n ∧ n ≤ t.hi)
      (.item .endOfInput) := by
  rintro n p q ⟨hp, h0, h1⟩ hq
  cases hp with
  | int hlen hp => exact (readSized_starves .int).bind_error (a := ⟨_, hlen⟩) hp hq _
  | uint hlen hp => exact (readSized_starves .uint).bind_error (a := ⟨_, hlen⟩) hp hq _
  | int64 hp =>
    simp only [IntegerType.lo, IntegerType.hi] at h0 h1
    exact item_starves Cbor.readInt64_starves n p q ⟨hp, h0, by omega⟩ hq
  | uint8 hp =>
    simp only [IntegerType.hi] at h1
    exact (item_starves Cbor.readUInt8_starves).bind_error ⟨hp, by omega⟩ hq _
  | uint64 hp => exact (item_starves Cbor.readUInt64_starves).bind_error hp hq _

/-- A cut number of units leaves its reader without input. -/
theorem readUnits_starves (t : FixedType) :
    Starves (readUnits t) (fun n p => UnitsOf t n p ∧ t.lo ≤ n ∧ n ≤ t.hi)
      (.item .endOfInput) := by
  rintro n p q ⟨hp, h0, h1⟩ hq
  cases hp with
  | fix64 hp =>
    simp only [FixedType.lo, FixedType.hi] at h0 h1
    exact item_starves Cbor.readInt64_starves n p q ⟨hp, h0, by omega⟩ hq
  | ufix64 hp => exact (item_starves Cbor.readUInt64_starves).bind_error hp hq _

/-! ## Values cut off -/

/-- A cut body of any kind leaves its reader without input. -/
theorem readBody_starves {read : Reader Value} {L : Value → Bytes → Prop} (h : Reads read L)
    (hnull : ToldFromNull L) (hs : Starves read L (.item .endOfInput)) (k : Kind) :
    Starves (readBody read k) (Body L k) (.item .endOfInput) := by
  have htext := item_reads Cbor.readText_reads
  have hstext := item_starves Cbor.readText_starves
  intro v p q hp hq
  cases hp with
  | void => exact absurd hq (isCut_nil q)
  | absent hp | present hp => exact (readOptional_starves hnull hs).bind_error hp hq _
  | bool hp => exact (item_starves Cbor.readBool_starves).bind_error hp hq _
  | text hp => exact hstext.bind_error hp hq _
  | @address a _ hp =>
    exact (readSized_starves .address).bind_error (a := ⟨a.octets, a.size⟩) hp hq _
  | @integer t n _ hp => exact (readInteger_starves t).bind_error ⟨hp, n.lo_le, n.le_hi⟩ hq _
  | @fixed t n _ hp => exact (readUnits_starves t).bind_error ⟨hp, n.lo_le, n.le_hi⟩ hq _
  | array hp => exact (readList_starves h hs).bind_error hp hq _
  | dictionary hp =>
    exact (readList_starves (readPair_reads h h) (readPair_starves h hs hs)).bind_error hp hq _
  | composite hp hp' =>
    have hfields := readList_starves (readPair_reads htext h) (readPair_starves htext hstext hs)
    refine hstext.bind htext hp hq ?_
    intro q' hq'
    exact hfields.bind_error hp' hq' _
  | path hp hp' =>
    refine hstext.bind htext hp hq ?_
    intro q' hq'
    exact hstext.bind_error hp' hq' _
  | type hp hp' =>
    refine hstext.bind htext hp hq ?_
    intro q' hq'
    exact (readOptional_starves text_toldFromNull hstext).bind_error hp' hq' _

/-- A cut value leaves its reader without input, wherever the cut is. -/
theorem readValue_starves (levels : Nat) :
    Starves (readValue levels) (UpTo levels Spells) (.item .endOfInput) := by
  induction levels with
  | zero =>
    rintro v p q ⟨-, hd⟩
    exact absurd hd (Nat.not_le.2 v.depth_pos)
  | succ levels ih =>
    have hbody := readBody_starves (readValue_reads levels)
      (fun v p h => spells_toldFromNull v p h.1) ih
    rintro v p q ⟨⟨hk, hp⟩, hd⟩ hq
    -- cut off before the body, the kind is not known yet; behind the code the body is cut off
    rcases isCut_append hq with hq | ⟨q', rfl, hq'⟩
    · obtain ⟨ha, hc⟩ := hk
      rw [form_eq] at ha hc
      refine readLength_starves.bind readLength_reads ha hq ?_
      intro q' hq'
      dsimp only
      rw [if_neg (arity_bounds _).1]
      exact (item_starves Cbor.readUInt8_starves).bind_error ⟨hc, code_lt _⟩ hq' _
    · rw [readValue_opens hk]
      exact hbody _ v _ q' (body_upTo_iff.2 ⟨hp, hd⟩) hq'

/-- A cut header leaves its reader without input. -/
theorem readHeader_starves :
    Starves readHeader (fun _ p => ∃ t a n, Cbor.Head 6 130 t ∧ Cbor.Head 4 2 a ∧
      Cbor.Head 0 0 n ∧ p = t ++ a ++ n) (.item .endOfInput) := by
  rintro _ _ q ⟨t, a, n, ht, ha, hn, rfl⟩ hq
  rw [List.append_assoc] at hq
  refine (item_starves Cbor.readTag_starves).bind (item_reads Cbor.readTag_reads) ht hq ?_
  intro q hq
  dsimp only
  rw [if_neg (by decide)]
  refine (expectLength_starves 2).bind (expectLength_reads 2) (a := ()) ha hq ?_
  intro q hq
  exact (item_starves Cbor.readUInt64_starves).bind_error hn hq _

/-- A payload that is cut off, but not down to nothing, runs out of input. -/
theorem decode_of_isCut {v : Value} {p q : Bytes} (hp : Payload v p) (hq : IsCut q p)
    (hne : q ≠ []) : decode q = .error (.item .endOfInput) := by
  obtain ⟨ht, ha, hn, hp, hd⟩ := hp
  rw [decode, if_neg (by simpa using hne)]
  refine readHeader_starves.bind readHeader_reads (a := ()) ⟨_, _, _, ht, ha, hn, rfl⟩ hq ?_
  intro q' hq'
  exact (readValue_starves Value.maxDepth).bind_error ⟨hp, hd⟩ hq' _

/-- What stands behind a payload is counted. -/
theorem decode_append {v : Value} {p s : Bytes} (hp : Payload v p) (hs : s ≠ []) :
    decode (p ++ s) = .error (.trailing s.length) := by
  obtain ⟨ht, ha, hn, hp, hd⟩ := hp
  have hheader := readHeader_reads.ok (a := ()) ⟨_, _, _, ht, ha, hn, rfl⟩
  have hv := (readValue_reads Value.maxDepth).ok ⟨hp, hd⟩ s
  have hne : s.isEmpty = false := by simpa using hs
  rw [decode, if_neg (by simp [ht.ne_nil]), List.append_assoc, hheader]
  simp only [bind, Except.bind, hv, hne, Bool.false_eq_true, if_false]

end LedgerFeed.Compact

namespace LedgerFeed.Codec

/-- The byte string is refused as a malformed compact payload, for the given reason. -/
def RefusedFor (p : Bytes) (reason : String) : Prop :=
  ∃ e, decodeCompact p = .error e ∧ e.isMalformed = true ∧ e.encoding = .compact ∧
    e.reason = reason

/-- A fault of the decoder is the reason why the payload is refused. -/
theorem refusedFor_of_decode {p : Bytes} {fault : Compact.Fault}
    (h : Compact.decode p = .error fault) : RefusedFor p (fault.message p.length) := by
  refine ⟨.compact p.length fault, ?_, rfl, rfl, rfl⟩
  rw [decodeCompact, h]

/-- No payload is the beginning of another. One that is cut off runs out of input, unless nothing is
left of it, and of what stands behind one the bytes are counted. -/
theorem decodeCompact_prefixFree {p : Bytes} {v : Value} (h : decodeCompact p = .ok v) :
    (∀ q, q <+: p → q ≠ p → q ≠ [] → RefusedFor q "end of input bytes") ∧
      RefusedFor [] "empty payload" ∧
      ∀ s, s ≠ [] → RefusedFor (p ++ s) (toString s.length ++ " trailing bytes") := by
  have hp := Compact.decode_eq_ok_iff.1 (decodeCompact_eq_ok.1 h)
  have hempty : Compact.decode [] = .error .emptyPayload := rfl
  refine ⟨?_, refusedFor_of_decode hempty, ?_⟩
  · rintro q ⟨r, rfl⟩ hne hq
    have hcut : IsCut q (q ++ r) := ⟨r, fun hr => hne (by rw [hr, List.append_nil]), rfl⟩
    exact refusedFor_of_decode (Compact.decode_of_isCut hp hcut hq)
  · intro s hs
    exact refusedFor_of_decode (Compact.decode_append hp hs)

/-- The payload of a euro sign with a wide tag and a wide code, cut off inside the sign and
continued by two bytes. -/
theorem decodeCompact_prefixFree_wide :
    let p : Bytes := [0xd9, 0x00, 0x82, 0x82, 0x00, 0x82, 0x18, 0x03, 0x63, 0xe2, 0x82, 0xac]
    decodeCompact p = .ok (.text "€") ∧ RefusedFor (p.take 11) "end of input bytes" ∧
      RefusedFor (p ++ [0xf6, 0xf6]) "2 trailing bytes" := by
  intro p
  have hp : decodeCompact p = .ok (.text "€") := rfl
  obtain ⟨hcut, -, hbehind⟩ := decodeCompact_prefixFree hp
  refine ⟨hp, hcut _ (List.take_prefix _ _) (by decide) (by decide), ?_⟩
  exact hbehind [0xf6, 0xf6] (List.cons_ne_nil _ _)

end LedgerFeed.Codec
