import LedgerFeed.Proofs.Cbor.Shortest
import LedgerFeed.Proofs.Codec.Encode
import LedgerFeed.Proofs.Compact.Acceptance

/-!
# The shortest compact payload

Encoding gives the shortest payload of a value, and no other payload of it is as short. This is a
law of the grammar: whatever spells a part of a payload is undercut by what is written of the part
(`write_undercuts`, by induction on depth).
-/

namespace LedgerFeed.Compact

/-- The written form of an integer undercuts the other spellings in its type. -/
theorem writeInteger_undercuts {t : IntegerType} {n : Int} {p : Bytes} (h : IntegerOf t n p) :
    Undercuts (writeInteger t n) p := by
  cases h with
  | @int octets _ hlen h =>
    have ho := Bytes.ofInt_toInt octets
    rw [hlen] at ho
    rw [writeInteger, ho]
    exact Cbor.writeBytes_undercuts h
  | @uint octets _ hlen h =>
    have ho := Bytes.ofInt_toNat octets
    rw [hlen] at ho
    rw [writeInteger, ho]
    exact Cbor.writeBytes_undercuts h
  | int64 h => exact Cbor.writeInt_undercuts h
  | uint8 h | uint64 h => exact Cbor.head_undercuts h

/-- The written form of a number of units undercuts the other spellings. -/
theorem writeUnits_undercuts {t : FixedType} {n : Int} {p : Bytes} (h : UnitsOf t n p) :
    Undercuts (writeUnits t n) p := by
  cases h with
  | fix64 h => exact Cbor.writeInt_undercuts h
  | ufix64 h => exact Cbor.head_undercuts h

/-- The written form of an optional text undercuts the other spellings. -/
theorem writeOptionalText_undercuts {s : Option String} {p : Bytes} (h : OrNull Cbor.Text s p) :
    Undercuts (writeOptionalText s) p := by
  cases h with
  | null => exact .refl _
  | item h => exact Cbor.writeText_undercuts h

/-- The written head and code of a kind undercut the wider ones. -/
theorem writeKind_undercuts {k : Kind} {p : Bytes} (h : Opens k p) : Undercuts (writeKind k) p := by
  obtain ⟨ha, hc⟩ := h
  rw [form_eq] at ha hc
  exact (Cbor.head_undercuts ha).append (Cbor.head_undercuts hc)

section
variable {α : Type} {L : α → Bytes → Prop} {write : α → Bytes}

/-- Items written one behind the other undercut their spellings if each of them does. -/
theorem flatMap_undercuts (h : ∀ a p, L a p → Undercuts (write a) p) {as : List α} {p : Bytes}
    (hp : InTurn L as p) : Undercuts (as.flatMap write) p := by
  induction hp with
  | nil => exact .refl _
  | cons ha _ ih => exact (h _ _ ha).append ih

/-- A written list undercuts the other spellings if its items do. -/
theorem list_undercuts (h : ∀ a p, L a p → Undercuts (write a) p) {as : List α} {p : Bytes}
    (hp : ListOf L as p) : Undercuts (Cbor.writeArray as.length ++ as.flatMap write) p := by
  obtain ⟨hh, hp⟩ := hp
  exact (Cbor.head_undercuts hh).append (flatMap_undercuts h hp)

end

/-- What is written of a value undercuts the array of a value of its kind, if what is written of the
values inside does so. -/
theorem write_undercuts_of_body {k : Kind} {v : Value} {h p : Bytes} (hk : Opens k h)
    (hp : Body (fun w q => Undercuts (write w) q) k v p) : Undercuts (write v) (h ++ p) := by
  have hk := writeKind_undercuts hk
  cases hp with
  | void =>
    rw [List.append_nil]
    exact hk
  | absent hp =>
    cases hp
    exact hk.append (.refl _)
  | present hp =>
    cases hp with
    | item hv => exact hk.append hv
  | bool hp => exact hk.append (Cbor.writeBool_undercuts hp)
  | text hp => exact hk.append (Cbor.writeText_undercuts hp)
  | address hp => exact hk.append (Cbor.writeBytes_undercuts hp)
  | integer hp => exact hk.append (writeInteger_undercuts hp)
  | fixed hp => exact hk.append (writeUnits_undercuts hp)
  | array hp =>
    rw [write, writeItems_eq, List.append_assoc]
    exact hk.append (list_undercuts (fun _ _ => id) hp)
  | dictionary hp =>
    rw [write, writeEntries_eq, List.append_assoc]
    refine hk.append (list_undercuts ?_ hp)
    rintro _ _ ⟨hh, hkey, hvalue⟩
    exact ((Cbor.head_undercuts hh).append hkey).append hvalue
  | composite hp hq =>
    rw [write, writeFields_eq, List.append_assoc, List.append_assoc]
    refine hk.append ((Cbor.writeText_undercuts hp).append (list_undercuts ?_ hq))
    rintro _ _ ⟨hh, hname, hvalue⟩
    exact ((Cbor.head_undercuts hh).append (Cbor.writeText_undercuts hname)).append hvalue
  | path hp hq =>
    rw [write, List.append_assoc]
    exact hk.append ((Cbor.writeText_undercuts hp).append (Cbor.writeText_undercuts hq))
  | type hp hq =>
    rw [write, List.append_assoc]
    exact hk.append ((Cbor.writeText_undercuts hp).append (writeOptionalText_undercuts hq))

/-- What is written of a value undercuts whatever spells the value. -/
theorem write_undercuts {v : Value} {p : Bytes} (h : Spells v p) : Undercuts (write v) p := by
  induction hd : v.depth using Nat.strongRecOn generalizing v p with
  | ind d ih =>
    subst hd
    obtain ⟨hk, hp⟩ := h
    exact write_undercuts_of_body hk (hp.imp fun w q hlt hw => ih w.depth hlt hw rfl)

/-- The payload that the encoder writes undercuts every payload of the value. -/
theorem payload_undercuts {v : Value} {p : Bytes} (h : Payload v p) :
    Undercuts (header ++ write v) p := by
  obtain ⟨ht, ha, hn, hv, -⟩ := h
  have hheader := ((Cbor.head_undercuts ht).append (Cbor.head_undercuts ha)).append
    (Cbor.head_undercuts hn)
  exact hheader.append (write_undercuts hv)

end LedgerFeed.Compact

namespace LedgerFeed.Codec

/-- What decodes to a value is no shorter than the payload that encoding gives of the value, and is
that payload if it is no longer. -/
theorem encode_shortest {p : Bytes} {v : Value} (h : decodeCompact p = .ok v) :
    ∃ b, encode .compact v = .ok b ∧ b.length ≤ p.length ∧ (b.length = p.length ↔ p = b) := by
  have hp := Compact.decode_eq_ok_iff.1 (decodeCompact_eq_ok.1 h)
  have hd : v.depth ≤ Value.maxDepth := by
    obtain ⟨-, -, -, -, hd⟩ := hp
    exact hd
  have hshort := Compact.payload_undercuts hp
  exact ⟨_, encode_of_depth_le .compact hd, hshort.length_le, hshort.length_eq_iff⟩

/-- Minus one with a wide tag, a wide version and a wide number takes twice the bytes it needs. -/
theorem encode_shortest_wide :
    let p : Bytes := [0xd9, 0x00, 0x82, 0x82, 0x19, 0x00, 0x00, 0x82, 0x06, 0x3a, 0, 0, 0, 0]
    let v : Value := .integer .int64 ⟨-1, by decide, by decide⟩
    ∃ b, decodeCompact p = .ok v ∧ encode .compact v = .ok b ∧ 2 * b.length = p.length ∧
      b.length ≤ p.length ∧ (b.length = p.length ↔ p = b) := by
  intro p v
  have hp : decodeCompact p = .ok v := rfl
  obtain ⟨b, hb, hle, heq⟩ := encode_shortest hp
  refine ⟨b, hp, hb, ?_, hle, heq⟩
  cases hb
  decide

end LedgerFeed.Codec
