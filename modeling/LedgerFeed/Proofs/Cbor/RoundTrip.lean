import LedgerFeed.Cbor.Reader
import LedgerFeed.Cbor.Writer
import LedgerFeed.Proofs.Bytes

/-!
# CBOR items read back

Every item that is written is read again from the bytes it starts, whatever follows. All of it goes
through the head of an item: `isHead_head` says that its initial byte holds the major type and a
code under which `argument` finds the number again.
-/

namespace LedgerFeed.Cbor

/-- Bytes are taken back from in front of others. -/
theorem take_append (b rest : Bytes) : take b.length (b ++ rest) = .ok (b, rest) := by
  induction b with
  | nil => cases rest <;> rfl
  | cons x b ih => simp [take, ih]

/-- A number that fits in `k` bytes is read from its `k` bytes. -/
theorem number_append {k n : Nat} (h : n < 256 ^ k) (rest : Bytes) :
    number k (Bytes.ofNat k n ++ rest) = .ok (n, rest) := by
  have ht := take_append (Bytes.ofNat k n) rest
  rw [Bytes.length_ofNat] at ht
  simp [number, ht, bind, Except.bind, pure, Except.pure, Bytes.toNat_ofNat, Nat.mod_eq_of_lt h]

/-- An initial byte holds a major type and a code. -/
theorem toNat_initial {major code : Nat} (hm : major < 8) (hc : code < 32) :
    (UInt8.ofNat (32 * major + code)).toNat = 32 * major + code :=
  UInt8.toNat_ofNat_of_lt' (by show _ < 256; omega)

/-- How the head of an item reads back: its first byte is of the major type, and under the code that
this byte holds, `argument` finds the number in the others. -/
def IsHead (major n : Nat) (b : Bytes) : Prop :=
  ∃ x behind, b = x :: behind ∧ x.toNat / 32 = major ∧ x.toNat % 32 < 0x1c ∧
    ∀ rest, argument (x.toNat % 32) (behind ++ rest) = .ok (n, rest)

/-- A byte of a major type and a code is a head, if the argument is read under this code. -/
theorem isHead_of_code {major n code : Nat} {behind : Bytes} (hm : major < 8) (hc : code < 0x1c)
    (ha : ∀ rest, argument code (behind ++ rest) = .ok (n, rest)) :
    IsHead major n (UInt8.ofNat (32 * major + code) :: behind) := by
  have hx := toNat_initial hm (Nat.lt_trans hc (by decide : 0x1c < 32))
  have hcode : (UInt8.ofNat (32 * major + code)).toNat % 32 = code := by omega
  refine ⟨_, behind, rfl, by omega, by omega, ?_⟩
  rw [hcode]
  exact ha

/-- The head of an item that is written reads back. -/
theorem isHead_head (major : Nat) {n : Nat} (hm : major < 8) (h : n < 2 ^ 64) :
    IsHead major n (head major n) := by
  unfold head
  split
  · next hn => exact isHead_of_code hm (by omega) fun rest => by simp [argument, hn]
  split
  · next hn =>
    exact isHead_of_code hm (by decide) fun rest => by simpa [argument] using number_append hn rest
  split
  · next hn =>
    exact isHead_of_code hm (by decide) fun rest => by simpa [argument] using number_append hn rest
  split
  · next hn =>
    exact isHead_of_code hm (by decide) fun rest => by simpa [argument] using number_append hn rest
  · exact isHead_of_code hm (by decide) fun rest => by simpa [argument] using number_append h rest

/-- The first byte of an input is read as it is. -/
theorem byte_cons (x : UInt8) (rest : Bytes) : byte (x :: rest) = .ok (x, rest) := rfl

/-! ## Items -/

/-- A natural of 64 bits is read back, whatever follows it. -/
theorem readUInt64_append {n : Nat} (h : n < 2 ^ 64) (rest : Bytes) :
    readUInt64 (writeNat n ++ rest) = .ok (n, rest) := by
  obtain ⟨x, behind, hh, hd, -, ha⟩ := isHead_head 0 (by decide) h
  have hx : x.toNat = x.toNat % 32 := by omega
  rw [writeNat, hh, List.cons_append, readUInt64, byte_cons]
  simp only [bind, Except.bind]
  rw [hx]
  exact ha rest

/-- A natural of 8 bits is read back as a byte. -/
theorem readUInt8_append {n : Nat} (h : n < 2 ^ 8) (rest : Bytes) :
    readUInt8 (writeNat n ++ rest) = .ok (n, rest) := by
  by_cases hn : n < 0x18
  · have hb : (UInt8.ofNat n).toNat = n := UInt8.toNat_ofNat_of_lt' h
    simp [writeNat, head, readUInt8, byte_cons, bind, Except.bind, pure, Except.pure, hb, hn]
  · have hb := number_append (k := 1) h rest
    rw [writeNat, head, if_neg hn, if_pos h, List.cons_append, readUInt8, byte_cons]
    simp [bind, Except.bind, hb]

/-- An integer of 64 bits is read back. -/
theorem readInt64_append {n : Int} (h0 : -(2 ^ 63) ≤ n) (h1 : n < 2 ^ 63) (rest : Bytes) :
    readInt64 (writeInt n ++ rest) = .ok (n, rest) := by
  unfold writeInt
  split
  · next hn =>
    have hv : (-1 - n).toNat < 2 ^ 63 := by omega
    have hr : -1 - (((-1 - n).toNat : Nat) : Int) = n := by omega
    obtain ⟨x, behind, hh, hd, hc, ha⟩ := isHead_head 1 (n := (-1 - n).toNat) (by decide) (by omega)
    have hs : x.toNat - 0x20 = x.toNat % 32 := by omega
    rw [hh, List.cons_append, readInt64, byte_cons]
    simp only [bind, Except.bind, hs, ha, fit, decide_eq_true hv, if_true, hr]
    rw [if_neg (by omega), if_pos (by omega)]
  · next hn =>
    have hv : n.toNat < 2 ^ 63 := by omega
    have hr : ((n.toNat : Nat) : Int) = n := by omega
    obtain ⟨x, behind, hh, hd, hc, ha⟩ := isHead_head 0 (n := n.toNat) (by decide) (by omega)
    have hx : x.toNat ≤ 0x1b := by omega
    have ha : argument x.toNat (behind ++ rest) = .ok (n.toNat, rest) := by
      rw [← ha rest, Nat.mod_eq_of_lt (by omega)]
    rw [hh, List.cons_append, readInt64, byte_cons]
    simp only [bind, Except.bind, hx, if_true, ha, fit, decide_eq_true hv, hr]

/-- A truth value is read back. -/
theorem readBool_append (b : Bool) (rest : Bytes) :
    readBool (writeBool b ++ rest) = .ok (b, rest) := by
  cases b <;> rfl

/-- The size of an array is read back. -/
theorem readArray_append {n : Nat} (h : n < 2 ^ 64) (rest : Bytes) :
    readArray (writeArray n ++ rest) = .ok (some n, rest) := by
  obtain ⟨x, behind, hh, hd, hc, ha⟩ := isHead_head 4 (by decide) h
  have hne : x.toNat % 32 ≠ 31 := by omega
  rw [writeArray, hh, List.cons_append, readArray, byte_cons]
  simp [bind, Except.bind, pure, Except.pure, hd, hne, ha]

/-- A tag is read back. -/
theorem readTag_append {n : Nat} (h : n < 2 ^ 64) (rest : Bytes) :
    readTag (writeTag n ++ rest) = .ok (n, rest) := by
  obtain ⟨x, behind, hh, hd, -, ha⟩ := isHead_head 6 (by decide) h
  rw [writeTag, hh, List.cons_append, readTag, byte_cons]
  simp [bind, Except.bind, hd, ha]

/-- A byte string is read back. -/
theorem readBytes_append {b : Bytes} (h : b.length < 2 ^ 64) (rest : Bytes) :
    readBytes (writeBytes b ++ rest) = .ok (b, rest) := by
  obtain ⟨x, behind, hh, hd, hc, ha⟩ := isHead_head 2 (by decide) h
  have hne : x.toNat % 32 ≠ 31 := by omega
  rw [writeBytes, hh, List.append_assoc, List.cons_append, readBytes, byte_cons]
  simp [bind, Except.bind, hd, hne, ha, take_append]

/-- A text is read back from its UTF-8 form. -/
theorem readText_append {s : String} (h : (Bytes.ofText s).length < 2 ^ 64) (rest : Bytes) :
    readText (writeText s ++ rest) = .ok (s, rest) := by
  obtain ⟨x, behind, hh, hd, hc, ha⟩ := isHead_head 3 (by decide) h
  have hne : x.toNat % 32 ≠ 31 := by omega
  rw [writeText, hh, List.append_assoc, List.cons_append, readText, byte_cons]
  simp [bind, Except.bind, pure, Except.pure, hd, hne, ha, take_append, Bytes.text?_ofText]

/-! ## Null or not -/

/-- An item whose first byte announces a length or a tag is not null. -/
theorem nextIsNull_cons {x : UInt8} (h2 : 2 ≤ x.toNat / 32) (h7 : x.toNat / 32 < 7)
    (hc : x.toNat % 32 < 0x1c) (behind : Bytes) : nextIsNull (x :: behind) = .ok false := by
  have ht : ∃ t, t ≠ ItemType.null ∧ ∀ b, typeOf x.toNat b = .ok t := by
    have hmajor : x.toNat / 32 = 2 ∨ x.toNat / 32 = 3 ∨ x.toNat / 32 = 4 ∨ x.toNat / 32 = 5 ∨
        x.toNat / 32 = 6 := by omega
    rcases hmajor with h | h | h | h | h
    · exact ⟨.bytes, by decide, fun b => by simp (disch := omega) only [typeOf, if_neg, if_pos]⟩
    · exact ⟨.text, by decide, fun b => by simp (disch := omega) only [typeOf, if_neg, if_pos]⟩
    · exact ⟨.array, by decide, fun b => by simp (disch := omega) only [typeOf, if_neg, if_pos]⟩
    · exact ⟨.map, by decide, fun b => by simp (disch := omega) only [typeOf, if_neg, if_pos]⟩
    · exact ⟨.tag, by decide, fun b => by simp (disch := omega) only [typeOf, if_neg, if_pos]⟩
  obtain ⟨t, hne, ht⟩ := ht
  rw [nextIsNull, byte_cons]
  simp only [bind, Except.bind, ht, pure, Except.pure, decide_eq_false hne]

/-- An item that is written with a length or a tag is not null. -/
theorem nextIsNull_head {major n : Nat} (h2 : 2 ≤ major) (h7 : major < 7) (h : n < 2 ^ 64)
    (rest : Bytes) : nextIsNull (head major n ++ rest) = .ok false := by
  obtain ⟨x, behind, hhead, rfl, hc, -⟩ := isHead_head major (Nat.lt_succ_of_lt h7) h
  rw [hhead]
  exact nextIsNull_cons h2 h7 hc (behind ++ rest)

end LedgerFeed.Cbor
