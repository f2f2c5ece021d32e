import LedgerFeed.Bytes

/-!
# UTF-8 forms of texts

The UTF-8 form of a text is put together from those of its characters. A character below U+0080 is
its own byte; the bytes of any other character are above all of these.
-/

namespace LedgerFeed.Bytes

/-- The UTF-8 form of a text is that of its characters, one behind the other. -/
theorem ofText_ofList (s : List Char) :
    ofText (String.ofList s) = s.flatMap String.utf8EncodeChar :=
  List.toList_data_toByteArray

/-- The UTF-8 form of two texts is that of the first and then that of the second. -/
theorem ofText_append (s t : String) : ofText (s ++ t) = ofText s ++ ofText t := by
  simp [ofText]

/-- What follows a text inside of a text is a text, since no character is cut. -/
theorem exists_ofText_of_append {s t : String} {r : Bytes} (h : ofText s ++ r = ofText t) :
    ∃ u, r = ofText u ∧ t = s ++ u := by
  have hbytes : s.toList.utf8Encode ++ ⟨r.toArray⟩ = t.toList.utf8Encode := by
    rw [String.utf8Encode_toList, String.utf8Encode_toList]
    ext1
    rw [← Array.toList_inj, ByteArray.data_append, Array.toList_append]
    exact h
  obtain ⟨cs, hcs⟩ := List.isPrefix_of_utf8Encode_append_eq_utf8Encode _ hbytes
  have ht : t = s ++ String.ofList cs := by
    rw [← String.toList_inj, String.toList_append, String.toList_ofList, hcs]
  refine ⟨String.ofList cs, ?_, ht⟩
  rw [ht, ofText_append] at h
  exact List.append_cancel_left h

/-- The longest text that the byte string starts with and that has at most `n` bytes. -/
def leadingWithin (b : Bytes) : Nat → String
  | 0 => ""
  | n + 1 => (text? (b.take (n + 1))).getD (leadingWithin b n)

/-- The longest text that the byte string starts with. -/
def leadingText (b : Bytes) : String :=
  leadingWithin b b.length

/-- The longest leading text of bounded size is in front of the byte string. -/
theorem leadingWithin_isPrefix (b : Bytes) (n : Nat) : ofText (leadingWithin b n) <+: b := by
  induction n with
  | zero => exact List.nil_prefix
  | succ n ih =>
    rw [leadingWithin]
    cases h : text? (b.take (n + 1)) with
    | none => exact ih
    | some s => exact ofText_of_text? h ▸ List.take_prefix _ _

/-- The longest leading text is in front of the byte string. -/
theorem leadingText_isPrefix (b : Bytes) : ofText (leadingText b) <+: b :=
  leadingWithin_isPrefix b b.length

/-- No text that the byte string starts with is longer. -/
theorem prefix_leadingText {b : Bytes} {s : String} (h : ofText s <+: b) :
    ofText s <+: ofText (leadingText b) := by
  have hwithin : ∀ n, (ofText s).length ≤ n → ofText s <+: ofText (leadingWithin b n) := by
    intro n hn
    induction n with
    | zero => exact List.eq_nil_of_length_eq_zero (Nat.le_zero.1 hn) ▸ List.nil_prefix
    | succ n ih =>
      rw [leadingWithin]
      cases htext : text? (b.take (n + 1)) with
      | some t => exact ofText_of_text? htext ▸ List.prefix_take_iff.2 ⟨h, hn⟩
      | none =>
        refine ih (Nat.le_of_lt_succ (Nat.lt_of_le_of_ne hn fun hlength => ?_))
        have htake : b.take (n + 1) = ofText s :=
          (List.prefix_iff_eq_take.1 h).trans (hlength ▸ rfl) |>.symm
        rw [htake, text?_ofText] at htext
        cases htext
  exact hwithin _ h.length_le

/-- A text is all that its UTF-8 form starts with. -/
theorem leadingText_ofText (s : String) : leadingText (ofText s) = s := by
  have hprefix := prefix_leadingText (List.prefix_refl (ofText s))
  have heq := hprefix.eq_of_length_le (leadingText_isPrefix (ofText s)).length_le
  have htext := text?_ofText (leadingText (ofText s))
  rw [← heq, text?_ofText] at htext
  exact (Option.some.inj htext).symm

/-- The UTF-8 form of a text is as long as the text counts its bytes. -/
theorem length_ofText (s : String) : (ofText s).length = s.utf8ByteSize := rfl

/-- A character below U+0080 is its own byte. -/
theorem utf8EncodeChar_ascii {c : Char} (h : c.toNat < 0x80) :
    String.utf8EncodeChar c = [UInt8.ofNat c.toNat] := by
  have hv : c.val.toNat ≤ 0x7f := Nat.le_of_lt_succ h
  unfold String.utf8EncodeChar
  exact if_pos hv

/-- A byte that is made of a number has its highest bit. -/
theorem le_ofNat {n : Nat} (h : 0x80 ≤ n % 256) : 0x80 ≤ UInt8.ofNat n := by
  rw [UInt8.le_iff_toNat_le, UInt8.toNat_ofNat']
  exact h

/-- The bytes of a character from U+0080 on are not below `0x80`. -/
theorem le_of_mem_utf8EncodeChar {c : Char} (h : 0x80 ≤ c.toNat) {b : UInt8}
    (hb : b ∈ String.utf8EncodeChar c) : 0x80 ≤ b := by
  have hv : ¬ c.val.toNat ≤ 0x7f := Nat.not_le.2 h
  simp only [String.utf8EncodeChar, if_neg hv] at hb
  split at hb
  · simp only [List.mem_cons, List.not_mem_nil, or_false] at hb
    rcases hb with rfl | rfl <;> exact le_ofNat (by omega)
  split at hb
  · simp only [List.mem_cons, List.not_mem_nil, or_false] at hb
    rcases hb with rfl | rfl | rfl <;> exact le_ofNat (by omega)
  · simp only [List.mem_cons, List.not_mem_nil, or_false] at hb
    rcases hb with rfl | rfl | rfl | rfl <;> exact le_ofNat (by omega)

end LedgerFeed.Bytes
