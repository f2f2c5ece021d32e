import LedgerFeed.Identifier
import LedgerFeed.Proofs.Result
import LedgerFeed.Proofs.Text.Utf8

/-!
# Hexadecimal text reads back

The digits of a byte string are read as the byte string, and the text of an address as the address.
A text is read just if it is the digits of a byte string in capital and small letters
(`decode_eq_ok_iff`).
-/

namespace LedgerFeed

/-- A decimal digit is a character of ASCII. -/
theorem toNat_lt_of_isDigit {c : Char} (h : c.isDigit = true) : c.toNat < 0x80 := by
  have hrange : 48 ≤ c.val ∧ c.val ≤ 57 := by simpa [Char.isDigit] using h
  exact Nat.lt_of_le_of_lt (UInt32.le_iff_toNat_le.1 hrange.2) (by decide)

namespace Hex

/-- Each of the sixteen digits is one byte that has its place as value. -/
theorem utf8EncodeChar_digit {n : Nat} (h : n < 16) :
    ∃ b, String.utf8EncodeChar (digit n) = [b] ∧ value? b = some n := by
  have hall : ∀ n < 16, (digit n).toNat < 0x80 ∧
      value? (UInt8.ofNat (digit n).toNat) = some n := by decide
  obtain ⟨hascii, hvalue⟩ := hall n h
  exact ⟨_, Bytes.utf8EncodeChar_ascii hascii, hvalue⟩

/-- The two digits of a byte are two bytes that have its halves as values. -/
theorem ofText_encode_cons (x : UInt8) (b : Bytes) :
    ∃ high low, Bytes.ofText (encode (x :: b)) = high :: low :: Bytes.ofText (encode b) ∧
      value? high = some (x.toNat / 16) ∧ value? low = some (x.toNat % 16) := by
  have hx : x.toNat < 256 := x.toNat_lt
  obtain ⟨high, hh, hhigh⟩ := utf8EncodeChar_digit (n := x.toNat / 16) (by omega)
  obtain ⟨low, hl, hlow⟩ := utf8EncodeChar_digit (n := x.toNat % 16) (by omega)
  refine ⟨high, low, ?_, hhigh, hlow⟩
  simp only [encode, digits, Bytes.ofText_ofList, List.flatMap_cons, List.flatMap_append,
    List.flatMap_nil, hh, hl]
  rfl

/-- The digits of a byte string are twice as many as its bytes. -/
theorem length_ofText_encode (b : Bytes) : (Bytes.ofText (encode b)).length = 2 * b.length := by
  induction b with
  | nil => rfl
  | cons x b ih =>
    obtain ⟨high, low, hb, -, -⟩ := ofText_encode_cons x b
    rw [hb, List.length_cons, List.length_cons, List.length_cons, ih]
    omega

/-- A byte string is read back from its digits, wherever they stand. -/
theorem decodePairs_encode (b : Bytes) (position : Nat) :
    decodePairs position (Bytes.ofText (encode b)) = .ok b := by
  induction b generalizing position with
  | nil => rfl
  | cons x b ih =>
    obtain ⟨high, low, hb, hhigh, hlow⟩ := ofText_encode_cons x b
    have hx : 16 * (x.toNat / 16) + x.toNat % 16 = x.toNat := Nat.div_add_mod x.toNat 16
    rw [hb, decodePairs]
    simp [valueAt, hhigh, hlow, ih, hx, bind, Except.bind, pure, Except.pure]

/-- The digits of a byte string stand for it. -/
theorem decode_encode (b : Bytes) : decode (encode b) = .ok b := by
  have hlen : (Bytes.ofText (encode b)).length % 2 = 0 := by
    rw [length_ofText_encode]
    omega
  rw [decode, if_pos hlen, decodePairs_encode]

/-- A marker in front of a text is dropped. -/
theorem dropMarker_append (s : String) : dropMarker ("0x" ++ s) = s := by
  simp [dropMarker, String.toList_append]

/-- A digit is not the mark of the prefix. -/
theorem digit_ne_x {n : Nat} (h : n < 16) : digit n ≠ 'x' := by
  have hall : ∀ n < 16, digit n ≠ 'x' := by decide
  exact hall n h

/-- Digits do not start with a marker. -/
theorem dropMarker_encode (b : Bytes) : dropMarker (encode b) = encode b := by
  cases b with
  | nil => rfl
  | cons x b =>
    have hlow := digit_ne_x (Nat.mod_lt x.toNat (y := 16) (by decide))
    simp [dropMarker, encode, digits, hlow]

/-- The digits of a byte string stand for it where a marker may stand in front. -/
theorem decodeMarked_encode (b : Bytes) : decodeMarked (encode b) = .ok b := by
  rw [decodeMarked, dropMarker_encode, decode_encode]

/-! ## The texts that are read -/

/-- The halves of the bytes, high half of each byte first. -/
def halves (b : Bytes) : List Nat :=
  b.flatMap fun x => [x.toNat / 16, x.toNat % 16]

/-- The halves of the first byte come before those of the others. -/
theorem halves_cons (x : UInt8) (b : Bytes) :
    halves (x :: b) = x.toNat / 16 :: x.toNat % 16 :: halves b := rfl

/-- There are two halves to each byte. -/
theorem length_halves (b : Bytes) : (halves b).length = 2 * b.length := by
  induction b with
  | nil => rfl
  | cons x b ih =>
    rw [halves_cons, List.length_cons, List.length_cons, List.length_cons, ih]
    omega

/-- The digits of a byte string are those of its halves. -/
theorem digits_eq_map_halves (b : Bytes) : digits b = (halves b).map digit := by
  induction b with
  | nil => rfl
  | cons x b ih =>
    rw [halves_cons, List.map_cons, List.map_cons, ← ih]
    rfl

/-- A half of a byte is below 16. -/
theorem lt_of_mem_halves {b : Bytes} {n : Nat} (h : n ∈ halves b) : n < 16 := by
  obtain ⟨x, -, hn⟩ := List.mem_flatMap.1 h
  have hx : x.toNat < 256 := x.toNat_lt
  simp only [List.mem_cons, List.not_mem_nil, or_false] at hn
  omega

/-- The mark of the prefix is not among the digits of a byte string. -/
theorem x_notMem_digits (b : Bytes) : 'x' ∉ digits b := by
  rw [digits_eq_map_halves]
  intro h
  obtain ⟨n, hn, hx⟩ := List.mem_map.1 h
  exact digit_ne_x (lt_of_mem_halves hn) hx

/-- A digit has its value at whatever position it stands. -/
theorem valueAt_eq_ok_iff {position : Nat} {b : UInt8} {n : Nat} :
    valueAt position b = .ok n ↔ value? b = some n := by
  unfold valueAt
  split <;> simp_all

/-- The value of a digit is below 16. -/
theorem lt_of_value? {b : UInt8} {n : Nat} (h : value? b = some n) : n < 16 := by
  simp only [value?] at h
  repeat' split at h
  all_goals cases h
  all_goals omega

/-- A byte beyond ASCII is no digit. -/
theorem value?_eq_none {b : UInt8} (h : 0x80 ≤ b) : value? b = none := by
  have hb : 128 ≤ b.toNat := UInt8.le_iff_toNat_le.1 h
  unfold value?
  rw [if_neg (by omega), if_neg (by omega), if_neg (by omega)]

/-- The halves of a byte are what it was made of. -/
theorem halves_ofNat_cons {high low : Nat} (hhigh : high < 16) (hlow : low < 16) (b : Bytes) :
    halves (UInt8.ofNat (16 * high + low) :: b) = high :: low :: halves b := by
  have hx : (UInt8.ofNat (16 * high + low)).toNat = 16 * high + low := by
    rw [UInt8.toNat_ofNat']
    omega
  have hdiv : (16 * high + low) / 16 = high := by omega
  have hmod : (16 * high + low) % 16 = low := by omega
  rw [halves_cons, hx, hdiv, hmod]

/-- Pairs of bytes are read just if their values are the halves of bytes. -/
theorem decodePairs_eq_ok_iff {s b : Bytes} {position : Nat} (heven : s.length % 2 = 0) :
    decodePairs position s = .ok b ↔ s.map value? = (halves b).map some := by
  fun_induction decodePairs position s generalizing b with
  | case1 position high low rest ih =>
    have hlength : rest.length % 2 = 0 := by
      simp only [List.length_cons] at heven
      omega
    simp only [bind_eq_ok, valueAt_eq_ok_iff, pure, Except.pure, Except.ok.injEq]
    constructor
    · rintro ⟨h, hhigh, l, hlow, b', hrest, rfl⟩
      have hh := lt_of_value? hhigh
      have hl := lt_of_value? hlow
      simp only [List.map_cons, halves_ofNat_cons hh hl, hhigh, hlow, (ih hlength).1 hrest]
    · intro hvalues
      cases b with
      | nil => cases hvalues
      | cons x b =>
        simp only [List.map_cons, halves_cons, List.cons.injEq] at hvalues
        obtain ⟨hhigh, hlow, hrest⟩ := hvalues
        refine ⟨_, hhigh, _, hlow, b, (ih hlength).2 hrest, ?_⟩
        rw [Nat.div_add_mod, UInt8.ofNat_toNat]
  | case2 s position hs =>
    match s, hs, heven with
    | [], _, _ => cases b <;> simp [halves]
    | high :: low :: rest, hs, _ => exact (hs high low rest rfl).elim

/-- No character from U+0080 on is a digit. -/
theorem toLower_ne_digit {c : Char} (hc : ¬ c.toNat < 0x80) {n : Nat} (hn : n < 16) :
    c.toLower ≠ digit n := by
  have hascii : ∀ n < 16, (digit n).toNat < 0x80 := by decide
  have hupper : ¬ (c.val ≥ 'A'.val ∧ c.val ≤ 'Z'.val) := fun h =>
    hc (Nat.lt_of_le_of_lt (UInt32.le_iff_toNat_le.1 h.2) (by decide))
  have hc' : c.toLower = c := dif_neg hupper
  exact fun hlower => hc (hc' ▸ hlower ▸ hascii n hn)

/-- A character is read as a digit just if it is the digit in either case, and it is one byte. -/
theorem value?_utf8EncodeChar (c : Char) :
    (∃ b, String.utf8EncodeChar c = [b] ∧ ∀ n < 16, value? b = some n ↔ c.toLower = digit n) ∨
      (∃ b rest, String.utf8EncodeChar c = b :: rest ∧ value? b = none) ∧
        ∀ n < 16, c.toLower ≠ digit n := by
  by_cases hc : c.toNat < 0x80
  · have hall : ∀ k < 0x80, ∀ n < 16,
        value? (UInt8.ofNat k) = some n ↔ (Char.ofNat k).toLower = digit n := by decide +kernel
    refine .inl ⟨_, Bytes.utf8EncodeChar_ascii hc, fun n hn => ?_⟩
    have hk := hall c.toNat hc n hn
    rwa [Char.ofNat_toNat] at hk
  · refine .inr ⟨?_, fun n hn => toLower_ne_digit hc hn⟩
    cases hform : String.utf8EncodeChar c with
    | nil => exact absurd hform String.utf8EncodeChar_ne_nil
    | cons b rest =>
      have hb := Bytes.le_of_mem_utf8EncodeChar (Nat.le_of_not_lt hc) (hform ▸ List.mem_cons_self)
      exact ⟨b, rest, rfl, value?_eq_none hb⟩

/-- A hexadecimal digit is a character of ASCII. -/
theorem toNat_lt_of_isDigit {c : Char} (h : isDigit c = true) : c.toNat < 0x80 := by
  have hrange : (c.isDigit = true ∨ 'a' ≤ c ∧ c ≤ 'f') ∨ 'A' ≤ c ∧ c ≤ 'F' := by
    simpa [isDigit] using h
  rcases hrange with (h | h) | h
  · exact LedgerFeed.toNat_lt_of_isDigit h
  · exact Nat.lt_of_le_of_lt (UInt32.le_iff_toNat_le.1 h.2) (by decide)
  · exact Nat.lt_of_le_of_lt (UInt32.le_iff_toNat_le.1 h.2) (by decide)

/-- The digits in either case are the sixteen digits, small letters aside. -/
theorem isDigit_iff {c : Char} : isDigit c = true ↔ ∃ n < 16, c.toLower = digit n := by
  by_cases hc : c.toNat < 0x80
  · have hall : ∀ k < 0x80,
        isDigit (Char.ofNat k) = true ↔ ∃ n < 16, (Char.ofNat k).toLower = digit n := by
      decide +kernel
    have hk := hall c.toNat hc
    rwa [Char.ofNat_toNat] at hk
  · constructor
    · exact fun h => absurd (toNat_lt_of_isDigit h) hc
    · rintro ⟨n, hn, hlower⟩
      exact absurd hlower (toLower_ne_digit hc hn)

/-- The bytes of a text have values just if its characters are the digits with these values. -/
theorem map_value?_ofText {s : List Char} {ns : List Nat} (hns : ∀ n ∈ ns, n < 16) :
    (s.flatMap String.utf8EncodeChar).map value? = ns.map some ↔
      s.map Char.toLower = ns.map digit := by
  induction s generalizing ns with
  | nil => cases ns <;> simp
  | cons c s ih =>
    rcases value?_utf8EncodeChar c with ⟨b, hb, hvalue⟩ | ⟨⟨b, rest, hb, hvalue⟩, hlower⟩
    · cases ns with
      | nil => simp [hb]
      | cons n ns =>
        obtain ⟨hn, hns⟩ := List.forall_mem_cons.1 hns
        simp [hb, hvalue n hn, ih hns]
    · cases ns with
      | nil => simp [hb]
      | cons n ns =>
        have hn := hns n List.mem_cons_self
        simp [hb, hvalue, hlower n hn]

/-- A text is read as the bytes of which it is the digits, in capital or small letters. -/
theorem decode_eq_ok_iff {s : String} {b : Bytes} :
    decode s = .ok b ↔ s.toList.map Char.toLower = digits b := by
  have hs : Bytes.ofText s = s.toList.flatMap String.utf8EncodeChar := by
    rw [← Bytes.ofText_ofList, String.ofList_toList]
  have hvalues := map_value?_ofText (s := s.toList) fun n (hn : n ∈ halves b) => lt_of_mem_halves hn
  rw [← hs, ← digits_eq_map_halves] at hvalues
  rw [← hvalues]
  simp only [decode]
  split
  · next heven => exact decodePairs_eq_ok_iff heven
  · next hodd =>
    refine ⟨nofun, fun h => absurd ?_ hodd⟩
    have hlength := congrArg List.length h
    rw [List.length_map, List.length_map, length_halves] at hlength
    omega

/-- Numbers below sixteen, two for each byte, are the halves of bytes. -/
theorem exists_halves {k : Nat} {ns : List Nat} (hlength : ns.length = 2 * k)
    (hns : ∀ n ∈ ns, n < 16) : ∃ b, halves b = ns ∧ b.length = k := by
  induction k generalizing ns with
  | zero =>
    cases List.length_eq_zero_iff.1 hlength
    exact ⟨[], rfl, rfl⟩
  | succ k ih =>
    match ns, hlength with
    | high :: low :: ns, hlength =>
      obtain ⟨hhigh, hns⟩ := List.forall_mem_cons.1 hns
      obtain ⟨hlow, hns⟩ := List.forall_mem_cons.1 hns
      obtain ⟨b, rfl, hk⟩ := ih (by simpa [Nat.mul_succ] using hlength) hns
      exact ⟨_, halves_ofNat_cons hhigh hlow b, by rw [List.length_cons, hk]⟩

/-- Characters that are digits in either case are in lower case the digits of some numbers below 16.
-/
theorem exists_map_digit {s : List Char} (hs : ∀ c ∈ s, ∃ n < 16, c.toLower = digit n) :
    ∃ ns : List Nat, s.map Char.toLower = ns.map digit ∧ ∀ n ∈ ns, n < 16 := by
  induction s with
  | nil => exact ⟨[], rfl, List.forall_mem_nil _⟩
  | cons c s ih =>
    obtain ⟨⟨n, hn, hc⟩, hs⟩ := List.forall_mem_cons.1 hs
    obtain ⟨ns, hmap, hns⟩ := ih hs
    exact ⟨n :: ns, by rw [List.map_cons, List.map_cons, hc, hmap],
      List.forall_mem_cons.2 ⟨hn, hns⟩⟩

/-- Digits, two for each byte, are the digits of bytes. -/
theorem exists_digits {k : Nat} {s : List Char} (hlength : s.length = 2 * k)
    (hs : ∀ c ∈ s, ∃ n < 16, c.toLower = digit n) :
    ∃ b, s.map Char.toLower = digits b ∧ b.length = k := by
  obtain ⟨ns, hmap, hns⟩ := exists_map_digit hs
  have hns_length := congrArg List.length hmap
  rw [List.length_map, List.length_map, hlength] at hns_length
  obtain ⟨b, rfl, hk⟩ := exists_halves hns_length.symm hns
  exact ⟨b, by rw [digits_eq_map_halves, hmap], hk⟩

/-- Each digit of a text that is read is one byte of it. -/
theorem utf8ByteSize_of_decode {s : String} {b : Bytes} (h : decode s = .ok b) :
    s.utf8ByteSize = 2 * b.length := by
  have hhalves : ∀ n ∈ halves b, n < 16 := fun n hn => lt_of_mem_halves hn
  rw [decode_eq_ok_iff, digits_eq_map_halves, ← map_value?_ofText hhalves, ← Bytes.ofText_ofList,
    String.ofList_toList] at h
  have hlength := congrArg List.length h
  rwa [List.length_map, List.length_map, length_halves, Bytes.length_ofText] at hlength

/-- A text that starts with no marker is as it is without one. -/
theorem dropMarker_of_notMem {s : String} (h : 'x' ∉ s.toList) : dropMarker s = s := by
  unfold dropMarker
  split
  · next hs =>
    rw [hs] at h
    exact absurd (by simp) h
  · rfl

/-- A text is read where a marker may stand in front just if it is one that is read, behind a marker
or not. -/
theorem decodeMarked_eq_ok_iff {s : String} {b : Bytes} :
    decodeMarked s = .ok b ↔
      ∃ ds : List Char, ds.map Char.toLower = digits b ∧
        (s.toList = ds ∨ s.toList = '0' :: 'x' :: ds) := by
  rw [decodeMarked, dropMarker]
  split
  · next rest hs =>
    rw [decode_eq_ok_iff, String.toList_ofList]
    constructor
    · intro h
      exact ⟨rest, h, .inr hs⟩
    · rintro ⟨ds, hds, rfl | hmarked⟩
      · have hx : ('x' : Char).toLower ∈ digits b := by
          rw [← hds, hs]
          simp
        exact absurd hx (x_notMem_digits b)
      · cases hs.symm.trans hmarked
        exact hds
  · next hs =>
    rw [decode_eq_ok_iff]
    constructor
    · intro h
      exact ⟨_, h, .inl rfl⟩
    · rintro ⟨ds, hds, rfl | hmarked⟩
      · exact hds
      · exact absurd hmarked (hs ds)

end Hex

namespace Identifier

/-- The text of an identifier stands for the identifier. -/
theorem parse_toText (id : Identifier) : parse id.toText = .ok id := by
  have hb : ofBytes? id.octets = some id := dif_pos id.size
  simp only [parse, toText, Hex.dropMarker_encode, Hex.decode_encode, hb]

end Identifier

namespace Address

/-- The text of an address stands for the address. -/
theorem parse_toText (a : Address) : parse a.toText = .ok a := by
  have hsize : a.digits.utf8ByteSize = 16 := by
    rw [← Bytes.length_ofText, digits, Hex.length_ofText_encode, a.size]
  have hb : ofBytes? a.octets = some a := dif_pos a.size
  simp only [parse, toText, Hex.dropMarker_append, if_pos hsize]
  rw [digits, Hex.decode_encode]
  simp only [hb]

/-- The digits of an address, in either case, stand for the address. -/
theorem exists_parse {s : String} (hlength : s.length = 16)
    (hs : ∀ c ∈ s.toList, ∃ n < 16, c.toLower = Hex.digit n) :
    ∃ a, parse s = .ok a ∧ a.digits = s.toLower := by
  have hlength' : s.toList.length = 2 * 8 := String.length_toList.trans hlength
  obtain ⟨b, hdigits, hk⟩ := Hex.exists_digits hlength' hs
  have hb := Hex.decode_eq_ok_iff.2 hdigits
  have hsize : s.utf8ByteSize = 16 := by rw [Hex.utf8ByteSize_of_decode hb, hk]
  have hx : 'x' ∉ s.toList := by
    intro hx
    obtain ⟨n, hn, hdigit⟩ := hs 'x' hx
    exact Hex.digit_ne_x hn hdigit.symm
  have ha : ofBytes? b = some ⟨b, hk⟩ := dif_pos hk
  refine ⟨⟨b, hk⟩, ?_, ?_⟩
  · simp only [parse, Hex.dropMarker_of_notMem hx, if_pos hsize, hb, ha]
  · show String.ofList (Hex.digits b) = s.map Char.toLower
    rw [← hdigits, ← String.toList_inj, String.toList_ofList, String.toList_map]

end Address

end LedgerFeed
