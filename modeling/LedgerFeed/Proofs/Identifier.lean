import LedgerFeed.Proofs.Text.Hex

/-!
# Texts of identifiers and addresses

Identifiers and addresses follow one law (`ReadsDigits`): a text stands for a name just if it has
the digits of one, in capital or small letters and behind `0x` or not, and a name is shown by its
digits in small letters. One reader counts the digits of a text before it looks at them and the
other counts the bytes that they make; that makes no difference (`identifier_address_readDigits`).
-/

namespace LedgerFeed

/-! ## Digits of a text -/

namespace Hex

/-- The text has just these `n` digits, behind `0x` or not. -/
structure HasDigits (n : Nat) (s : String) (ds : List Char) : Prop where
  length : ds.length = n
  digits : ∀ c ∈ ds, isDigit c = true
  text : s.toList = ds ∨ s.toList = '0' :: 'x' :: ds

variable {k m n : Nat} {s : String} {ds es : List Char} {b : Bytes}

/-- The mark of the prefix is no hexadecimal digit. -/
theorem HasDigits.x_notMem (h : HasDigits n s ds) : 'x' ∉ ds :=
  fun hx => absurd (h.digits _ hx) (by decide)

/-- A marker has a character that is no digit, so a text has its digits in one way only. -/
theorem HasDigits.unique (hd : HasDigits m s ds) (he : HasDigits n s es) : ds = es := by
  rcases hd.text with hs | hs <;> rcases he.text with ht | ht
  · exact hs.symm.trans ht
  · have hx := hd.x_notMem
    rw [hs.symm.trans ht] at hx
    exact absurd (by simp) hx
  · have hx := he.x_notMem
    rw [ht.symm.trans hs] at hx
    exact absurd (by simp) hx
  · cases hs.symm.trans ht
    rfl

/-- What is read are the digits of bytes, two for each byte. -/
theorem exists_hasDigits (h : decodeMarked s = .ok b) :
    ∃ ds, HasDigits (2 * b.length) s ds ∧ ds.map Char.toLower = digits b := by
  obtain ⟨ds, hds, htext⟩ := decodeMarked_eq_ok_iff.1 h
  refine ⟨ds, ⟨?_, fun c hc => ?_, htext⟩, hds⟩
  · have hlength := congrArg List.length hds
    rwa [List.length_map, digits_eq_map_halves, List.length_map, length_halves] at hlength
  · have hlower : c.toLower ∈ (halves b).map digit := by
      rw [← digits_eq_map_halves, ← hds]
      exact List.mem_map_of_mem hc
    obtain ⟨n, hn, hdigit⟩ := List.mem_map.1 hlower
    exact isDigit_iff.2 ⟨n, lt_of_mem_halves hn, hdigit.symm⟩

/-- Digits are read, small letters aside, as the bytes of which they are the digits. -/
theorem HasDigits.decodeMarked_iff (h : HasDigits n s ds) :
    decodeMarked s = .ok b ↔ ds.map Char.toLower = Hex.digits b := by
  constructor
  · intro hb
    obtain ⟨es, he, hes⟩ := exists_hasDigits hb
    rwa [h.unique he]
  · intro hds
    exact decodeMarked_eq_ok_iff.2 ⟨ds, hds, h.text⟩

/-- Digits, two for each byte, are those of bytes. -/
theorem HasDigits.exists_bytes (h : HasDigits (2 * k) s ds) :
    ∃ b, ds.map Char.toLower = Hex.digits b ∧ b.length = k :=
  exists_digits h.length fun c hc => isDigit_iff.1 (h.digits c hc)

end Hex

/-! ## The law -/

/-- The law of names that have `n` digits and are shown with a mark in front. -/
structure ReadsDigits {ε α : Type} (n : Nat) (mark : String) (parse : String → Except ε α)
    (toText : α → String) : Prop where
  /-- A text stands for a name just if it has so many digits. -/
  accepts : ∀ s, (∃ a, parse s = .ok a) ↔ ∃ ds, Hex.HasDigits n s ds
  /-- The name is shown by these digits, in small letters. -/
  shows : ∀ s ds a, Hex.HasDigits n s ds → parse s = .ok a →
    toText a = mark ++ String.ofList (ds.map Char.toLower)
  /-- What is shown stands for the name. -/
  reads : ∀ a, parse (toText a) = .ok a
  /-- Two texts stand for one name just if they have the same digits, small letters aside. -/
  agrees : ∀ s t, (∃ a, parse s = .ok a ∧ parse t = .ok a) ↔
    ∃ ds es, Hex.HasDigits n s ds ∧ Hex.HasDigits n t es ∧
      ds.map Char.toLower = es.map Char.toLower

section
variable {ε α : Type} {mark : String} {parse : String → Except ε α} {toText : α → String}

/-- A name that is read as its bytes and shown by the digits of these follows the law. -/
theorem readsDigits_of_octets (k : Nat) (octets : α → Bytes) (hsize : ∀ a, (octets a).length = k)
    (hexists : ∀ b, b.length = k → ∃ a, octets a = b)
    (hparse : ∀ s a, parse s = .ok a ↔ Hex.decodeMarked s = .ok (octets a))
    (htext : ∀ a, toText a = mark ++ Hex.encode (octets a))
    (hreads : ∀ a, parse (toText a) = .ok a) : ReadsDigits (2 * k) mark parse toText := by
  have hdigits : ∀ {s a}, parse s = .ok a →
      ∃ ds, Hex.HasDigits (2 * k) s ds ∧ ds.map Char.toLower = Hex.digits (octets a) := by
    intro s a ha
    rw [← hsize a]
    exact Hex.exists_hasDigits ((hparse s a).1 ha)
  have hname : ∀ {s ds}, Hex.HasDigits (2 * k) s ds →
      ∃ a, parse s = .ok a ∧ ds.map Char.toLower = Hex.digits (octets a) := by
    intro s ds hds
    obtain ⟨b, hb, hk⟩ := hds.exists_bytes
    obtain ⟨a, rfl⟩ := hexists b hk
    exact ⟨a, (hparse s a).2 (hds.decodeMarked_iff.2 hb), hb⟩
  refine ⟨fun s => ⟨?_, ?_⟩, fun s ds a hds ha => ?_, hreads, fun s t => ⟨?_, ?_⟩⟩
  · rintro ⟨a, ha⟩
    obtain ⟨ds, hds, -⟩ := hdigits ha
    exact ⟨ds, hds⟩
  · rintro ⟨ds, hds⟩
    obtain ⟨a, ha, -⟩ := hname hds
    exact ⟨a, ha⟩
  · rw [htext, Hex.encode, ← hds.decodeMarked_iff.1 ((hparse s a).1 ha)]
  · rintro ⟨a, hs, ht⟩
    obtain ⟨ds, hds, hlower⟩ := hdigits hs
    obtain ⟨es, hes, hlower'⟩ := hdigits ht
    exact ⟨ds, es, hds, hes, hlower.trans hlower'.symm⟩
  · rintro ⟨ds, es, hds, hes, hsame⟩
    obtain ⟨a, hs, hlower⟩ := hname hds
    exact ⟨a, hs, (hparse t a).2 (hes.decodeMarked_iff.2 (hsame.symm.trans hlower))⟩

end

/-! ## The two readers -/

namespace Identifier

/-- An identifier is read from the digits of its bytes. -/
theorem parse_eq_ok_iff {s : String} {id : Identifier} :
    parse s = .ok id ↔ Hex.decodeMarked s = .ok id.octets := by
  rw [parse, Hex.decodeMarked]
  cases Hex.decode (Hex.dropMarker s) with
  | error fault => simp
  | ok b =>
    by_cases hb : b.length = 32
    · have hid : ofBytes? b = some ⟨b, hb⟩ := dif_pos hb
      obtain ⟨octets, size⟩ := id
      simp only [hid, Except.ok.injEq, mk.injEq]
    · have hid : ofBytes? b = none := dif_neg hb
      simp only [hid, reduceCtorEq, Except.ok.injEq, false_iff]
      rintro rfl
      exact hb id.size

end Identifier

namespace Address

/-- An address is read from the digits of its bytes. That the digits are counted before they are
looked at makes no difference, as each is one byte of the text. -/
theorem parse_eq_ok_iff {s : String} {a : Address} :
    parse s = .ok a ↔ Hex.decodeMarked s = .ok a.octets := by
  rw [parse, Hex.decodeMarked]
  cases hdecode : Hex.decode (Hex.dropMarker s) with
  | error fault => split <;> simp
  | ok b =>
    have hsize := Hex.utf8ByteSize_of_decode hdecode
    by_cases hb : b.length = 8
    · have ha : ofBytes? b = some ⟨b, hb⟩ := dif_pos hb
      obtain ⟨octets, size⟩ := a
      simp only [hsize, hb, ha, if_true, Except.ok.injEq, mk.injEq]
    · have ha : (Hex.dropMarker s).utf8ByteSize ≠ 16 := by omega
      simp only [if_neg ha, reduceCtorEq, Except.ok.injEq, false_iff]
      rintro rfl
      exact hb a.size

end Address

/-- Identifiers have 64 digits and are shown without a mark; addresses have sixteen and are shown
behind `0x`. -/
theorem identifier_address_readDigits :
    ReadsDigits 64 "" Identifier.parse Identifier.toText ∧
      ReadsDigits 16 "0x" Address.parse Address.toText := by
  constructor
  · refine readsDigits_of_octets 32 Identifier.octets Identifier.size ?_ ?_ ?_
      Identifier.parse_toText
    · exact fun b hb => ⟨⟨b, hb⟩, rfl⟩
    · exact fun s id => Identifier.parse_eq_ok_iff
    · exact fun id => (String.empty_append).symm
  · refine readsDigits_of_octets 8 Address.octets Address.size ?_ ?_ ?_ Address.parse_toText
    · exact fun b hb => ⟨⟨b, hb⟩, rfl⟩
    · exact fun s a => Address.parse_eq_ok_iff
    · exact fun a => rfl

/-- An address behind a marker and without one, in letters of both cases. -/
theorem identifier_address_readDigits_mixed :
    ∃ a, Address.parse "0x00000000000000Ab" = .ok a ∧ Address.parse "00000000000000aB" = .ok a ∧
      a.toText = "0x00000000000000ab" := by
  have haddress := identifier_address_readDigits.2
  have hmarked : Hex.HasDigits 16 "0x00000000000000Ab" "00000000000000Ab".toList :=
    ⟨by decide, List.all_eq_true.1 (by decide), .inr (by decide)⟩
  have hbare : Hex.HasDigits 16 "00000000000000aB" "00000000000000aB".toList :=
    ⟨by decide, List.all_eq_true.1 (by decide), .inl rfl⟩
  obtain ⟨a, ha, hsame⟩ := (haddress.agrees _ _).2 ⟨_, _, hmarked, hbare, by decide⟩
  refine ⟨a, ha, hsame, (haddress.shows _ _ _ hmarked ha).trans ?_⟩
  decide

end LedgerFeed
