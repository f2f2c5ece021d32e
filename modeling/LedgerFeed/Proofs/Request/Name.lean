import LedgerFeed.Proofs.Text.Hex
import LedgerFeed.Request.Filter

/-!
# The grammar of names

A contract is named `A.` address `.` name, and an event type `flow.` name or by its contract and a
name behind it. The checks of filters cut a text at its points and look at the parts; they accept a
text just if it has one of these forms (`names_by_grammar`).
-/

namespace LedgerFeed

/-! ## Texts in parts -/

section
variable {separator : Char} {s : List Char}

/-- The parts of a text are those of the library. -/
theorem parts_eq_splitOn : parts separator s = s.splitOn separator := by
  induction s with
  | nil => rfl
  | cons c s ih =>
    rw [List.splitOn_cons_eq_if_modifyHead, ← ih, parts]
    simp only [beq_iff_eq]

/-- A text has parts without separators just if it is made of them with separators between. -/
theorem parts_eq_iff {ps : List (List Char)} (hne : ps ≠ [])
    (hps : ∀ part ∈ ps, separator ∉ part) :
    parts separator s = ps ↔ s = [separator].intercalate ps := by
  rw [parts_eq_splitOn]
  constructor
  · rintro rfl
    rw [List.intercalate_splitOn]
  · rintro rfl
    exact List.splitOn_intercalate separator hps hne

/-- What stands behind the last separator is the last part. -/
theorem parts_append_last {last : List Char} (h : separator ∉ last) :
    parts separator (s ++ separator :: last) = parts separator s ++ [last] := by
  rw [parts_eq_splitOn, parts_eq_splitOn, List.splitOn_append_cons_self,
    List.splitOn_eq_singleton h]

end

/-! ## Characters -/

/-- The letters of names, the underscore among them. -/
def letters : List Char :=
  "ABCDEFGHIJKLMNOPQRSTUVWXYZabcdefghijklmnopqrstuvwxyz_".toList

/-- The decimal digits. -/
def decimals : List Char :=
  "0123456789".toList

/-- The digits of addresses, in either case. -/
def hexadecimals : List Char :=
  "0123456789abcdefABCDEF".toList

/-- What holds of each character of a table holds of the characters in it. -/
theorem of_mem_table {table : List Char} {p : Char → Prop} [DecidablePred p]
    (h : (table.all fun c => p c) = true) {c : Char} (hc : c ∈ table) : p c :=
  of_decide_eq_true (List.all_eq_true.1 h c hc)

/-- A test that accepts ASCII characters alone accepts those of a table of ASCII characters if it
does so in ASCII. -/
theorem eq_contains {p : Char → Bool} {table : List Char}
    (hp : ∀ c, p c = true → c.toNat < 0x80) (htable : (table.all fun c => c.toNat < 0x80) = true)
    (h : ∀ n < 0x80, p (Char.ofNat n) = table.contains (Char.ofNat n)) (c : Char) :
    p c = table.contains c := by
  by_cases hc : c.toNat < 0x80
  · have hn := h c.toNat hc
    rwa [Char.ofNat_toNat] at hn
  · have hpc : p c = false := Bool.eq_false_iff.2 fun hpc => hc (hp c hpc)
    have hcontains : table.contains c = false := Bool.eq_false_iff.2 fun hcontains =>
      hc (of_mem_table htable (List.contains_iff_mem.1 hcontains))
    rw [hpc, hcontains]

/-- The decimal digits are those of the table. -/
theorem isDigit_eq (c : Char) : c.isDigit = decimals.contains c :=
  eq_contains (fun _ => toNat_lt_of_isDigit) (by decide) (by decide +kernel) c

/-- The characters that start a name are those of the table. -/
theorem isNameStart_eq (c : Char) : isNameStart c = letters.contains c := by
  refine eq_contains (fun c h => ?_) (by decide) (by decide +kernel) c
  rcases Bool.or_eq_true_iff.1 h with h | h
  · rcases Bool.or_eq_true_iff.1 h with hupper | hlower
    · have hle := (of_decide_eq_true hupper).2
      exact Nat.lt_of_le_of_lt (UInt32.le_iff_toNat_le.1 hle) (by decide)
    · have hle := of_decide_eq_true (Bool.and_eq_true_iff.1 hlower).2
      exact Nat.lt_of_le_of_lt (UInt32.le_iff_toNat_le.1 hle) (by decide)
  · rw [of_decide_eq_true h]
    decide

/-- The hexadecimal digits are those of the table. -/
theorem Hex.isDigit_eq (c : Char) : Hex.isDigit c = hexadecimals.contains c :=
  eq_contains (fun _ => Hex.toNat_lt_of_isDigit) (by decide) (by decide +kernel) c

/-! ## Names and addresses -/

/-- The text is a name: letters and decimals, of which the first is no decimal. -/
structure IsName (s : String) : Prop where
  nonempty : s.toList ≠ []
  characters : ∀ c ∈ s.toList, c ∈ letters ∨ c ∈ decimals
  start : ∀ c ∈ s.toList.head?, c ∉ decimals

/-- The text has the sixteen digits of an address. -/
structure IsAddressText (s : String) : Prop where
  length : s.length = 16
  characters : ∀ c ∈ s.toList, c ∈ hexadecimals

/-- Any characters are those of some text. -/
theorem exists_toList (cs : List Char) : ∃ s : String, s.toList = cs :=
  ⟨String.ofList cs, String.toList_ofList⟩

/-- The test of names accepts just the names. -/
theorem isName_iff {s : String} : isName s.toList = true ↔ IsName s := by
  have hdisjoint : ∀ c ∈ letters, c ∉ decimals := fun c hc =>
    of_mem_table (p := (· ∉ decimals)) (by decide) hc
  constructor
  · intro h
    cases hs : s.toList with
    | nil => rw [hs] at h; cases h
    | cons c rest =>
      simp only [hs, isName, Bool.and_eq_true, List.all_eq_true, Bool.or_eq_true, isNameStart_eq,
        isDigit_eq, List.contains_iff_mem] at h
      refine ⟨by simp [hs], ?_, ?_⟩
      · rw [hs]
        exact List.forall_mem_cons.2 ⟨.inl h.1, h.2⟩
      · rw [hs, List.head?_cons]
        rintro _ ⟨⟩
        exact hdisjoint c h.1
  · intro h
    cases hs : s.toList with
    | nil => exact absurd hs h.nonempty
    | cons c rest =>
      have hcharacters := h.characters
      have hstart := h.start c (by rw [hs]; rfl)
      rw [hs, List.forall_mem_cons] at hcharacters
      simp only [isName, Bool.and_eq_true, List.all_eq_true, Bool.or_eq_true, isNameStart_eq,
        isDigit_eq, List.contains_iff_mem]
      exact ⟨hcharacters.1.resolve_right hstart, hcharacters.2⟩

/-- The test of the digits of an address accepts just these. -/
theorem isAddressDigits_iff {s : String} : isAddressDigits s.toList = true ↔ IsAddressText s := by
  simp only [isAddressDigits, Bool.and_eq_true, decide_eq_true_eq, String.length_toList,
    List.all_eq_true, Hex.isDigit_eq, List.contains_iff_mem]
  exact ⟨fun ⟨hlength, hdigits⟩ => ⟨hlength, hdigits⟩, fun h => ⟨h.length, h.characters⟩⟩

/-- There is no point in a name. -/
theorem IsName.point_notMem {s : String} (h : IsName s) : '.' ∉ s.toList := by
  intro hpoint
  rcases h.characters _ hpoint with hc | hc
  · exact absurd hc (by decide)
  · exact absurd hc (by decide)

/-- There is no point among the digits of an address. -/
theorem IsAddressText.point_notMem {s : String} (h : IsAddressText s) : '.' ∉ s.toList :=
  fun hpoint => absurd (h.characters _ hpoint) (by decide)

/-! ## Contracts and event types -/

/-- The check of a contract passes just if its name has no fault. -/
theorem checkContract_eq_ok_iff {s : String} :
    checkContract s = .ok () ↔ contractFault? s = none := by
  rw [checkContract]
  cases contractFault? s <;> simp

/-- The check of an event type passes just if its name has no fault. -/
theorem checkEventType_eq_ok_iff {s : String} :
    checkEventType s = .ok () ↔ eventTypeFault? s = none := by
  rw [checkEventType]
  cases eventTypeFault? s <;> simp

/-- A contract has three parts. -/
theorem contractFault?_eq_none_iff {s : String} :
    contractFault? s = none ↔ ∃ h c : String, IsAddressText h ∧ IsName c ∧
      parts '.' s.toList = ["A".toList, h.toList, c.toList] := by
  constructor
  · intro hs
    unfold contractFault? at hs
    split at hs
    case h_1 h c hparts =>
      obtain ⟨h, rfl⟩ := exists_toList h
      obtain ⟨c, rfl⟩ := exists_toList c
      split at hs
      · next hok =>
        obtain ⟨hh, hc⟩ := Bool.and_eq_true_iff.1 hok
        exact ⟨h, c, isAddressDigits_iff.1 hh, isName_iff.1 hc, hparts⟩
      · cases hs
    case h_2 => cases hs
  · rintro ⟨h, c, hh, hc, hparts⟩
    simp [contractFault?, hparts, isAddressDigits_iff.2 hh, isName_iff.2 hc]

/-- An event type has two parts or four. -/
theorem eventTypeFault?_eq_none_iff {s : String} :
    eventTypeFault? s = none ↔
      (∃ n : String, IsName n ∧ parts '.' s.toList = ["flow".toList, n.toList]) ∨
      ∃ h c n : String, IsAddressText h ∧ IsName c ∧ IsName n ∧
        parts '.' s.toList = ["A".toList, h.toList, c.toList, n.toList] := by
  constructor
  · intro hs
    unfold eventTypeFault? at hs
    split at hs
    case h_1 n hparts =>
      obtain ⟨n, rfl⟩ := exists_toList n
      split at hs
      · next hn => exact .inl ⟨n, isName_iff.1 hn, hparts⟩
      · cases hs
    case h_2 h c n hparts =>
      obtain ⟨h, rfl⟩ := exists_toList h
      obtain ⟨c, rfl⟩ := exists_toList c
      obtain ⟨n, rfl⟩ := exists_toList n
      split at hs
      · cases hs
      split at hs
      · next hh hok =>
        obtain ⟨hc, hn⟩ := Bool.and_eq_true_iff.1 hok
        have hh := isAddressDigits_iff.1 (Bool.not_not_eq.1 hh)
        exact .inr ⟨h, c, n, hh, isName_iff.1 hc, isName_iff.1 hn, hparts⟩
      · cases hs
    case h_3 => cases hs
  · rintro (⟨n, hn, hparts⟩ | ⟨h, c, n, hh, hc, hn, hparts⟩)
    · simp [eventTypeFault?, hparts, isName_iff.2 hn]
    · simp [eventTypeFault?, hparts, isAddressDigits_iff.2 hh, isName_iff.2 hc, isName_iff.2 hn]

/-! ## The forms of names -/

/-- A contract is named by an address and a name. -/
theorem checkContract_iff {s : String} :
    checkContract s = .ok () ↔
      ∃ h c, IsAddressText h ∧ IsName c ∧ s = "A." ++ h ++ "." ++ c := by
  rw [checkContract_eq_ok_iff, contractFault?_eq_none_iff]
  refine exists_congr fun h => exists_congr fun c => ?_
  refine and_congr_right fun hh => and_congr_right fun hc => ?_
  have hpoints : ∀ part ∈ ["A".toList, h.toList, c.toList], '.' ∉ part := by
    simp [hh.point_notMem, hc.point_notMem]
  rw [parts_eq_iff (by simp) hpoints, ← String.toList_inj]
  simp [List.intercalate]

/-- An event type is named by the name alone or by an address, a contract and a name. -/
theorem checkEventType_iff {s : String} :
    checkEventType s = .ok () ↔
      (∃ n, IsName n ∧ s = "flow." ++ n) ∨
      ∃ h c n, IsAddressText h ∧ IsName c ∧ IsName n ∧
        s = "A." ++ h ++ "." ++ c ++ "." ++ n := by
  rw [checkEventType_eq_ok_iff, eventTypeFault?_eq_none_iff]
  refine or_congr (exists_congr fun n => ?_)
    (exists_congr fun h => exists_congr fun c => exists_congr fun n => ?_)
  · refine and_congr_right fun hn => ?_
    have hpoints : ∀ part ∈ ["flow".toList, n.toList], '.' ∉ part := by
      simp [hn.point_notMem]
    rw [parts_eq_iff (by simp) hpoints, ← String.toList_inj]
    simp [List.intercalate]
  · refine and_congr_right fun hh => and_congr_right fun hc => and_congr_right fun hn => ?_
    have hpoints : ∀ part ∈ ["A".toList, h.toList, c.toList, n.toList], '.' ∉ part := by
      simp [hh.point_notMem, hc.point_notMem, hn.point_notMem]
    rw [parts_eq_iff (by simp) hpoints, ← String.toList_inj]
    simp [List.intercalate]

/-- Two lists of parts with a last one are the same just if both are. -/
theorem eq_of_append_last {p q : List (List Char)} {n m : String}
    (h : p ++ [n.toList] = q ++ [m.toList]) : p = q ∧ n = m := by
  obtain ⟨hparts, hlast⟩ := List.append_inj' h rfl
  exact ⟨hparts, String.toList_inj.1 (List.singleton_inj.1 hlast)⟩

/-- An event type is a name behind `flow` or behind a contract. -/
theorem checkEventType_append {c n : String} (hn : '.' ∉ n.toList) :
    checkEventType (c ++ "." ++ n) = .ok () ↔
      IsName n ∧ (c = "flow" ∨ checkContract c = .ok ()) := by
  have hparts : parts '.' (c ++ "." ++ n).toList = parts '.' c.toList ++ [n.toList] := by
    rw [← parts_append_last hn]
    simp
  have hflow : parts '.' c.toList = ["flow".toList] ↔ c = "flow" := by
    rw [parts_eq_iff (by simp) (by simp), ← String.toList_inj]
    simp [List.intercalate]
  rw [checkEventType_eq_ok_iff, eventTypeFault?_eq_none_iff, checkContract_eq_ok_iff,
    contractFault?_eq_none_iff, hparts, ← hflow]
  constructor
  · rintro (⟨n', hn', h⟩ | ⟨a, c', n', ha, hc', hn', h⟩)
    · obtain ⟨hc, rfl⟩ := eq_of_append_last (q := ["flow".toList]) h
      exact ⟨hn', .inl hc⟩
    · obtain ⟨hc, rfl⟩ := eq_of_append_last (q := ["A".toList, a.toList, c'.toList]) h
      exact ⟨hn', .inr ⟨a, c', ha, hc', hc⟩⟩
  · rintro ⟨hn', hc | ⟨a, c', ha, hc', hc⟩⟩
    · exact .inl ⟨n, hn', by rw [hc]; rfl⟩
    · exact .inr ⟨a, c', n, ha, hc', hn', by rw [hc]; rfl⟩

/-- The digits of an address, in any case, are parsed as the address with these digits in lower
case. -/
theorem IsAddressText.exists_address {h : String} (hh : IsAddressText h) :
    ∃ a, Address.parse h = .ok a ∧ a.digits = h.toLower := by
  have hvalue : ∀ c ∈ hexadecimals, ∃ n < 16, c.toLower = Hex.digit n := fun c hc =>
    of_mem_table (p := fun c => ∃ n < 16, c.toLower = Hex.digit n) (by decide) hc
  exact Address.exists_parse hh.length fun c hc => hvalue c (hh.characters c hc)

/-- The texts that are accepted as names of event types are `flow.` name and `A.` address `.` name
`.` name, and those that are accepted as names of contracts are `A.` address `.` name. So an event
type is a name behind `flow` or behind a contract, and what stands for an address in either is one,
with the same digits in small letters. -/
theorem names_by_grammar :
    (∀ s : String, checkEventType s = .ok () ↔
      (∃ n, IsName n ∧ s = "flow." ++ n) ∨
      ∃ h c n, IsAddressText h ∧ IsName c ∧ IsName n ∧
        s = "A." ++ h ++ "." ++ c ++ "." ++ n) ∧
    (∀ s : String, checkContract s = .ok () ↔
      ∃ h c, IsAddressText h ∧ IsName c ∧ s = "A." ++ h ++ "." ++ c) ∧
    (∀ c n : String, '.' ∉ n.toList →
      (checkEventType (c ++ "." ++ n) = .ok () ↔
        IsName n ∧ (c = "flow" ∨ checkContract c = .ok ()))) ∧
    ∀ h : String, IsAddressText h → ∃ a, Address.parse h = .ok a ∧ a.digits = h.toLower :=
  ⟨fun _ => checkEventType_iff, fun _ => checkContract_iff, fun _ _ hn => checkEventType_append hn,
    fun _ hh => hh.exists_address⟩

/-- A contract with capital letters in its address, an event type behind it, and the address. -/
theorem names_by_grammar_token :
    checkContract "A.00000000000000AB.Token" = .ok () ∧
      checkEventType ("A.00000000000000AB.Token" ++ "." ++ "Deposited") = .ok () ∧
      ∃ a, Address.parse "00000000000000AB" = .ok a ∧ a.digits = "00000000000000ab" := by
  have hh : IsAddressText "00000000000000AB" := isAddressDigits_iff.1 (by decide)
  have hc : IsName "Token" := isName_iff.1 (by decide)
  have hn : IsName "Deposited" := isName_iff.1 (by decide)
  obtain ⟨-, hcontract, heventType, haddress⟩ := names_by_grammar
  have hok := (hcontract "A.00000000000000AB.Token").2 ⟨_, _, hh, hc, by decide⟩
  have hlower : "00000000000000AB".toLower = "00000000000000ab" := by decide +kernel
  exact ⟨hok, (heventType _ _ (by decide)).2 ⟨hn, .inr hok⟩, hlower ▸ haddress _ hh⟩

end LedgerFeed
