import LedgerFeed.Proofs.Cbor.Bounds
import LedgerFeed.Proofs.Cbor.RoundTrip

/-!
# The grammar of CBOR items

A language says which byte strings spell which items. The languages here are those of RFC 8949 for
items of definite length: a head may be written in any width that holds its argument. `Reads` says
that a reader takes the spellings of a language off its input and accepts nothing else; there is one
law of that form for each reader, and all of them rest on `head_cons_iff`, the law of heads.
-/

namespace LedgerFeed

/-- A reader of a language succeeds just if its input starts with a spelling, and leaves what is
behind it. -/
def Reads {ε α : Type} (read : Bytes → Except ε (α × Bytes)) (L : α → Bytes → Prop) : Prop :=
  ∀ b a rest, read b = .ok (a, rest) ↔ ∃ p, L a p ∧ b = p ++ rest

/-- A spelling is read, whatever follows it. -/
theorem Reads.ok {ε α : Type} {read : Bytes → Except ε (α × Bytes)} {L : α → Bytes → Prop}
    (h : Reads read L) {a : α} {p : Bytes} (hp : L a p) (rest : Bytes) :
    read (p ++ rest) = .ok (a, rest) :=
  (h _ _ _).2 ⟨p, hp, rfl⟩

namespace Cbor

/-- The codes of an initial byte behind which the argument is written, and in how many bytes. -/
def longForms : List (Nat × Nat) :=
  [(24, 1), (25, 2), (26, 4), (27, 8)]

/-- The heads of a major type: the initial byte holds the type in its three high bits, and in the
others the argument or the code of its width. -/
inductive Head (major : Nat) : Nat → Bytes → Prop
  | short {n : Nat} : n < 24 → Head major n [UInt8.ofNat (32 * major + n)]
  | long {code : Nat} {digits : Bytes} : (code, digits.length) ∈ longForms →
      Head major (Bytes.toNat digits) (UInt8.ofNat (32 * major + code) :: digits)

/-- The integers with a sign. A negative one is written by its distance from minus one. -/
inductive Integer : Int → Bytes → Prop
  | nonneg {n : Nat} {p : Bytes} : Head 0 n p → Integer n p
  | negative {n : Nat} {p : Bytes} : Head 1 n p → Integer (-1 - n) p

/-- The byte strings. -/
inductive Octets : Bytes → Bytes → Prop
  | mk {h content : Bytes} : Head 2 content.length h → Octets content (h ++ content)

/-- The texts: their length is that of their UTF-8 form. -/
inductive Text : String → Bytes → Prop
  | mk {h : Bytes} {s : String} : Head 3 (Bytes.ofText s).length h → Text s (h ++ Bytes.ofText s)

/-- The truth values. -/
inductive Truth : Bool → Bytes → Prop
  | no : Truth false [0xf4]
  | yes : Truth true [0xf5]

/-! ## Heads -/

/-- Taking some bytes reads the byte strings of that length. -/
theorem take_reads (n : Nat) : Reads (take n) fun digits p => p = digits ∧ digits.length = n := by
  intro b digits rest
  constructor
  · intro h
    refine ⟨digits, ⟨rfl, length_of_take h⟩, ?_⟩
    induction n generalizing b digits with
    | zero =>
      cases h
      rfl
    | succ n ih =>
      cases b with
      | nil => cases h
      | cons x b =>
        rw [take] at h
        split at h
        · next htake =>
          cases h
          rw [ih _ _ htake]
          rfl
        · cases h
  · rintro ⟨p, ⟨rfl, rfl⟩, rfl⟩
    exact take_append p rest

/-- A number of some bytes is read from the byte strings of that length, highest byte first. -/
theorem number_reads (k : Nat) :
    Reads (number k) fun n p => p.length = k ∧ Bytes.toNat p = n := by
  intro b n rest
  constructor
  · intro h
    obtain ⟨⟨digits, rest'⟩, htake, h⟩ := bind_eq_ok.1 h
    cases h
    obtain ⟨p, ⟨rfl, hlen⟩, rfl⟩ := (take_reads k _ _ _).1 htake
    exact ⟨p, ⟨hlen, rfl⟩, rfl⟩
  · rintro ⟨p, ⟨hlen, rfl⟩, rfl⟩
    exact bind_eq_ok.2 ⟨(p, rest), (take_reads k).ok ⟨rfl, hlen⟩ rest, rfl⟩

/-- A code is an argument itself or announces the bytes of one. -/
theorem argument_eq_ok_iff {code n : Nat} {behind rest : Bytes} :
    argument code behind = .ok (n, rest) ↔
      (code < 24 ∧ n = code ∧ behind = rest) ∨
      ∃ digits, (code, digits.length) ∈ longForms ∧ Bytes.toNat digits = n ∧
        behind = digits ++ rest := by
  by_cases hs : code < 24
  · have hl : ∀ k, (code, k) ∉ longForms := by
      intro k
      simp only [longForms, List.mem_cons, Prod.mk.injEq, List.not_mem_nil, or_false]
      omega
    simp [argument, hs, hl, eq_comm]
  have hlong : ∀ {width}, (∀ k, (code, k) ∈ longForms ↔ k = width) →
      (number width behind = .ok (n, rest) ↔
        ∃ digits, (code, digits.length) ∈ longForms ∧ Bytes.toNat digits = n ∧
          behind = digits ++ rest) := by
    intro width hw
    simp only [hw, number_reads width behind n rest, and_assoc]
  by_cases h1 : code = 24
  · subst h1; simpa [argument] using hlong (by simp [longForms])
  by_cases h2 : code = 25
  · subst h2; simpa [argument] using hlong (by simp [longForms])
  by_cases h4 : code = 26
  · subst h4; simpa [argument] using hlong (by simp [longForms])
  by_cases h8 : code = 27
  · subst h8; simpa [argument] using hlong (by simp [longForms])
  · simp [argument, hs, h1, h2, h4, h8, longForms, mismatch_ne_ok]

/-- The codes that announce further bytes end at 27. -/
theorem code_lt_of_longForms {code k : Nat} (h : (code, k) ∈ longForms) : code < 28 := by
  simp only [longForms, List.mem_cons, Prod.mk.injEq, List.not_mem_nil, or_false] at h
  omega

/-- A code that has an argument is no reserved one. -/
theorem code_lt_of_argument {code n : Nat} {behind rest : Bytes}
    (h : argument code behind = .ok (n, rest)) : code < 28 := by
  rcases argument_eq_ok_iff.1 h with ⟨hs, -, -⟩ | ⟨digits, hl, -, -⟩
  · omega
  · exact code_lt_of_longForms hl

/-- An input starts with a head just if its first byte has the major type, and under the code that
this byte holds the argument follows. -/
theorem head_cons_iff {major n : Nat} {x : UInt8} {behind rest : Bytes} (hm : major < 8) :
    (∃ p, Head major n p ∧ x :: behind = p ++ rest) ↔
      x.toNat / 32 = major ∧ argument (x.toNat % 32) behind = .ok (n, rest) := by
  have hinitial : ∀ {code}, code < 32 → x = UInt8.ofNat (32 * major + code) →
      x.toNat / 32 = major ∧ x.toNat % 32 = code := by
    rintro code hc rfl
    rw [toNat_initial hm hc]
    omega
  have hx : ∀ {code}, x.toNat / 32 = major → x.toNat % 32 = code →
      x = UInt8.ofNat (32 * major + code) := by
    rintro code rfl rfl
    rw [Nat.div_add_mod, UInt8.ofNat_toNat]
  rw [argument_eq_ok_iff]
  constructor
  · rintro ⟨p, hp, hb⟩
    cases hp with
    | short hn =>
      obtain ⟨rfl, rfl⟩ := List.cons.inj hb
      obtain ⟨hmajor, hcode⟩ := hinitial (by omega) rfl
      exact ⟨hmajor, .inl ⟨by omega, hcode.symm, rfl⟩⟩
    | long hl =>
      obtain ⟨rfl, rfl⟩ := List.cons.inj hb
      have hc := code_lt_of_longForms hl
      obtain ⟨hmajor, hcode⟩ := hinitial (by omega) rfl
      rw [hcode]
      exact ⟨hmajor, .inr ⟨_, hl, rfl, rfl⟩⟩
  · rintro ⟨hmajor, ⟨hs, rfl, rfl⟩ | ⟨digits, hl, rfl, rfl⟩⟩
    · exact ⟨_, .short hs, by rw [← hx hmajor rfl]; rfl⟩
    · exact ⟨_, .long hl, by rw [← hx hmajor rfl]; rfl⟩

/-- A head reads back, whatever follows it. -/
theorem Head.isHead {major n : Nat} {p : Bytes} (h : Head major n p) (hm : major < 8) :
    IsHead major n p := by
  cases h with
  | short hn =>
    exact isHead_of_code hm (by omega) fun rest => argument_eq_ok_iff.2 (.inl ⟨hn, rfl, rfl⟩)
  | long hl =>
    have hc := code_lt_of_longForms hl
    exact isHead_of_code hm hc fun rest => argument_eq_ok_iff.2 (.inr ⟨_, hl, rfl, rfl⟩)

/-- What a head announces has 64 bits at most. -/
theorem Head.lt {major n : Nat} {p : Bytes} (h : Head major n p) (hm : major < 8) : n < 2 ^ 64 := by
  obtain ⟨x, behind, -, -, -, ha⟩ := h.isHead hm
  exact argument_lt (ha [])

/-! ## Items -/

/-- A head is not empty. -/
theorem Head.ne_nil {major n : Nat} {p : Bytes} (h : Head major n p) : p ≠ [] := by
  cases h <;> exact List.cons_ne_nil _ _

/-- A reader of spellings that are not empty looks at the first byte. -/
theorem reads_of_cons {α : Type} {read : Reader α} {L : α → Bytes → Prop}
    (hread : ∀ r, read [] ≠ .ok r) (hL : ∀ {a p}, L a p → p ≠ [])
    (h : ∀ x behind a rest, read (x :: behind) = .ok (a, rest) ↔
      ∃ p, L a p ∧ x :: behind = p ++ rest) : Reads read L := by
  intro b a rest
  cases b with
  | cons x behind => exact h x behind a rest
  | nil =>
    constructor
    · intro h
      exact absurd h (hread _)
    · rintro ⟨p, hp, hb⟩
      exact absurd (List.append_eq_nil_iff.1 hb.symm).1 (hL hp)

/-- An argument under a code that fills the whole byte is that of a number without sign. -/
theorem argument_toNat_iff {x : UInt8} {n : Nat} {behind rest : Bytes} :
    argument x.toNat behind = .ok (n, rest) ↔ ∃ p, Head 0 n p ∧ x :: behind = p ++ rest := by
  rw [head_cons_iff (by decide)]
  constructor
  · intro h
    have hx := code_lt_of_argument h
    rw [Nat.mod_eq_of_lt (by omega)]
    exact ⟨by omega, h⟩
  · rintro ⟨hmajor, h⟩
    rwa [Nat.mod_eq_of_lt (by omega)] at h

/-- Naturals of 64 bits are read from the heads of major type 0. -/
theorem readUInt64_reads : Reads readUInt64 (Head 0) :=
  reads_of_cons nofun Head.ne_nil fun _ _ _ _ => argument_toNat_iff

/-- A value that has been read is fitted into its target just if it is within the bounds. -/
theorem fit_eq_ok {α : Type} {value unread : Nat} {source target : String} {fits : Bool}
    {result a : α} {rest rest' : Bytes} :
    fit value unread source target fits result rest = .ok (a, rest') ↔
      fits = true ∧ result = a ∧ rest = rest' := by
  cases fits <;> simp [fit]

/-- A number of any width that has to fit in a byte is compared after it has been read. -/
theorem number_fit_iff {k n : Nat} {behind rest : Bytes} {unread : Nat} {source : String} :
    (number k behind >>= fun r => fit r.1 unread source "u8" (decide (r.1 < 256)) r.1 r.2) =
        .ok (n, rest) ↔ number k behind = .ok (n, rest) ∧ n < 256 := by
  rw [bind_eq_ok]
  constructor
  · rintro ⟨⟨v, behind'⟩, hv, h⟩
    obtain ⟨hfits, rfl, rfl⟩ := fit_eq_ok.1 h
    exact ⟨hv, of_decide_eq_true hfits⟩
  · rintro ⟨hv, hn⟩
    exact ⟨(n, rest), hv, fit_eq_ok.2 ⟨decide_eq_true hn, rfl, rfl⟩⟩

/-- The reader of bytes by its first byte: the width is told by the code, and the number must fit.
-/
theorem readUInt8_cons (x : UInt8) (behind : Bytes) :
    readUInt8 (x :: behind) =
      if x.toNat < 0x18 then .ok (x.toNat, behind)
      else if x.toNat = 0x18 then number 1 behind
      else if x.toNat = 0x19 then number 2 behind >>= fun r =>
        fit r.1 (x :: behind).length "u16" "u8" (decide (r.1 < 256)) r.1 r.2
      else if x.toNat = 0x1a then number 4 behind >>= fun r =>
        fit r.1 (x :: behind).length "u32" "u8" (decide (r.1 < 256)) r.1 r.2
      else if x.toNat = 0x1b then number 8 behind >>= fun r =>
        fit r.1 (x :: behind).length "u64" "u8" (decide (r.1 < 256)) r.1 r.2
      else mismatch x.toNat behind .u8 := rfl

/-- A number of 8 bits may be written in any width. -/
theorem readUInt8_cons_iff {x : UInt8} {n : Nat} {behind rest : Bytes} :
    readUInt8 (x :: behind) = .ok (n, rest) ↔
      argument x.toNat behind = .ok (n, rest) ∧ n < 256 := by
  rw [readUInt8_cons, argument]
  split
  · next hs =>
    refine ⟨fun h => ⟨h, ?_⟩, And.left⟩
    cases h
    omega
  split
  · exact ⟨fun h => ⟨h, number_lt h⟩, And.left⟩
  split
  · exact number_fit_iff
  split
  · exact number_fit_iff
  split
  · exact number_fit_iff
  · simp [mismatch_ne_ok]

/-- Bytes are read from the heads of major type 0, of any width, that hold a number below 256. -/
theorem readUInt8_reads : Reads readUInt8 fun n p => Head 0 n p ∧ n < 256 := by
  refine reads_of_cons nofun (fun h => h.1.ne_nil) ?_
  intro x behind n rest
  rw [readUInt8_cons_iff, argument_toNat_iff]
  constructor
  · rintro ⟨⟨p, hp, hb⟩, hn⟩
    exact ⟨p, ⟨hp, hn⟩, hb⟩
  · rintro ⟨p, ⟨hp, hn⟩, hb⟩
    exact ⟨⟨p, hp, hb⟩, hn⟩

/-- The reader of signed integers by its first byte: major type 0 gives the number and major type 1
its distance from minus one. -/
theorem readInt64_cons (x : UInt8) (behind : Bytes) :
    readInt64 (x :: behind) =
      if x.toNat ≤ 0x1b then argument x.toNat behind >>= fun r =>
        fit r.1 (x :: behind).length "u64" "i64" (decide (r.1 < 2 ^ 63)) (r.1 : Int) r.2
      else if 0x20 ≤ x.toNat ∧ x.toNat ≤ 0x3b then argument (x.toNat - 0x20) behind >>= fun r =>
        fit r.1 (x :: behind).length "u64" "i64" (decide (r.1 < 2 ^ 63)) (-1 - (r.1 : Int)) r.2
      else mismatch x.toNat behind .i64 := rfl

/-- Integers of 64 bits are read from the spellings of integers that have so many. -/
theorem readInt64_reads :
    Reads readInt64 fun n p => Integer n p ∧ -(2 ^ 63) ≤ n ∧ n < 2 ^ 63 := by
  refine reads_of_cons nofun ?_ ?_
  · rintro n p ⟨h, -⟩
    cases h with
    | nonneg h | negative h => exact h.ne_nil
  intro x behind n rest
  constructor
  · intro h
    rw [readInt64_cons] at h
    split at h
    · obtain ⟨⟨v, behind'⟩, hv, h⟩ := bind_eq_ok.1 h
      obtain ⟨hfits, rfl, rfl⟩ := fit_eq_ok.1 h
      have hfits := of_decide_eq_true hfits
      obtain ⟨p, hp, hb⟩ := argument_toNat_iff.1 hv
      exact ⟨p, ⟨.nonneg hp, by omega, by omega⟩, hb⟩
    split at h
    · next hx =>
      obtain ⟨⟨v, behind'⟩, hv, h⟩ := bind_eq_ok.1 h
      obtain ⟨hfits, rfl, rfl⟩ := fit_eq_ok.1 h
      have hfits := of_decide_eq_true hfits
      have hcode : x.toNat - 0x20 = x.toNat % 32 := by omega
      rw [hcode] at hv
      obtain ⟨p, hp, hb⟩ := (head_cons_iff (by decide : 1 < 8)).2 ⟨by omega, hv⟩
      exact ⟨p, ⟨.negative hp, by omega, by omega⟩, hb⟩
    · exact absurd h mismatch_ne_ok
  · rintro ⟨p, ⟨hp, h0, h1⟩, hb⟩
    rw [readInt64_cons]
    cases hp with
    | @nonneg v _ hp =>
      have hv := argument_toNat_iff.2 ⟨p, hp, hb⟩
      have hx := code_lt_of_argument hv
      rw [if_pos (by omega)]
      exact bind_eq_ok.2 ⟨_, hv, fit_eq_ok.2 ⟨decide_eq_true (by omega), rfl, rfl⟩⟩
    | @negative v _ hp =>
      obtain ⟨hmajor, hv⟩ := (head_cons_iff (by decide)).1 ⟨p, hp, hb⟩
      have hcode := code_lt_of_argument hv
      have hsub : x.toNat - 0x20 = x.toNat % 32 := by omega
      rw [if_neg (by omega), if_pos (by omega), hsub]
      exact bind_eq_ok.2 ⟨_, hv, fit_eq_ok.2 ⟨decide_eq_true (by omega), rfl, rfl⟩⟩

/-- Truth values are read from their two spellings. -/
theorem readBool_reads : Reads readBool Truth := by
  refine reads_of_cons nofun (fun h => by cases h <;> exact List.cons_ne_nil _ _) ?_
  intro x behind v rest
  have hread : readBool (x :: behind) =
      if x = 0xf4 then .ok (false, behind)
      else if x = 0xf5 then .ok (true, behind)
      else mismatch x.toNat behind .bool := rfl
  constructor
  · intro h
    rw [hread] at h
    split at h
    · next hx =>
      cases h
      exact ⟨_, .no, by rw [hx]; rfl⟩
    split at h
    · next hx =>
      cases h
      exact ⟨_, .yes, by rw [hx]; rfl⟩
    · exact absurd h mismatch_ne_ok
  · rintro ⟨p, hp, hb⟩
    cases hp <;> obtain ⟨rfl, rfl⟩ := List.cons.inj hb <;> rfl

/-- A null is read from its byte and from nothing else. -/
theorem readNull_eq_ok {b rest : Bytes} {u : Unit} :
    readNull b = .ok (u, rest) ↔ b = 0xf6 :: rest := by
  cases b with
  | nil => exact ⟨nofun, nofun⟩
  | cons x behind =>
    have hread : readNull (x :: behind) =
        if x = 0xf6 then .ok ((), behind) else mismatch x.toNat behind .null := rfl
    rw [hread]
    split
    · next hx => simp [hx]
    · next hx => simp [hx, mismatch_ne_ok]

/-- The reader of byte strings by its first byte: the length stands in the head and the bytes behind
it. -/
theorem readBytes_cons (x : UInt8) (behind : Bytes) :
    readBytes (x :: behind) =
      if x.toNat / 32 = 2 ∧ x.toNat % 32 ≠ 31 then
        argument (x.toNat % 32) behind >>= fun r => take r.1 r.2
      else mismatch x.toNat behind .bytes := rfl

/-- A byte string of definite length starts with its size. -/
theorem readBytes_reads : Reads readBytes Octets := by
  refine reads_of_cons nofun ?_ ?_
  · rintro content p ⟨h⟩ hp
    exact h.ne_nil (List.append_eq_nil_iff.1 hp).1
  intro x behind content rest
  constructor
  · intro h
    rw [readBytes_cons] at h
    split at h
    · next hx =>
      obtain ⟨⟨size, behind'⟩, hsize, h⟩ := bind_eq_ok.1 h
      obtain ⟨p, ⟨rfl, rfl⟩, rfl⟩ := (take_reads size _ _ _).1 h
      obtain ⟨q, hq, hb⟩ := (head_cons_iff (by decide)).2 ⟨hx.1, hsize⟩
      exact ⟨q ++ p, ⟨hq⟩, by rw [hb, List.append_assoc]⟩
    · exact absurd h mismatch_ne_ok
  · rintro ⟨_, ⟨hq⟩, hb⟩
    rw [List.append_assoc] at hb
    obtain ⟨hmajor, hsize⟩ := (head_cons_iff (by decide)).1 ⟨_, hq, hb⟩
    have hcode := code_lt_of_argument hsize
    rw [readBytes_cons, if_pos ⟨hmajor, by omega⟩]
    exact bind_eq_ok.2 ⟨_, hsize, take_append content rest⟩

/-- The reader of texts by its first byte: like a byte string, but the bytes have to be UTF-8. -/
theorem readText_cons (x : UInt8) (behind : Bytes) :
    readText (x :: behind) =
      if x.toNat / 32 = 3 ∧ x.toNat % 32 ≠ 31 then
        argument (x.toNat % 32) behind >>= fun r => take r.1 r.2 >>= fun c =>
          match Bytes.text? c.1 with
          | some s => .ok (s, c.2)
          | none => .error (.badText (x :: behind).length)
      else mismatch x.toNat behind .text := rfl

/-- The bytes of a text of definite length have to be its UTF-8 form. -/
theorem readText_reads : Reads readText Text := by
  refine reads_of_cons nofun ?_ ?_
  · rintro s p ⟨h⟩ hp
    exact h.ne_nil (List.append_eq_nil_iff.1 hp).1
  intro x behind s rest
  constructor
  · intro h
    rw [readText_cons] at h
    split at h
    · next hx =>
      obtain ⟨⟨size, behind'⟩, hsize, h⟩ := bind_eq_ok.1 h
      obtain ⟨⟨content, rest'⟩, hcontent, h⟩ := bind_eq_ok.1 h
      dsimp only at h
      split at h
      · next htext =>
        cases h
        obtain ⟨p, ⟨rfl, hlen⟩, rfl⟩ := (take_reads size _ _ _).1 hcontent
        obtain ⟨q, hq, hb⟩ := (head_cons_iff (by decide)).2 ⟨hx.1, hsize⟩
        have hform := Bytes.ofText_of_text? htext
        subst hform hlen
        exact ⟨q ++ _, ⟨hq⟩, by rw [hb, List.append_assoc]⟩
      · cases h
    · exact absurd h mismatch_ne_ok
  · rintro ⟨_, ⟨hq⟩, hb⟩
    rw [List.append_assoc] at hb
    obtain ⟨hmajor, hsize⟩ := (head_cons_iff (by decide)).1 ⟨_, hq, hb⟩
    have hcode := code_lt_of_argument hsize
    have hcontent := take_append (Bytes.ofText s) rest
    rw [readText_cons, if_pos ⟨hmajor, by omega⟩]
    refine bind_eq_ok.2 ⟨_, hsize, bind_eq_ok.2 ⟨_, hcontent, ?_⟩⟩
    rw [Bytes.text?_ofText]

/-- The reader of arrays by its first byte: only the head is read, and an open array has no size. -/
theorem readArray_cons (x : UInt8) (behind : Bytes) :
    readArray (x :: behind) =
      if x.toNat / 32 = 4 then
        if x.toNat % 32 = 31 then .ok (none, behind)
        else argument (x.toNat % 32) behind >>= fun r => .ok (some r.1, r.2)
      else mismatch x.toNat behind .array := rfl

/-- An array of definite length starts with the number of its items. -/
theorem readArray_iff {b rest : Bytes} {n : Nat} :
    readArray b = .ok (some n, rest) ↔ ∃ p, Head 4 n p ∧ b = p ++ rest := by
  cases b with
  | nil =>
    constructor
    · intro h
      cases h
    · rintro ⟨p, hp, hb⟩
      exact absurd (List.append_eq_nil_iff.1 hb.symm).1 hp.ne_nil
  | cons x behind =>
    rw [head_cons_iff (by decide)]
    constructor
    · intro h
      rw [readArray_cons] at h
      split at h
      · next hx =>
        split at h
        · cases h
        · obtain ⟨⟨size, behind'⟩, hsize, h⟩ := bind_eq_ok.1 h
          cases h
          exact ⟨hx, hsize⟩
      · exact absurd h mismatch_ne_ok
    · rintro ⟨hmajor, hsize⟩
      have hcode := code_lt_of_argument hsize
      rw [readArray_cons, if_pos hmajor, if_neg (by omega)]
      exact bind_eq_ok.2 ⟨_, hsize, rfl⟩

/-- Tags are read from the heads of major type 6. -/
theorem readTag_reads : Reads readTag (Head 6) := by
  refine reads_of_cons nofun Head.ne_nil ?_
  intro x behind n rest
  have hread : readTag (x :: behind) =
      if x.toNat / 32 = 6 then argument (x.toNat % 32) behind
      else mismatch x.toNat behind .tag := rfl
  rw [hread, head_cons_iff (by decide)]
  split
  · next hx => exact ⟨fun h => ⟨hx, h⟩, And.right⟩
  · next hx => simp [hx, mismatch_ne_ok]

end Cbor

end LedgerFeed
