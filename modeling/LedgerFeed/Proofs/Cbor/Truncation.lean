import LedgerFeed.Proofs.Cbor.Grammar

/-!
# CBOR items cut off

A spelling that is cut off is noticed as the end of the input and as nothing else: `Starves` says so
of a reader and its language, and there is one law of that form for each reader. All of them rest on
`Head.cut`, the law of heads that are cut off.
-/

namespace LedgerFeed

/-- A byte string is the beginning of another, and not all of it. -/
def IsCut (q p : Bytes) : Prop :=
  ∃ r, r ≠ [] ∧ p = q ++ r

/-- What a byte string is cut to is shorter. -/
theorem IsCut.length_lt {p q : Bytes} (h : IsCut q p) : q.length < p.length := by
  obtain ⟨r, hr, rfl⟩ := h
  have := List.length_pos_iff.2 hr
  rw [List.length_append]
  omega

/-- The empty byte string cannot be cut. -/
theorem isCut_nil (q : Bytes) : ¬ IsCut q [] := fun h => Nat.not_lt_zero _ h.length_lt

/-- A single byte is cut to nothing. -/
theorem isCut_singleton {x : UInt8} {q : Bytes} (h : IsCut q [x]) : q = [] :=
  List.length_eq_zero_iff.1 (Nat.lt_one_iff.1 h.length_lt)

/-- What is cut off has the first byte, if it has any. -/
theorem isCut_cons {x : UInt8} {q p : Bytes} (h : IsCut q (x :: p)) :
    q = [] ∨ ∃ q', q = x :: q' ∧ IsCut q' p := by
  obtain ⟨r, hr, hp⟩ := h
  cases q with
  | nil => exact .inl rfl
  | cons y q' =>
    obtain ⟨rfl, rfl⟩ := List.cons.inj hp
    exact .inr ⟨q', rfl, r, hr, rfl⟩

/-- Two byte strings are cut off in the first or in the second. -/
theorem isCut_append {q p p' : Bytes} (h : IsCut q (p ++ p')) :
    IsCut q p ∨ ∃ q', q = p ++ q' ∧ IsCut q' p' := by
  obtain ⟨r, hr, hp⟩ := h
  rcases List.append_eq_append_iff.1 hp with ⟨q', rfl, rfl⟩ | ⟨r', rfl, rfl⟩
  · exact .inr ⟨q', rfl, r, hr, rfl⟩
  · cases r' with
    | nil => exact .inr ⟨[], by simp, p', hr, rfl⟩
    | cons y r' => exact .inl ⟨y :: r', List.cons_ne_nil _ _, rfl⟩

/-- A reader of a language has the fault `e` wherever a spelling is cut off. -/
def Starves {ε α : Type} (read : Bytes → Except ε (α × Bytes)) (L : α → Bytes → Prop) (e : ε) :
    Prop :=
  ∀ a p q, L a p → IsCut q p → read q = .error e

section
variable {ε α β : Type} {read : Bytes → Except ε (α × Bytes)} {L : α → Bytes → Prop} {e : ε}

/-- What is read from a spelling that is cut off need not be looked at. -/
theorem Starves.bind_error (hs : Starves read L e) {a : α} {p q : Bytes} (hp : L a p)
    (hq : IsCut q p) (f : α × Bytes → Except ε β) : (read q >>= f) = .error e := by
  rw [hs a p q hp hq]
  rfl

/-- A reader that goes on behind a spelling has the fault if what it goes on with has it. -/
theorem Starves.bind (hs : Starves read L e) (h : Reads read L) {a : α} {p p' q : Bytes}
    {f : α × Bytes → Except ε β} (hp : L a p) (hq : IsCut q (p ++ p'))
    (hf : ∀ q', IsCut q' p' → f (a, q') = .error e) : (read q >>= f) = .error e := by
  rcases isCut_append hq with hq | ⟨q', rfl, hq'⟩
  · exact hs.bind_error hp hq f
  · rw [h.ok hp q']
    exact hf q' hq'

end

namespace Cbor

/-! ## Heads -/

/-- Too few bytes are left to take so many. -/
theorem take_short {n : Nat} {b : Bytes} (h : b.length < n) : take n b = .error .endOfInput := by
  induction n generalizing b with
  | zero => exact absurd h (Nat.not_lt_zero _)
  | succ n ih =>
    cases b with
    | nil => rfl
    | cons x b => rw [take, ih (Nat.lt_of_succ_lt_succ h)]

/-- Too few bytes are left for a number of so many. -/
theorem number_short {k : Nat} {b : Bytes} (h : b.length < k) :
    number k b = .error .endOfInput := by
  rw [number, take_short h]
  rfl

/-- An argument that is announced is missed if its bytes are not all there. -/
theorem argument_short {code k : Nat} {b : Bytes} (hk : (code, k) ∈ longForms) (h : b.length < k) :
    argument code b = .error .endOfInput := by
  simp only [longForms, List.mem_cons, Prod.mk.injEq, List.not_mem_nil, or_false] at hk
  rcases hk with ⟨rfl, rfl⟩ | ⟨rfl, rfl⟩ | ⟨rfl, rfl⟩ | ⟨rfl, rfl⟩ <;> exact number_short h

/-- Of a head that is cut off nothing is left, or a first byte without its argument. -/
theorem Head.cut {major n : Nat} {p q : Bytes} (h : Head major n p) (hm : major < 8)
    (hq : IsCut q p) :
    q = [] ∨ ∃ x q', q = x :: q' ∧ x.toNat / 32 = major ∧ x.toNat % 32 < 28 ∧
      argument (x.toNat % 32) q' = .error .endOfInput := by
  cases h with
  | short => exact .inl (isCut_singleton hq)
  | @long code _ hl =>
    rcases isCut_cons hq with rfl | ⟨q', rfl, hq'⟩
    · exact .inl rfl
    · have hcode := code_lt_of_longForms hl
      have hx := toNat_initial hm (Nat.lt_trans hcode (by decide : 28 < 32))
      have hc : (UInt8.ofNat (32 * major + code)).toNat % 32 = code := by omega
      refine .inr ⟨_, q', rfl, by omega, by omega, ?_⟩
      rw [hc]
      exact argument_short hl hq'.length_lt

/-- A reader that passes the fault of an argument on starves on heads. -/
theorem starves_of_head {α : Type} {read : Reader α} {L : α → Bytes → Prop} {major : Nat}
    (hm : major < 8) (hL : ∀ a p, L a p → ∃ n, Head major n p)
    (hnil : read [] = .error .endOfInput)
    (hcons : ∀ x q, x.toNat / 32 = major → x.toNat % 32 < 28 →
      argument (x.toNat % 32) q = .error .endOfInput → read (x :: q) = .error .endOfInput) :
    Starves read L .endOfInput := by
  intro a p q hp hq
  obtain ⟨n, hp⟩ := hL a p hp
  rcases hp.cut hm hq with rfl | ⟨x, q', rfl, hmajor, hcode, ha⟩
  · exact hnil
  · exact hcons x q' hmajor hcode ha

/-- A cut natural leaves its reader without input. -/
theorem readUInt64_starves : Starves readUInt64 (Head 0) .endOfInput := by
  refine starves_of_head (by decide) (fun n _ hp => ⟨n, hp⟩) rfl ?_
  intro x q hmajor _ ha
  have hx : x.toNat = x.toNat % 32 := by omega
  rw [← hx] at ha
  exact ha

/-- A cut tag leaves its reader without input. -/
theorem readTag_starves : Starves readTag (Head 6) .endOfInput := by
  refine starves_of_head (by decide) (fun n _ hp => ⟨n, hp⟩) rfl ?_
  intro x q hmajor _ ha
  exact (if_pos hmajor).trans ha

/-- A cut head of an array leaves its reader without input. -/
theorem readArray_starves :
    Starves readArray (fun size p => ∃ n, size = some n ∧ Head 4 n p) .endOfInput := by
  refine starves_of_head (by decide) (fun _ _ ⟨n, _, hp⟩ => ⟨n, hp⟩) rfl ?_
  intro x q hmajor hcode ha
  rw [readArray_cons, if_pos hmajor, if_neg (by omega), ha]
  rfl

/-- A number of 8 bits that is cut off is not compared, whatever its width. -/
theorem readUInt8_starves : Starves readUInt8 (fun n p => Head 0 n p ∧ n < 256) .endOfInput := by
  refine starves_of_head (by decide) (fun n _ hp => ⟨n, hp.1⟩) rfl ?_
  intro x q hmajor hcode ha
  rw [Nat.mod_eq_of_lt (by omega), argument] at ha
  rw [readUInt8_cons]
  have hwidth : x.toNat < 24 ∨ x.toNat = 24 ∨ x.toNat = 25 ∨ x.toNat = 26 ∨ x.toNat = 27 := by omega
  rcases hwidth with h | h | h | h | h <;> simp (disch := omega) only [if_pos, if_neg] at ha ⊢
  · cases ha
  · exact ha
  all_goals
    rw [ha]
    rfl

/-- A cut integer leaves its reader without input. -/
theorem readInt64_starves :
    Starves readInt64 (fun n p => Integer n p ∧ -(2 ^ 63) ≤ n ∧ n < 2 ^ 63) .endOfInput := by
  rintro n p q ⟨hp, -⟩ hq
  cases hp with
  | nonneg hp =>
    rcases hp.cut (by decide) hq with rfl | ⟨x, q', rfl, hmajor, hcode, ha⟩
    · rfl
    · rw [Nat.mod_eq_of_lt (by omega)] at ha
      rw [readInt64_cons, if_pos (by omega), ha]
      rfl
  | negative hp =>
    rcases hp.cut (by decide) hq with rfl | ⟨x, q', rfl, hmajor, hcode, ha⟩
    · rfl
    · have hsub : x.toNat - 0x20 = x.toNat % 32 := by omega
      rw [readInt64_cons, if_neg (by omega), if_pos (by omega), hsub, ha]
      rfl

/-- A cut truth value leaves its reader without input. -/
theorem readBool_starves : Starves readBool Truth .endOfInput := by
  intro v p q hp hq
  cases hp with
  | no | yes =>
    rw [isCut_singleton hq]
    rfl

/-- Octets behind a head that announces how many they are: what is left of them is a part of the
head, or the whole head and too few octets. -/
theorem Head.cut_append {major : Nat} {h content q : Bytes} (hh : Head major content.length h)
    (hm : major < 8) (hq : IsCut q (h ++ content)) :
    q = [] ∨ ∃ x q', q = x :: q' ∧ x.toNat / 32 = major ∧ x.toNat % 32 < 28 ∧
      (argument (x.toNat % 32) q' >>= fun r => take r.1 r.2) = .error .endOfInput := by
  rcases isCut_append hq with hq | ⟨q', rfl, hq'⟩
  · rcases hh.cut hm hq with rfl | ⟨x, q', rfl, hmajor, hcode, ha⟩
    · exact .inl rfl
    · refine .inr ⟨x, q', rfl, hmajor, hcode, ?_⟩
      rw [ha]
      rfl
  · obtain ⟨x, behind, rfl, hmajor, hcode, ha⟩ := hh.isHead hm
    refine .inr ⟨x, behind ++ q', rfl, hmajor, hcode, ?_⟩
    rw [ha]
    exact take_short hq'.length_lt

/-- A cut byte string leaves its reader without input, in the head or behind it. -/
theorem readBytes_starves : Starves readBytes Octets .endOfInput := by
  rintro content p q ⟨hp⟩ hq
  rcases hp.cut_append (by decide) hq with rfl | ⟨x, q', rfl, hmajor, hcode, ha⟩
  · rfl
  · rwa [readBytes_cons, if_pos ⟨hmajor, by omega⟩]

/-- A text that is cut off is not looked at, so a cut inside a character goes unnoticed. -/
theorem readText_starves : Starves readText Text .endOfInput := by
  rintro s p q ⟨hp⟩ hq
  rcases hp.cut_append (by decide) hq with rfl | ⟨x, q', rfl, hmajor, hcode, ha⟩
  · rfl
  · rw [readText_cons, if_pos ⟨hmajor, by omega⟩, ← bind_assoc, ha]
    rfl

end Cbor

end LedgerFeed
