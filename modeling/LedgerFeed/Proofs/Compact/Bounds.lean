import LedgerFeed.Codec.Compact
import LedgerFeed.Proofs.Cbor.Bounds
import LedgerFeed.Proofs.Value.Lengths

/-!
# Bounds on compact values

Whatever bytes it is read from, a value is no deeper than its reader may open levels, and all
lengths in it have 64 bits (`readValue_gives`).
-/

namespace LedgerFeed.Compact

/-- All that a reader reads is of a kind. -/
def Gives {α : Type} (read : Reader α) (P : α → Prop) : Prop :=
  ∀ b a rest, read b = .ok (a, rest) → P a

/-- An item is read from a payload just if it is read at all. -/
theorem item_eq_ok {α : Type} {read : Cbor.Reader α} {b : Bytes} {r : α × Bytes} :
    item read b = .ok r ↔ read b = .ok r := by
  unfold item
  split <;> simp_all

section
variable {α β : Type} {read : Reader α} {P : α → Prop}

/-- A length that is read has 64 bits at most. -/
theorem readLength_gives : Gives readLength (· < 2 ^ 64) := by
  intro b n rest h
  obtain ⟨⟨size, rest'⟩, hsize, h⟩ := bind_eq_ok.1 h
  dsimp only at h
  split at h
  · next n' =>
    cases h
    exact Cbor.readArray_lt (item_eq_ok.1 hsize)
  · cases h

/-- The size of a text that is read has 64 bits at most. -/
theorem readText_gives : Gives (item Cbor.readText) fun s => (Bytes.ofText s).length < 2 ^ 64 :=
  fun _ _ _ h => Cbor.readText_lt (item_eq_ok.1 h)

/-- A repeated reader gives so many items, each of the kind that the reader gives. -/
theorem repeated_gives (hread : Gives read P) (n : Nat) :
    Gives (repeated read n) fun as => as.length = n ∧ ∀ a ∈ as, P a := by
  induction n with
  | zero =>
    intro b as rest h
    cases h
    exact ⟨rfl, List.forall_mem_nil P⟩
  | succ n ih =>
    intro b as rest h
    obtain ⟨⟨a, rest₁⟩, ha, h⟩ := bind_eq_ok.1 h
    obtain ⟨⟨as', rest₂⟩, has, h⟩ := bind_eq_ok.1 h
    cases h
    obtain ⟨hlen, hall⟩ := ih _ _ _ has
    exact ⟨congrArg (· + 1) hlen, List.forall_mem_cons.2 ⟨hread _ _ _ ha, hall⟩⟩

/-- A list has a size of 64 bits at most, and its items are of the kind that the reader gives. -/
theorem readList_gives (hread : Gives read P) :
    Gives (readList read) fun as => as.length < 2 ^ 64 ∧ ∀ a ∈ as, P a := by
  intro b as rest h
  obtain ⟨⟨n, rest'⟩, hn, h⟩ := bind_eq_ok.1 h
  obtain ⟨hlen, hall⟩ := repeated_gives hread n _ _ _ h
  rw [hlen]
  exact ⟨readLength_gives _ _ _ hn, hall⟩

/-- A pair has parts of the kinds that the two readers give. -/
theorem readPair_gives {second : Reader β} {Q : β → Prop} (hfirst : Gives read P)
    (hsecond : Gives second Q) : Gives (readPair read second) fun r => P r.1 ∧ Q r.2 := by
  intro b r rest h
  obtain ⟨⟨_, rest₁⟩, -, h⟩ := bind_eq_ok.1 h
  obtain ⟨⟨x, rest₂⟩, hx, h⟩ := bind_eq_ok.1 h
  obtain ⟨⟨y, rest₃⟩, hy, h⟩ := bind_eq_ok.1 h
  cases h
  exact ⟨hfirst _ _ _ hx, hsecond _ _ _ hy⟩

/-- An optional item that is there is of the kind that the reader gives. -/
theorem readOptional_gives (hread : Gives read P) :
    Gives (readOptional read) fun a => ∀ x ∈ a, P x := by
  intro b a rest h
  unfold readOptional at h
  split at h
  · cases h
  · obtain ⟨⟨_, rest₁⟩, -, h⟩ := bind_eq_ok.1 h
    cases h
    intro x hx
    cases hx
  · obtain ⟨⟨x, rest₁⟩, hx, h⟩ := bind_eq_ok.1 h
    cases h
    intro y hy
    cases hy
    exact hread _ _ _ hx

end

/-- A value opens one level more than the values inside it. -/
theorem readBody_gives {levels : Nat} {read : Reader Value}
    (hread : Gives read (Value.Within levels (2 ^ 64))) (k : Kind) :
    Gives (readBody read k) (Value.Within (levels + 1) (2 ^ 64)) := by
  intro b v rest h
  cases k with
  | void =>
    cases h
    exact .leaf rfl trivial
  | optional =>
    obtain ⟨⟨content, rest'⟩, hcontent, h⟩ := bind_eq_ok.1 h
    cases h
    cases content with
    | none => exact .leaf rfl trivial
    | some v => exact .present (readOptional_gives hread _ _ _ hcontent v rfl)
  | text =>
    obtain ⟨⟨s, rest'⟩, hs, h⟩ := bind_eq_ok.1 h
    cases h
    exact .leaf rfl (readText_gives _ _ _ hs)
  | bool | address | integer | fixed =>
    obtain ⟨⟨_, rest'⟩, -, h⟩ := bind_eq_ok.1 h
    cases h
    exact .leaf rfl trivial
  | array =>
    obtain ⟨⟨items, rest'⟩, hitems, h⟩ := bind_eq_ok.1 h
    cases h
    obtain ⟨hlen, hall⟩ := readList_gives hread _ _ _ hitems
    exact .array hlen hall
  | dictionary =>
    obtain ⟨⟨entries, rest'⟩, hentries, h⟩ := bind_eq_ok.1 h
    cases h
    obtain ⟨hlen, hall⟩ := readList_gives (readPair_gives hread hread) _ _ _ hentries
    exact .dictionary hlen hall
  | composite k =>
    obtain ⟨⟨typeId, rest₁⟩, htypeId, h⟩ := bind_eq_ok.1 h
    obtain ⟨⟨fields, rest₂⟩, hfields, h⟩ := bind_eq_ok.1 h
    cases h
    obtain ⟨hlen, hall⟩ := readList_gives (readPair_gives readText_gives hread) _ _ _ hfields
    exact .composite (readText_gives _ _ _ htypeId) hlen hall
  | path =>
    obtain ⟨⟨domain, rest₁⟩, hdomain, h⟩ := bind_eq_ok.1 h
    obtain ⟨⟨identifier, rest₂⟩, hidentifier, h⟩ := bind_eq_ok.1 h
    cases h
    exact .leaf rfl ⟨readText_gives _ _ _ hdomain, readText_gives _ _ _ hidentifier⟩
  | type =>
    obtain ⟨⟨kind, rest₁⟩, hkind, h⟩ := bind_eq_ok.1 h
    obtain ⟨⟨typeId, rest₂⟩, htypeId, h⟩ := bind_eq_ok.1 h
    cases h
    exact .leaf rfl ⟨readText_gives _ _ _ hkind, readOptional_gives readText_gives _ _ _ htypeId⟩

/-- A value is no deeper than its reader may open levels, and its lengths have 64 bits. -/
theorem readValue_gives (levels : Nat) :
    Gives (readValue levels) (Value.Within levels (2 ^ 64)) := by
  induction levels with
  | zero =>
    intro _ _ _ h
    cases h
  | succ levels ih =>
    intro b v rest h
    obtain ⟨⟨size, rest₁⟩, -, h⟩ := bind_eq_ok.1 h
    dsimp only at h
    split at h
    · cases h
    · obtain ⟨⟨code, rest₂⟩, -, h⟩ := bind_eq_ok.1 h
      dsimp only at h
      split at h
      · cases h
      · next k _ =>
        split at h
        · exact readBody_gives ih k _ _ _ h
        · cases h

/-- A decoded value is not too deep, and its lengths have 64 bits. -/
theorem decode_within {payload : Bytes} {v : Value} (h : decode payload = .ok v) :
    v.Within Value.maxDepth (2 ^ 64) := by
  unfold decode at h
  split at h
  · cases h
  · obtain ⟨⟨_, rest₁⟩, -, h⟩ := bind_eq_ok.1 h
    obtain ⟨⟨v', rest₂⟩, hv, h⟩ := bind_eq_ok.1 h
    dsimp only at h
    split at h
    · cases h
      exact readValue_gives _ _ _ _ hv
    · cases h

end LedgerFeed.Compact
