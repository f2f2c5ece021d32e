import LedgerFeed.Proofs.Json.Weight
import LedgerFeed.Proofs.Value.Lengths
import LedgerFeed.Proofs.Verbose.Contents

/-!
# Bounds on verbose values

A value is no deeper than its reader may open levels, and no length in it reaches the weight of the
tree that it is read from (`ofTree_gives`), let alone the length of the document.
-/

namespace LedgerFeed.Verbose

variable {α : Type} {n : Nat}

/-- All that is read from trees that weigh `n` at most is of a kind. -/
def Gives (n : Nat) (read : Json → Except Fault α) (P : α → Prop) : Prop :=
  ∀ j a, j.weight ≤ n → read j = .ok a → P a

/-- The last member of a name weighs no more than all members. -/
theorem weight_le_of_lastMember? {name : String} {members : List (String × Json)} {j : Json}
    (h : Json.lastMember? name members = some j) : j.weight ≤ Json.weightOfMembers members := by
  induction members with
  | nil => cases h
  | cons m rest ih =>
    obtain ⟨n, k⟩ := m
    rw [Json.lastMember?] at h
    rw [Json.weightOfMembers]
    split at h
    · next found hfound =>
      cases h
      have hle := ih hfound
      omega
    · split at h
      · cases h
        omega
      · cases h

/-- A member weighs no more than its object. -/
theorem Has.weight_le {j i : Json} {name : String} (h : Has j name i) (hn : j.weight ≤ n) :
    i.weight ≤ n := by
  obtain ⟨members, rfl, hi⟩ := h
  have hle := weight_le_of_lastMember? hi
  rw [Json.weight] at hn
  omega

/-- A text in an object is shorter than the weight of the object. -/
theorem Has.length_lt {j : Json} {name s : String} (h : Has j name (.text s))
    (hn : j.weight ≤ n) : (Bytes.ofText s).length < n := by
  have hle := h.weight_le hn
  rw [Json.weight] at hle
  omega

/-- No tree is without weight. -/
theorem weight_pos (j : Json) : 0 < j.weight := by
  cases j <;> simp only [Json.weight] <;> omega

/-- A list has no more items than its trees weigh, each of the kind that the reader gives. -/
theorem readAll_gives {read : Json → Except Fault α} {P : α → Prop} (hread : Gives n read P)
    {items : List Json} {as : List α} (hn : Json.weightOfAll items ≤ n)
    (h : readAll read items = .ok as) :
    as.length ≤ Json.weightOfAll items ∧ ∀ a ∈ as, P a := by
  induction items generalizing as with
  | nil =>
    cases h
    exact ⟨Nat.le_refl 0, List.forall_mem_nil P⟩
  | cons j items ih =>
    obtain ⟨a, ha, h⟩ := bind_eq_ok.1 h
    obtain ⟨as', has, h⟩ := bind_eq_ok.1 h
    cases h
    rw [Json.weightOfAll] at hn ⊢
    obtain ⟨hlen, hall⟩ := ih (by omega) has
    have hpos := weight_pos j
    rw [List.length_cons]
    exact ⟨by omega, List.forall_mem_cons.2 ⟨hread _ _ (by omega) ha, hall⟩⟩

/-- An entry has a key and a value of the kind that the reader gives. -/
theorem readEntry_gives {read : Json → Except Fault Value} {P : Value → Prop}
    (hread : Gives n read P) : Gives n (readEntry read) fun e => P e.1 ∧ P e.2 := by
  intro j e hn h
  obtain ⟨key, value, hkey, hvalue, hk, hv⟩ := readEntry_eq_ok.1 h
  exact ⟨hread _ _ (hkey.weight_le hn) hk, hread _ _ (hvalue.weight_le hn) hv⟩

/-- A field has a name of bounded length and a value of the kind that the reader gives. -/
theorem readField_gives {read : Json → Except Fault Value} {P : Value → Prop}
    (hread : Gives n read P) :
    Gives n (readField read) fun f => (Bytes.ofText f.1).length < n ∧ P f.2 := by
  intro j f hn h
  obtain ⟨hname, value, hvalue, hv⟩ := readField_eq_ok.1 h
  exact ⟨hname.length_lt hn, hread _ _ (hvalue.weight_le hn) hv⟩

/-- A type has texts of bounded length. -/
theorem readStaticType_gives (o : DecodeOptions) :
    Gives n (readStaticType o) fun t => (Value.type t).LengthsBelow n := by
  intro j t hn h
  rcases cases_of_readStaticType h with ⟨-, hnone, hkind⟩ | ⟨i, hi, hkind, hid⟩
  · exact ⟨hkind.length_lt hn, fun id hid => nomatch hnone.symm.trans hid⟩
  · have hin : i.weight ≤ n := hi.weight_le hn
    refine ⟨hkind.length_lt hin, fun id hmem => ?_⟩
    rcases hid with ⟨hnone, -⟩ | ⟨id, hsome, hid⟩
    · cases hnone.symm.trans hmem
    · cases hsome.symm.trans hmem
      exact hid.length_lt hin

/-- A value opens one level more than the values inside it. -/
theorem readBody_gives (o : DecodeOptions) {levels : Nat} {read : Json → Except Fault Value}
    (hread : Gives n read (Value.Within levels n)) (k : Kind) :
    Gives n (readBody o read k) (Value.Within (levels + 1) n) := by
  intro j v hn h
  cases k with
  | void =>
    cases h
    exact .leaf rfl trivial
  | optional =>
    dsimp only [readBody] at h
    split at h
    · cases h
      exact .leaf rfl trivial
    · obtain ⟨content, hcontent, h⟩ := map_eq_ok.1 h
      rw [← h]
      exact .present (hread _ _ hn hcontent)
  | bool =>
    dsimp only [readBody] at h
    split at h
    · cases h
      exact .leaf rfl trivial
    · cases h
  | text =>
    dsimp only [readBody] at h
    split at h
    · cases h
      rw [Json.weight] at hn
      exact .leaf rfl (Nat.lt_of_lt_of_le (by omega) hn)
    · cases h
  | address | integer | fixed =>
    obtain ⟨_, -, h⟩ := map_eq_ok.1 h
    rw [← h]
    exact .leaf rfl trivial
  | array =>
    obtain ⟨items, vs, rfl, hvs, rfl⟩ := readBody_array_eq_ok.1 h
    rw [Json.weight] at hn
    obtain ⟨hlen, hall⟩ := readAll_gives hread (by omega) hvs
    exact .array (by omega) hall
  | dictionary =>
    obtain ⟨items, entries, rfl, hentries, rfl⟩ := readBody_dictionary_eq_ok.1 h
    rw [Json.weight] at hn
    obtain ⟨hlen, hall⟩ := readAll_gives (readEntry_gives hread) (by omega) hentries
    exact .dictionary (by omega) hall
  | composite c =>
    obtain ⟨typeId, items, fields, hid, hitems, hfields, rfl⟩ := readBody_composite_eq_ok.1 h
    have hweight := hitems.weight_le hn
    rw [Json.weight] at hweight
    obtain ⟨hlen, hall⟩ := readAll_gives (readField_gives hread) (by omega) hfields
    exact .composite (hid.length_lt hn) (by omega) hall
  | path =>
    obtain ⟨domain, identifier, hdomain, hidentifier, rfl⟩ := readBody_path_eq_ok.1 h
    exact .leaf rfl ⟨hdomain.length_lt hn, hidentifier.length_lt hn⟩
  | type =>
    obtain ⟨t, ht, h⟩ := map_eq_ok.1 h
    rw [← h]
    exact .leaf rfl (readStaticType_gives o _ _ hn ht)

/-- A value is no deeper than its reader may open levels, and no length in it reaches the weight of
its tree. -/
theorem ofTree_gives (o : DecodeOptions) (levels : Nat) :
    Gives n (ofTree o levels) (Value.Within levels n) := by
  induction levels with
  | zero =>
    intro _ _ _ h
    cases h
  | succ levels ih =>
    intro j v hn h
    rw [ofTree_succ] at h
    obtain ⟨found, hfound, h⟩ := bind_eq_ok.1 h
    cases found with
    | none =>
      cases h
      exact .leaf rfl trivial
    | some found =>
      obtain ⟨k, body⟩ := found
      obtain ⟨-, -, hbody⟩ := opened_eq_ok_some.1 hfound
      exact readBody_gives o ih k _ _ (hbody.weight_le hn) h

/-- A document is UTF-8 and parses. -/
theorem parse_of_document? {payload : Bytes} {j : Json} (h : document? payload = some j) :
    ∃ s, Bytes.ofText s = payload ∧ Json.parse none s.toList = .ok j := by
  obtain ⟨s, hs, h⟩ := Option.bind_eq_some_iff.1 h
  obtain ⟨k, hk, h⟩ := Option.bind_eq_some_iff.1 h
  split at h
  · cases h
    refine ⟨s, Bytes.ofText_of_text? hs, ?_⟩
    cases hparse : Json.parse none s.toList with
    | error e =>
      rw [hparse] at hk
      cases hk
    | ok j =>
      rw [hparse] at hk
      cases hk
      rfl
  · cases h

/-- No document is shorter than the weight of its tree. -/
theorem weight_le_of_document? {payload : Bytes} {j : Json} (h : document? payload = some j) :
    j.weight ≤ payload.length := by
  obtain ⟨s, rfl, hparse⟩ := parse_of_document? h
  have hlength : (Bytes.ofText s).length = Json.utf8Length s.toList := by
    rw [← Json.length_ofText_ofList, String.ofList_toList]
  rw [hlength]
  exact Json.weight_le_of_parse hparse

/-- A decoded value is not too deep, and no length in it reaches that of the payload or a greater
number. -/
theorem decode_within {o : DecodeOptions} {payload : Bytes} {v : Value}
    (hn : payload.length ≤ n) (h : decode o payload = .ok v) : v.Within Value.maxDepth n := by
  obtain ⟨j, hj, h⟩ := exists_tree_of_decode h
  exact ofTree_gives o Value.maxDepth _ _ (Nat.le_trans (weight_le_of_document? hj) hn) h

end LedgerFeed.Verbose
