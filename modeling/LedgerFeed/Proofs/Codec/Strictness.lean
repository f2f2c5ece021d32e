import LedgerFeed.Proofs.Codec.Sniffing
import LedgerFeed.Proofs.Codec.Transcoding
import LedgerFeed.Proofs.Verbose.Contents

/-!
# What strict options refuse

Strict and lenient options differ at bare static types alone. Two runs of the reader of a tree give
the same value or the same fault, unless the tree has a bare type among the parts that are read as
values, where the strict run may stop with a fault of its own (`ofTree_agrees`). So strict decoding
accepts what lenient decoding does, except for payloads with a bare type that is read
(`strict_decode`).
-/

namespace LedgerFeed.Verbose

/-- The tree is that of a type that is given by a bare text. -/
def IsBareType (j : Json) : Prop :=
  ∃ body s, Holds j .type body ∧ Has body "staticType" (.text s)

/-- A bare type is among the parts of the tree that are read as values. -/
def HasBareType (j : Json) : Prop :=
  ∃ i, Inside j i ∧ IsBareType i

/-- A strict and a lenient run come to the same, but the strict one may stop at a bare type if there
is one. -/
def Agrees {α : Type} (bare : Prop) (strict lenient : Except Fault α) : Prop :=
  strict = lenient ∨ strict = .error .bareStaticType ∧ bare

section
variable {α β : Type} {bare : Prop}

/-- What is the same in both runs agrees, bare types or not. -/
theorem Agrees.refl (x : Except Fault α) : Agrees bare x x :=
  .inl rfl

/-- Two runs that agree still do so where more may count as bare. -/
theorem Agrees.imp {bare' : Prop} {x y : Except Fault α} (h : Agrees bare x y)
    (himp : bare → bare') : Agrees bare' x y :=
  h.imp_right fun h => ⟨h.1, himp h.2⟩

/-- Two sequences agree if their parts do; only a common result of the first parts reaches the
second ones. -/
theorem Agrees.bind {x y : Except Fault α} {f g : α → Except Fault β} (h : Agrees bare x y)
    (hfg : ∀ a, x = .ok a → Agrees bare (f a) (g a)) : Agrees bare (x >>= f) (y >>= g) := by
  rcases h with rfl | ⟨rfl, hbare⟩
  · cases x with
    | error e => exact .inl rfl
    | ok a => exact hfg a rfl
  · exact .inr ⟨rfl, hbare⟩

/-- Runs that agree do so behind a map. -/
theorem Agrees.map {x y : Except Fault α} (f : α → β) (h : Agrees bare x y) :
    Agrees bare (x.map f) (y.map f) := by
  rcases h with rfl | ⟨rfl, hbare⟩
  · exact .inl rfl
  · exact .inr ⟨rfl, hbare⟩

end

section
variable {bare : Prop}

/-- Two readers that agree on each item agree on the list. -/
theorem readAll_agrees {α : Type} {strict lenient : Json → Except Fault α} {items : List Json}
    (h : ∀ j ∈ items, Agrees bare (strict j) (lenient j)) :
    Agrees bare (readAll strict items) (readAll lenient items) := by
  induction items with
  | nil => exact .refl _
  | cons j items ih =>
    obtain ⟨hj, hitems⟩ := List.forall_mem_cons.1 h
    exact hj.bind fun _ _ => (ih hitems).bind fun _ _ => .refl _

variable {strict lenient : Json → Except Fault Value}

/-- Two readers that agree on the key and the value of an entry agree on the entry. -/
theorem readEntry_agrees {e : Json}
    (h : ∀ i, Has e "key" i ∨ Has e "value" i → Agrees bare (strict i) (lenient i)) :
    Agrees bare (readEntry strict e) (readEntry lenient e) := by
  refine (Agrees.refl _).bind fun members hmembers => ?_
  have he := membersOf_eq_ok.1 hmembers
  refine (Agrees.refl _).bind fun key hkey => ?_
  refine (h key (.inl ⟨members, he, field_eq_ok.1 hkey⟩)).bind fun _ _ => ?_
  refine (Agrees.refl _).bind fun value hvalue => ?_
  exact (h value (.inr ⟨members, he, field_eq_ok.1 hvalue⟩)).bind fun _ _ => .refl _

/-- Two readers that agree on the value of a field agree on the field. -/
theorem readField_agrees {f : Json}
    (h : ∀ i, Has f "value" i → Agrees bare (strict i) (lenient i)) :
    Agrees bare (readField strict f) (readField lenient f) := by
  refine (Agrees.refl _).bind fun members hmembers => ?_
  have hf := membersOf_eq_ok.1 hmembers
  refine (Agrees.refl _).bind fun _ _ => (Agrees.refl _).bind fun value hvalue => ?_
  exact (h value ⟨members, hf, field_eq_ok.1 hvalue⟩).bind fun _ _ => .refl _

/-- The body of a type is where the options count. -/
theorem readStaticType_agrees {body : Json} (h : ∀ s, Has body "staticType" (.text s) → bare) :
    Agrees bare (readStaticType .strict body) (readStaticType .lenient body) := by
  refine (Agrees.refl _).bind fun members hmembers => (Agrees.refl _).bind fun found hfound => ?_
  have hbody := membersOf_eq_ok.1 hmembers
  have hlast := field_eq_ok.1 hfound
  cases found with
  | text s => exact .inr ⟨rfl, h s ⟨members, hbody, hlast⟩⟩
  | _ => exact .refl _

/-- Bodies agree if the values in them do. -/
theorem readBody_agrees {j body : Json} {k : Kind} (hj : Holds j k body)
    (hcontent : ∀ i, Content j i → Agrees bare (strict i) (lenient i))
    (hbare : IsBareType j → bare) :
    Agrees bare (readBody .strict strict k body) (readBody .lenient lenient k body) := by
  cases k with
  | void => exact .refl _
  | optional =>
    by_cases hbody : body = .null
    · subst hbody
      exact .refl _
    · rw [readBody_optional hbody, readBody_optional hbody]
      exact (hcontent body (.optional hj hbody)).map Value.present
  | bool | text | address | integer | fixed | path => exact .refl _
  | array =>
    refine (Agrees.refl _).bind fun items hitems => ?_
    rw [itemsOf_eq_ok.1 hitems] at hj
    exact (readAll_agrees fun i hi => hcontent i (.item hj hi)).bind fun _ _ => .refl _
  | dictionary =>
    refine (Agrees.refl _).bind fun entries hentries => ?_
    rw [itemsOf_eq_ok.1 hentries] at hj
    refine (readAll_agrees fun e he => readEntry_agrees fun i hi => ?_).bind fun _ _ => .refl _
    exact hcontent i (hi.elim (.key hj he) (.value hj he))
  | composite k =>
    refine (Agrees.refl _).bind fun members hmembers => (Agrees.refl _).bind fun _ _ => ?_
    refine (Agrees.refl _).bind fun fieldsTree hfieldsTree => ?_
    refine (Agrees.refl _).bind fun fields hfields => ?_
    rw [itemsOf_eq_ok.1 hfields] at hfieldsTree
    have hbody : Has body "fields" (.array fields) :=
      ⟨members, membersOf_eq_ok.1 hmembers, field_eq_ok.1 hfieldsTree⟩
    refine (readAll_agrees fun f hf => readField_agrees fun i hi => ?_).bind fun _ _ => .refl _
    exact hcontent i (.field hj hbody hf hi)
  | type => exact (readStaticType_agrees fun s hs => hbare ⟨body, s, hj, hs⟩).map Value.type

end

/-- The runs of the reader agree on every tree, for any number of levels. -/
theorem ofTree_agrees (levels : Nat) (j : Json) :
    Agrees (HasBareType j) (ofTree .strict levels j) (ofTree .lenient levels j) := by
  induction levels generalizing j with
  | zero => exact .refl _
  | succ levels ih =>
    rw [ofTree_succ, ofTree_succ]
    refine (Agrees.refl _).bind fun found hfound => ?_
    cases found with
    | none => exact .refl _
    | some found =>
      obtain ⟨k, body⟩ := found
      have hj := opened_eq_ok_some.1 hfound
      refine readBody_agrees hj (fun i hi => ?_) fun hbare => ⟨j, .refl, hbare⟩
      exact (ih i).imp fun ⟨i', hinside, hbare⟩ => ⟨i', .head hi hinside, hbare⟩

/-! ## What strict options accept has no bare type -/

section
variable {o : DecodeOptions} {levels : Nat} {v : Value}

/-- If a tree has a value, then so have the parts of it that are read as values. -/
theorem ok_of_content {j i : Json} (hi : Content j i) (h : ofTree o (levels + 1) j = .ok v) :
    ∃ u, ofTree o levels i = .ok u := by
  cases hi with
  | optional hj hbody =>
    rw [ofTree_of_holds hj, readBody_optional hbody] at h
    obtain ⟨u, hu, -⟩ := map_eq_ok.1 h
    exact ⟨u, hu⟩
  | item hj hi =>
    rw [ofTree_of_holds hj] at h
    obtain ⟨items, vs, hitems, hvs, -⟩ := readBody_array_eq_ok.1 h
    cases hitems
    obtain ⟨u, -, hu⟩ := exists_of_readAll hvs i hi
    exact ⟨u, hu⟩
  | key hj he hi =>
    rw [ofTree_of_holds hj] at h
    obtain ⟨items, entries, hitems, hentries, -⟩ := readBody_dictionary_eq_ok.1 h
    cases hitems
    obtain ⟨entry, -, hentry⟩ := exists_of_readAll hentries _ he
    obtain ⟨key, value, hkey, -, hk, -⟩ := readEntry_eq_ok.1 hentry
    exact ⟨entry.1, hi.unique hkey ▸ hk⟩
  | value hj he hi =>
    rw [ofTree_of_holds hj] at h
    obtain ⟨items, entries, hitems, hentries, -⟩ := readBody_dictionary_eq_ok.1 h
    cases hitems
    obtain ⟨entry, -, hentry⟩ := exists_of_readAll hentries _ he
    obtain ⟨key, value, -, hvalue, -, hv⟩ := readEntry_eq_ok.1 hentry
    exact ⟨entry.2, hi.unique hvalue ▸ hv⟩
  | field hj hbody hf hi =>
    rw [ofTree_of_holds hj] at h
    obtain ⟨typeId, items, fields, -, hitems, hfields, -⟩ := readBody_composite_eq_ok.1 h
    cases hbody.unique hitems
    obtain ⟨field, -, hfield⟩ := exists_of_readAll hfields _ hf
    obtain ⟨-, value, hvalue, hv⟩ := readField_eq_ok.1 hfield
    exact ⟨field.2, hi.unique hvalue ▸ hv⟩

/-- A bare type has no value under strict options. -/
theorem not_ok_of_isBareType {j : Json} (hj : IsBareType j) : ofTree .strict levels j ≠ .ok v := by
  intro h
  cases levels with
  | zero => cases h
  | succ levels =>
    obtain ⟨body, s, hj, hs⟩ := hj
    rw [ofTree_of_holds hj] at h
    obtain ⟨t, ht, -⟩ := map_eq_ok.1 h
    rcases cases_of_readStaticType ht with ⟨hbare, -, -⟩ | ⟨i, hi, hkind, -⟩
    · cases hbare
    · cases hi.unique hs
      obtain ⟨members, hmembers⟩ := hkind.exists_object
      cases hmembers

/-- A tree with a value under strict options has no bare type that is read. -/
theorem not_hasBareType {j : Json} (h : ofTree .strict levels j = .ok v) : ¬ HasBareType j := by
  rintro ⟨i, hi, hbare⟩
  induction hi using Relation.ReflTransGen.head_induction_on generalizing levels v with
  | refl => exact not_ok_of_isBareType hbare h
  | head hc _ ih =>
    cases levels with
    | zero => cases h
    | succ levels =>
      obtain ⟨u, hu⟩ := ok_of_content hc h
      exact ih hu

end

/-- The runs of the decoder of verbose payloads agree on every payload. -/
theorem decode_agrees (p : Bytes) :
    Agrees (∃ j, document? p = some j ∧ HasBareType j) (decode .strict p) (decode .lenient p) := by
  unfold decode
  split
  · exact .refl _
  split
  · exact .refl _
  split
  · exact .refl _
  · next j hj => exact (ofTree_agrees Value.maxDepth j).imp fun hbare => ⟨j, hj, hbare⟩

end LedgerFeed.Verbose

namespace LedgerFeed.Codec

open Verbose

/-- The payload is taken for verbose, and its document has a bare type that is read. -/
def ReadsBareType (p : Bytes) : Prop :=
  Encoding.detect p = .verbose ∧ ∃ j, document? p = some j ∧ HasBareType j

/-- Strict and lenient decoding come to the same, unless strict decoding stops at a bare type. -/
theorem decode_strict_cases (p : Bytes) :
    decode .strict p = decode .lenient p ∨
      decode .strict p = .error (.verbose .bareStaticType) ∧ ReadsBareType p := by
  by_cases hmark : Encoding.compactMark <+: p
  · exact .inl ((decode_of_mark .strict hmark).trans (decode_of_mark .lenient hmark).symm)
  · rw [decode_of_not_mark .strict hmark, decode_of_not_mark .lenient hmark, decodeVerbose,
      decodeVerbose]
    rcases Verbose.decode_agrees p with hsame | ⟨hfault, hbare⟩
    · exact .inl (by rw [hsame])
    · exact .inr ⟨by rw [hfault], Encoding.detect_of_not_mark hmark, hbare⟩

/-- A payload that strict options accept has no bare type that is read. -/
theorem not_readsBareType {p : Bytes} {v : Value} (h : decode .strict p = .ok v) :
    ¬ ReadsBareType p := by
  rintro ⟨hdetect, j, hj, hbare⟩
  rw [decode, hdetect] at h
  obtain ⟨j', hj', hread⟩ := exists_tree_of_decode (decodeVerbose_eq_ok.1 h)
  cases hj.symm.trans hj'
  exact not_hasBareType hread hbare

/-- Strict decoding gives what lenient decoding gives, except for the payloads with a bare type that
is read. These are verbose, and if lenient options accept one of them, then the fault of strict
options is the bare type. Options do not matter for payloads with the compact mark. -/
theorem strict_decode (p : Bytes) :
    (∀ v, decode .strict p = .ok v ↔ decode .lenient p = .ok v ∧ ¬ ReadsBareType p) ∧
    (∀ v e, decode .lenient p = .ok v → decode .strict p = .error e →
      e = .verbose .bareStaticType ∧ e.isMalformed = true ∧ e.encoding = .verbose ∧
        e.reason = "unstructured static type not allowed" ∧ ReadsBareType p) ∧
    (Encoding.compactMark <+: p → decode .strict p = decode .lenient p) := by
  refine ⟨fun v => ⟨?_, ?_⟩, ?_, ?_⟩
  · intro h
    refine ⟨?_, not_readsBareType h⟩
    rcases decode_strict_cases p with hsame | ⟨hfault, -⟩
    · exact hsame.symm.trans h
    · cases hfault.symm.trans h
  · rintro ⟨h, hbare⟩
    rcases decode_strict_cases p with hsame | ⟨-, hbare'⟩
    · exact hsame.trans h
    · exact absurd hbare' hbare
  · intro v e hlenient hstrict
    rcases decode_strict_cases p with hsame | ⟨hfault, hbare⟩
    · cases (hstrict.symm.trans hsame).trans hlenient
    · cases hstrict.symm.trans hfault
      exact ⟨rfl, rfl, rfl, rfl, hbare⟩
  · intro hmark
    exact (decode_of_mark .strict hmark).trans (decode_of_mark .lenient hmark).symm

/-- The members of an array of one type that is given by its bare name. -/
def bareTypeItem : List (String × Json) :=
  [("type", .text Kind.array.name), ("value", .array [.object (bareType "Int")])]

/-- A bare type in an array: lenient options accept it, and strict options say what is wrong. -/
theorem strict_decode_nested :
    let p := Bytes.ofText (Json.object bareTypeItem).toText
    let e : CodecError := .verbose .bareStaticType
    decode .lenient p = .ok (.array [.type ⟨"Int", none⟩]) ∧ decode .strict p = .error e ∧
      e.reason = "unstructured static type not allowed" ∧ ReadsBareType p ∧
      Encoding.compactMark <+: [0xd8, 0x82] ∧
      decode .strict [0xd8, 0x82] = decode .lenient [0xd8, 0x82] := by
  intro p e
  have hwritable : (Json.object bareTypeItem).IsWritable :=
    ⟨trivial, ⟨⟨trivial, ⟨trivial, trivial⟩, trivial⟩, trivial⟩, trivial⟩
  have hnesting : (Json.object bareTypeItem).nesting ≤ maxBrackets := by decide
  have htree : ∀ o, decode o p =
      (ofTree o Value.maxDepth (.object bareTypeItem)).mapError .verbose := by
    intro o
    simp only [p, decode, detect_object, decodeVerbose_toText o hwritable hnesting]
  have hlenient : decode .lenient p = .ok (.array [.type ⟨"Int", none⟩]) :=
    (htree .lenient).trans rfl
  have hstrict : decode .strict p = .error e := (htree .strict).trans rfl
  have hmark : Encoding.compactMark <+: [0xd8, 0x82] := List.prefix_refl _
  obtain ⟨-, -, -, hreason, hbare⟩ := (strict_decode p).2.1 _ _ hlenient hstrict
  exact ⟨hlenient, hstrict, hreason, hbare, hmark, (strict_decode _).2.2 hmark⟩

end LedgerFeed.Codec
