import Mathlib.Logic.Relation
import LedgerFeed.Codec.Verbose
import LedgerFeed.Proofs.Result

/-!
# What is read inside a tree

The reader of a value reads some parts of its tree as values in turn: the content of an optional
value, items, keys and values of entries, and values of fields (`Content`). Other parts of the tree
it passes over. Before it reads a body it finds the kind (`opened`), and neither the options nor the
levels matter for that (`ofTree_succ`). What a body holds if it is read is said for each kind that
holds values. A payload is decoded as its tree, behind the guard on brackets (`decode_eq_ok_iff`).
-/

namespace LedgerFeed

namespace Kind

/-- The name by which a kind is found is its own. -/
theorem name_of_ofName? {s : String} {k : Kind} (h : ofName? s = some k) : s = k.name := by
  have hname := List.find?_some h
  exact (of_decide_eq_true hname).symm

/-- A name stands for one kind. -/
theorem name_inj {k k' : Kind} (h : k.name = k'.name) : k = k' := by
  have hk := ofName?_name k
  rw [h, ofName?_name] at hk
  exact (Option.some.inj hk).symm

end Kind

namespace Verbose

/-- The tree is an object whose last member of a name is a tree. -/
def Has (j : Json) (name : String) (i : Json) : Prop :=
  ∃ members, j = .object members ∧ Json.lastMember? name members = some i

/-- The tree is that of a value of a kind with a body. -/
def Holds (j : Json) (k : Kind) (body : Json) : Prop :=
  k ≠ .void ∧ Has j "type" (.text k.name) ∧ Has j "value" body

/-- The parts of the tree of a value that are read as values. -/
inductive Content : Json → Json → Prop
  | optional {j body : Json} (hj : Holds j .optional body) (hbody : body ≠ .null) : Content j body
  | item {j i : Json} {items : List Json} (hj : Holds j .array (.array items)) (hi : i ∈ items) :
    Content j i
  | key {j e i : Json} {entries : List Json} (hj : Holds j .dictionary (.array entries))
    (he : e ∈ entries) (hi : Has e "key" i) : Content j i
  | value {j e i : Json} {entries : List Json} (hj : Holds j .dictionary (.array entries))
    (he : e ∈ entries) (hi : Has e "value" i) : Content j i
  | field {j body f i : Json} {k : CompositeKind} {fields : List Json}
    (hj : Holds j (.composite k) body) (hbody : Has body "fields" (.array fields))
    (hf : f ∈ fields) (hi : Has f "value" i) : Content j i

/-- The parts of a tree that are read as values, the tree itself among them. -/
def Inside : Json → Json → Prop :=
  Relation.ReflTransGen Content

variable {o : DecodeOptions} {j i body : Json} {k : Kind}

/-- What has a member is an object. -/
theorem Has.exists_object {name : String} (h : Has j name i) : ∃ members, j = .object members :=
  h.imp fun _ => And.left

/-- An object has one last member of a name. -/
theorem Has.unique {i' : Json} {name : String} (h : Has j name i) (h' : Has j name i') :
    i = i' := by
  obtain ⟨members, rfl, hi⟩ := h
  obtain ⟨_, hmembers, hi'⟩ := h'
  cases hmembers
  exact Option.some.inj (hi.symm.trans hi')

/-- The members that are read are those of an object. -/
theorem membersOf_eq_ok {what : String} {members : List (String × Json)} :
    membersOf what j = .ok members ↔ j = .object members := by
  cases j <;> simp [membersOf]

/-- The items that are read are those of an array. -/
theorem itemsOf_eq_ok {what : String} {items : List Json} :
    itemsOf what j = .ok items ↔ j = .array items := by
  cases j <;> simp [itemsOf]

/-- A field is read from the last member of its name. -/
theorem field_eq_ok {name : String} {members : List (String × Json)} :
    field name members = .ok i ↔ Json.lastMember? name members = some i := by
  unfold field
  split <;> simp_all

/-- A text is read from the last member of a name, if that is a text. -/
theorem textField_eq_ok {name s : String} {members : List (String × Json)} :
    textField name members = .ok s ↔ Json.lastMember? name members = some (.text s) := by
  unfold textField
  split <;> simp_all

/-- A number is read from a text. -/
theorem decimalText_eq_ok {s : String} : decimalText k j = .ok s ↔ j = .text s := by
  cases j <;> simp [decimalText]

/-- What the reader of a value finds in a tree before it reads a body: the kind and the body, or
nothing more if the value is void. -/
def opened (j : Json) : Except Fault (Option (Kind × Json)) := do
  let members ← membersOf "value" j
  let name ← textField "type" members
  if name = Kind.void.name then return none
  let body ← field "value" members
  match Kind.ofName? name with
  | some k => return some (k, body)
  | none => .error (.unknownKind name)

/-- The body of a value by its kind, or the void value. -/
def readOpened (o : DecodeOptions) (read : Json → Except Fault Value) :
    Option (Kind × Json) → Except Fault Value
  | none => .ok .void
  | some (k, body) => readBody o read k body

/-- Options and levels are for the body alone. -/
theorem ofTree_succ (o : DecodeOptions) (levels : Nat) (j : Json) :
    ofTree o (levels + 1) j = opened j >>= readOpened o (ofTree o levels) := by
  rw [ofTree, opened]
  refine (bind_congr fun members => ?_).trans (bind_assoc _ _ _).symm
  refine (bind_congr fun name => ?_).trans (bind_assoc _ _ _).symm
  split
  · rfl
  · refine (bind_congr fun body => ?_).trans (bind_assoc _ _ _).symm
    cases Kind.ofName? name <;> rfl

/-- Nothing is to be read but the kind just if the kind is that of void. -/
theorem opened_eq_ok_none : opened j = .ok none ↔ Has j "type" (.text Kind.void.name) := by
  constructor
  · intro h
    obtain ⟨members, hmembers, h⟩ := bind_eq_ok.1 h
    obtain ⟨name, hname, h⟩ := bind_eq_ok.1 h
    rw [membersOf_eq_ok] at hmembers
    rw [textField_eq_ok] at hname
    split at h
    · next hvoid => exact ⟨members, hmembers, hvoid ▸ hname⟩
    · obtain ⟨_, -, h⟩ := bind_eq_ok.1 h
      split at h <;> cases h
  · rintro ⟨members, rfl, htype⟩
    simp only [opened, membersOf, textField_eq_ok.2 htype, if_true, bind, Except.bind, pure,
      Except.pure]

/-- A body is found just if the tree holds it for its kind. -/
theorem opened_eq_ok_some : opened j = .ok (some (k, body)) ↔ Holds j k body := by
  constructor
  · intro h
    obtain ⟨members, hmembers, h⟩ := bind_eq_ok.1 h
    obtain ⟨name, hname, h⟩ := bind_eq_ok.1 h
    rw [membersOf_eq_ok] at hmembers
    rw [textField_eq_ok] at hname
    split at h
    · cases h
    · next hvoid =>
      obtain ⟨found, hfound, h⟩ := bind_eq_ok.1 h
      rw [field_eq_ok] at hfound
      split at h
      · next k' hk =>
        cases h
        rw [Kind.name_of_ofName? hk] at hname hvoid
        exact ⟨fun h => hvoid (by rw [h]), ⟨members, hmembers, hname⟩, ⟨members, hmembers, hfound⟩⟩
      · cases h
  · rintro ⟨hk, ⟨members, rfl, htype⟩, ⟨_, hmembers, hvalue⟩⟩
    cases hmembers
    have hname : k.name ≠ Kind.void.name := fun h => hk (Kind.name_inj h)
    simp only [opened, membersOf, textField_eq_ok.2 htype, field_eq_ok.2 hvalue,
      Kind.ofName?_name, if_neg hname, bind, Except.bind, pure, Except.pure]

/-- A tree of a kind and a body is read by the kind. -/
theorem ofTree_of_holds (h : Holds j k body) (levels : Nat) :
    ofTree o (levels + 1) j = readBody o (ofTree o levels) k body := by
  rw [ofTree_succ, opened_eq_ok_some.2 h]
  rfl

/-! ## Bodies that are read -/

/-- If a list is read, then each item of it is. -/
theorem exists_of_readAll {α : Type} {read : Json → Except Fault α} {items : List Json}
    {as : List α} (h : readAll read items = .ok as) : ∀ i ∈ items, ∃ a ∈ as, read i = .ok a := by
  induction items generalizing as with
  | nil => exact List.forall_mem_nil _
  | cons i items ih =>
    obtain ⟨a, ha, h⟩ := bind_eq_ok.1 h
    obtain ⟨rest, hrest, h⟩ := bind_eq_ok.1 h
    cases h
    refine List.forall_mem_cons.2 ⟨⟨a, List.mem_cons_self, ha⟩, fun j hj => ?_⟩
    obtain ⟨b, hb, hread⟩ := ih hrest j hj
    exact ⟨b, List.mem_cons_of_mem a hb, hread⟩

section
variable {read : Json → Except Fault Value} {v : Value}

/-- An entry is read just if its key and its value are. -/
theorem readEntry_eq_ok {e : Json} {entry : Value × Value} :
    readEntry read e = .ok entry ↔ ∃ key value, Has e "key" key ∧ Has e "value" value ∧
      read key = .ok entry.1 ∧ read value = .ok entry.2 := by
  constructor
  · intro h
    obtain ⟨members, hmembers, h⟩ := bind_eq_ok.1 h
    obtain ⟨key, hkey, h⟩ := bind_eq_ok.1 h
    obtain ⟨k, hk, h⟩ := bind_eq_ok.1 h
    obtain ⟨value, hvalue, h⟩ := bind_eq_ok.1 h
    obtain ⟨v, hv, h⟩ := bind_eq_ok.1 h
    cases h
    have he := membersOf_eq_ok.1 hmembers
    exact ⟨key, value, ⟨members, he, field_eq_ok.1 hkey⟩, ⟨members, he, field_eq_ok.1 hvalue⟩,
      hk, hv⟩
  · rintro ⟨key, value, ⟨members, rfl, hkey⟩, ⟨_, hmembers, hvalue⟩, hk, hv⟩
    cases hmembers
    simp only [readEntry, membersOf, field_eq_ok.2 hkey, field_eq_ok.2 hvalue, hk, hv, bind,
      Except.bind, pure, Except.pure]

/-- A field is read just if its name is a text and its value is read. -/
theorem readField_eq_ok {f : Json} {field : String × Value} :
    readField read f = .ok field ↔
      Has f "name" (.text field.1) ∧ ∃ value, Has f "value" value ∧ read value = .ok field.2 := by
  constructor
  · intro h
    obtain ⟨members, hmembers, h⟩ := bind_eq_ok.1 h
    obtain ⟨name, hname, h⟩ := bind_eq_ok.1 h
    obtain ⟨value, hvalue, h⟩ := bind_eq_ok.1 h
    obtain ⟨v, hv, h⟩ := bind_eq_ok.1 h
    cases h
    have hf := membersOf_eq_ok.1 hmembers
    exact ⟨⟨members, hf, textField_eq_ok.1 hname⟩, value, ⟨members, hf, field_eq_ok.1 hvalue⟩, hv⟩
  · rintro ⟨⟨members, rfl, hname⟩, value, ⟨_, hmembers, hvalue⟩, hv⟩
    cases hmembers
    simp only [readField, membersOf, textField_eq_ok.2 hname, field_eq_ok.2 hvalue, hv, bind,
      Except.bind, pure, Except.pure]

/-- An optional body that is not null is read as the content. -/
theorem readBody_optional (h : body ≠ .null) :
    readBody o read .optional body = (read body).map .present := by
  cases body <;> first | rfl | exact absurd rfl h

/-- An array is read just if its body is one and all items are read. -/
theorem readBody_array_eq_ok :
    readBody o read .array body = .ok v ↔
      ∃ items vs, body = .array items ∧ readAll read items = .ok vs ∧ v = .array vs := by
  constructor
  · intro h
    obtain ⟨items, hitems, h⟩ := bind_eq_ok.1 h
    obtain ⟨vs, hvs, h⟩ := bind_eq_ok.1 h
    cases h
    exact ⟨items, vs, itemsOf_eq_ok.1 hitems, hvs, rfl⟩
  · rintro ⟨items, vs, rfl, hvs, rfl⟩
    simp only [readBody, itemsOf, hvs, bind, Except.bind, pure, Except.pure]

/-- A dictionary is read just if its body is an array and all entries are read. -/
theorem readBody_dictionary_eq_ok :
    readBody o read .dictionary body = .ok v ↔
      ∃ items entries, body = .array items ∧ readAll (readEntry read) items = .ok entries ∧
        v = .dictionary entries := by
  constructor
  · intro h
    obtain ⟨items, hitems, h⟩ := bind_eq_ok.1 h
    obtain ⟨entries, hentries, h⟩ := bind_eq_ok.1 h
    cases h
    exact ⟨items, entries, itemsOf_eq_ok.1 hitems, hentries, rfl⟩
  · rintro ⟨items, entries, rfl, hentries, rfl⟩
    simp only [readBody, itemsOf, hentries, bind, Except.bind, pure, Except.pure]

/-- A composite value is read just if its body has a type ID and fields, all of which are read. -/
theorem readBody_composite_eq_ok {c : CompositeKind} :
    readBody o read (.composite c) body = .ok v ↔
      ∃ typeId items fields, Has body "id" (.text typeId) ∧ Has body "fields" (.array items) ∧
        readAll (readField read) items = .ok fields ∧ v = .composite c typeId fields := by
  constructor
  · intro h
    obtain ⟨members, hmembers, h⟩ := bind_eq_ok.1 h
    obtain ⟨typeId, htypeId, h⟩ := bind_eq_ok.1 h
    obtain ⟨i, hi, h⟩ := bind_eq_ok.1 h
    obtain ⟨items, hitems, h⟩ := bind_eq_ok.1 h
    obtain ⟨fields, hfields, h⟩ := bind_eq_ok.1 h
    cases h
    rw [itemsOf_eq_ok.1 hitems] at hi
    have hbody := membersOf_eq_ok.1 hmembers
    exact ⟨typeId, items, fields, ⟨members, hbody, textField_eq_ok.1 htypeId⟩,
      ⟨members, hbody, field_eq_ok.1 hi⟩, hfields, rfl⟩
  · rintro ⟨typeId, items, fields, ⟨members, rfl, htypeId⟩, ⟨_, hmembers, hitems⟩, hfields, rfl⟩
    cases hmembers
    simp only [readBody, membersOf, textField_eq_ok.2 htypeId, field_eq_ok.2 hitems, itemsOf,
      hfields, bind, Except.bind, pure, Except.pure]

/-- A path is read just if its body has its two texts. -/
theorem readBody_path_eq_ok :
    readBody o read .path body = .ok v ↔ ∃ domain identifier, Has body "domain" (.text domain) ∧
      Has body "identifier" (.text identifier) ∧ v = .path domain identifier := by
  constructor
  · intro h
    obtain ⟨members, hmembers, h⟩ := bind_eq_ok.1 h
    obtain ⟨domain, hdomain, h⟩ := bind_eq_ok.1 h
    obtain ⟨identifier, hidentifier, h⟩ := bind_eq_ok.1 h
    cases h
    have hbody := membersOf_eq_ok.1 hmembers
    exact ⟨domain, identifier, ⟨members, hbody, textField_eq_ok.1 hdomain⟩,
      ⟨members, hbody, textField_eq_ok.1 hidentifier⟩, rfl⟩
  · rintro ⟨domain, identifier, ⟨members, rfl, hdomain⟩, ⟨_, hmembers, hidentifier⟩, rfl⟩
    cases hmembers
    simp only [readBody, membersOf, textField_eq_ok.2 hdomain, textField_eq_ok.2 hidentifier, bind,
      Except.bind, pure, Except.pure]

end

/-- The ID of a type is a text. A type without ID may have null in its place. -/
theorem cases_of_readTypeId {members : List (String × Json)} {typeId : Option String}
    (h : readTypeId members = .ok typeId) :
    typeId = none ∧ (∀ i, Json.lastMember? "typeID" members = some i → i = .null) ∨
      ∃ id, typeId = some id ∧ Json.lastMember? "typeID" members = some (.text id) := by
  unfold readTypeId at h
  split at h
  · next hnone =>
    cases h
    exact .inl ⟨rfl, fun i hi => nomatch hnone.symm.trans hi⟩
  · next hnull =>
    cases h
    exact .inl ⟨rfl, fun i hi => (Option.some.inj (hnull.symm.trans hi)).symm⟩
  · next id hid =>
    cases h
    exact .inr ⟨id, rfl, hid⟩
  · cases h

/-- A type is given by an object of a kind and maybe an ID, or by a bare text if that is allowed. -/
theorem cases_of_readStaticType {t : StaticType} (h : readStaticType o body = .ok t) :
    o.bareStaticTypes = true ∧ t.typeId = none ∧ Has body "staticType" (.text t.kind) ∨
      ∃ i, Has body "staticType" i ∧ Has i "kind" (.text t.kind) ∧
        (t.typeId = none ∧ (∀ id, Has i "typeID" id → id = .null) ∨
          ∃ id, t.typeId = some id ∧ Has i "typeID" (.text id)) := by
  obtain ⟨members, hmembers, h⟩ := bind_eq_ok.1 h
  obtain ⟨i, hi, h⟩ := bind_eq_ok.1 h
  have hhas : Has body "staticType" i := ⟨members, membersOf_eq_ok.1 hmembers, field_eq_ok.1 hi⟩
  cases i with
  | text s =>
    dsimp only at h
    split at h
    · next hbare =>
      cases h
      exact .inl ⟨hbare, rfl, hhas⟩
    · cases h
  | object inner =>
    obtain ⟨kind, hkind, h⟩ := bind_eq_ok.1 h
    obtain ⟨typeId, htypeId, h⟩ := bind_eq_ok.1 h
    cases h
    refine .inr ⟨_, hhas, ⟨inner, rfl, textField_eq_ok.1 hkind⟩, ?_⟩
    rcases cases_of_readTypeId htypeId with ⟨rfl, hnull⟩ | ⟨id, rfl, hid⟩
    · refine .inl ⟨rfl, ?_⟩
      rintro id ⟨_, hinner, hid⟩
      cases hinner
      exact hnull id hid
    · exact .inr ⟨id, rfl, inner, rfl, hid⟩
  | _ => cases h

/-! ## Payloads -/

section
variable {p : Bytes} {v : Value}

/-- A document without too many brackets is decoded as its tree. -/
theorem decode_of_document? (o : DecodeOptions)
    (hp : document? p = some j) (hbrackets : Json.bracketNesting p ≤ maxBrackets) :
    decode o p = ofTree o Value.maxDepth j := by
  have hne : p.isEmpty = false := by
    cases p with
    | nil => cases hp
    | cons => rfl
  simp only [decode, hne, Bool.false_eq_true, if_false, if_neg (Nat.not_lt.2 hbrackets), hp]

/-- A payload is decoded to the value of its tree, if it has not too many brackets. -/
theorem decode_eq_ok_iff :
    decode o p = .ok v ↔ Json.bracketNesting p ≤ maxBrackets ∧
      ∃ j, document? p = some j ∧ ofTree o Value.maxDepth j = .ok v := by
  constructor
  · intro h
    unfold decode at h
    split at h
    · cases h
    split at h
    · cases h
    next hbrackets =>
    split at h
    · cases h
    · next j hj => exact ⟨Nat.not_lt.1 hbrackets, j, hj, h⟩
  · rintro ⟨hbrackets, j, hj, htree⟩
    rw [decode_of_document? o hj hbrackets, htree]

/-- What is decoded is a document whose tree is read as the value. -/
theorem exists_tree_of_decode (h : decode o p = .ok v) :
    ∃ j, document? p = some j ∧ ofTree o Value.maxDepth j = .ok v :=
  (decode_eq_ok_iff.1 h).2

end

end Verbose

end LedgerFeed
