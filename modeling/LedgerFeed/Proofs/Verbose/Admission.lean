import LedgerFeed.Proofs.Verbose.Bounds
import LedgerFeed.Proofs.Verbose.Guard
import LedgerFeed.Proofs.Verbose.RoundTrip
import LedgerFeed.Proofs.Verbose.Unread

/-!
# What the guard admits

A tree is *fully read* if the reader of a value passes over none of its members and no name comes
twice in an object (`FullyRead`). If such a tree has a value, then it opens fewer than four arrays
and objects for each level of the value (`ofTree_boundsNesting`): a field of a composite value costs
four, everything else less. So the guard on brackets refuses no document of such a tree that the
reader would accept (`guard_admits`). The trees of all values are fully read, and one of them goes
as deep as any. What is passed over is not bounded by the value (`decode_noted_tooDeep`).
-/

namespace LedgerFeed

namespace Json

mutual

/-- No object in the tree has two members of one name. -/
def HasDistinctNames : Json → Prop
  | .null | .bool _ | .number _ | .text _ | .unreadable => True
  | .array items => AllHaveDistinctNames items
  | .object members => (members.map Prod.fst).Nodup ∧ MembersHaveDistinctNames members

/-- `HasDistinctNames` over items. -/
def AllHaveDistinctNames : List Json → Prop
  | [] => True
  | j :: rest => HasDistinctNames j ∧ AllHaveDistinctNames rest

/-- `HasDistinctNames` over members. -/
def MembersHaveDistinctNames : List (String × Json) → Prop
  | [] => True
  | (_, j) :: rest => HasDistinctNames j ∧ MembersHaveDistinctNames rest

end

/-- `AllHaveDistinctNames` in the per-item form. -/
theorem AllHaveDistinctNames_iff {items : List Json} :
    AllHaveDistinctNames items ↔ ∀ j ∈ items, j.HasDistinctNames := by
  induction items with
  | nil => simp [AllHaveDistinctNames]
  | cons j rest ih => simp only [AllHaveDistinctNames, ih, List.forall_mem_cons]

/-- `MembersHaveDistinctNames` in the per-member form. -/
theorem MembersHaveDistinctNames_iff {members : List (String × Json)} :
    MembersHaveDistinctNames members ↔ ∀ m ∈ members, m.2.HasDistinctNames := by
  induction members with
  | nil => simp [MembersHaveDistinctNames]
  | cons m rest ih => simp only [MembersHaveDistinctNames, ih, List.forall_mem_cons]

/-- All of the tree can be read, and fewer than `m` arrays and objects are open at once in it. -/
structure NestsBelow (m : Nat) (j : Json) : Prop where
  isReadable : j.isReadable = true
  nesting_lt : j.nesting < m

namespace NestsBelow

variable {m n : Nat} {j : Json} {items : List Json} {members : List (String × Json)}

/-- A tree that nests below one bound does so below a greater one. -/
theorem mono (h : j.NestsBelow m) (hmn : m ≤ n) : j.NestsBelow n :=
  ⟨h.isReadable, Nat.lt_of_lt_of_le h.nesting_lt hmn⟩

/-- A tree that is neither an array nor an object opens nothing. -/
theorem flat (hread : j.isReadable = true) (hflat : j.nesting = 0) (hm : 0 < m) :
    j.NestsBelow m :=
  ⟨hread, hflat.trans_lt hm⟩

/-- An array nests one deeper than its items. -/
theorem array (hm : 0 < m) (h : ∀ i ∈ items, i.NestsBelow m) :
    (Json.array items).NestsBelow (m + 1) := by
  refine ⟨allReadable_iff.2 fun i hi => (h i hi).isReadable, ?_⟩
  have hle : nestingOfAll items ≤ m - 1 :=
    nestingOfAll_le.2 fun i hi => Nat.le_sub_one_of_lt (h i hi).nesting_lt
  rw [nesting]
  omega

/-- An object nests one deeper than its members. -/
theorem object (hm : 0 < m) (h : ∀ l ∈ members, l.2.NestsBelow m) :
    (Json.object members).NestsBelow (m + 1) := by
  refine ⟨membersReadable_iff.2 fun l hl => (h l hl).isReadable, ?_⟩
  have hle : nestingOfMembers members ≤ m - 1 :=
    nestingOfMembers_le.2 fun l hl => Nat.le_sub_one_of_lt (h l hl).nesting_lt
  rw [nesting]
  omega

end NestsBelow

end Json

namespace Verbose

/-! ## Trees that are fully read -/

/-- The reader passes over no member of a tree at a place, and no name comes twice in an object. -/
structure FullyRead (p : Place) (j : Json) : Prop where
  dropped_eq : dropped p j = j
  hasDistinctNames : j.HasDistinctNames

section
variable {p : Place} {items : List Json} {members : List (String × Json)} {m : Nat}

/-- Dropping makes no members. -/
theorem length_droppedMembers_le (place? : String → Option Place) (members : List (String × Json)) :
    (droppedMembers place? members).length ≤ members.length := by
  induction members with
  | nil => exact Nat.le_refl 0
  | cons l members ih =>
    rw [droppedMembers]
    split <;> simp only [List.length_cons] <;> omega

/-- A list of members stays as it is if each of them is read and stays as it is. -/
theorem droppedMembers_eq_self_iff {place? : String → Option Place} :
    droppedMembers place? members = members ↔
      ∀ l ∈ members, ∃ q, place? l.1 = some q ∧ dropped q l.2 = l.2 := by
  induction members with
  | nil => exact iff_of_true rfl (List.forall_mem_nil _)
  | cons l members ih =>
    obtain ⟨name, j⟩ := l
    rw [droppedMembers, List.forall_mem_cons, ← ih]
    cases hname : place? name with
    | some q => simp
    | none =>
      constructor
      · intro h
        have hle := length_droppedMembers_le place? members
        simp only [h, List.length_cons] at hle
        omega
      · rintro ⟨⟨q, hq, -⟩, -⟩
        cases hq

/-- An array is fully read just if its items are. -/
theorem fullyRead_array : FullyRead p (.array items) ↔ ∀ i ∈ items, FullyRead p.item i := by
  have hdropped : dropped p (.array items) = .array items ↔ ∀ i ∈ items, dropped p.item i = i := by
    rw [dropped, droppedItems_eq, Json.array.injEq, ← List.map_inj_left, List.map_id']
  constructor
  · intro h i hi
    exact ⟨hdropped.1 h.dropped_eq i hi, Json.AllHaveDistinctNames_iff.1 h.hasDistinctNames i hi⟩
  · intro h
    exact ⟨hdropped.2 fun i hi => (h i hi).dropped_eq,
      Json.AllHaveDistinctNames_iff.2 fun i hi => (h i hi).hasDistinctNames⟩

/-- An object is fully read just if its names are distinct and each member is read, and fully, at
its place. -/
theorem fullyRead_object :
    FullyRead p (.object members) ↔ (members.map Prod.fst).Nodup ∧
      ∀ l ∈ members, ∃ q, p.member? members l.1 = some q ∧ FullyRead q l.2 := by
  have hdropped : dropped p (.object members) = .object members ↔
      ∀ l ∈ members, ∃ q, p.member? members l.1 = some q ∧ dropped q l.2 = l.2 := by
    rw [dropped, Json.object.injEq, droppedMembers_eq_self_iff]
  constructor
  · intro h
    obtain ⟨hnodup, hmembers⟩ := h.hasDistinctNames
    refine ⟨hnodup, fun l hl => ?_⟩
    obtain ⟨q, hq, hl'⟩ := hdropped.1 h.dropped_eq l hl
    exact ⟨q, hq, hl', Json.MembersHaveDistinctNames_iff.1 hmembers l hl⟩
  · rintro ⟨hnodup, h⟩
    refine ⟨hdropped.2 fun l hl => ?_, hnodup, Json.MembersHaveDistinctNames_iff.2 fun l hl => ?_⟩
    · obtain ⟨q, hq, hl'⟩ := h l hl
      exact ⟨q, hq, hl'.dropped_eq⟩
    · obtain ⟨q, -, hl'⟩ := h l hl
      exact hl'.hasDistinctNames

/-- The members of an object are those that are looked for, so that they alone bound it. -/
theorem FullyRead.nestsBelow (h : FullyRead p (.object members)) (hm : 0 < m)
    (hbelow : ∀ name q i, p.member? members name = some q → Has (.object members) name i →
      FullyRead q i → i.NestsBelow m) : (Json.object members).NestsBelow (m + 1) := by
  obtain ⟨hnodup, hmembers⟩ := fullyRead_object.1 h
  refine .object hm fun ⟨name, i⟩ hmem => ?_
  obtain ⟨q, hq, hi⟩ := hmembers _ hmem
  exact hbelow name q i hq ⟨members, rfl, Json.lastMember?_of_mem hnodup hmem⟩ hi

/-- Where a table of names says what is looked for, its rows bound the object. -/
theorem FullyRead.nestsBelow_table (table : List (String × Place))
    (h : FullyRead p (.object members)) (htable : p.member? members = fun name => table.lookup name)
    (hm : 0 < m) (hbelow : ∀ row ∈ table, ∀ i, Has (.object members) row.1 i →
      FullyRead row.2 i → i.NestsBelow m) : (Json.object members).NestsBelow (m + 1) := by
  refine h.nestsBelow hm fun name q i hname hi hfull => ?_
  rw [htable, List.lookup_eq_some_iff] at hname
  obtain ⟨_, _, rfl, -⟩ := hname
  exact hbelow (name, q) List.mem_append_cons_self i hi hfull

end

/-! ## Nesting of trees that have a value -/

/-- What is read as a value opens fewer than four arrays and objects for each level of the value. -/
def BoundsNesting (read : Json → Except Fault Value) : Prop :=
  ∀ j v d, FullyRead .value j → read j = .ok v → v.depth ≤ d → j.NestsBelow (4 * d)

section
variable {o : DecodeOptions} {read : Json → Except Fault Value} {d : Nat} {j body : Json} {k : Kind}

/-- An entry nests one deeper than its key and its value may. -/
theorem readEntry_nestsBelow (hread : BoundsNesting read) {e : Json} {entry : Value × Value}
    (he : FullyRead .entry e) (h : readEntry read e = .ok entry)
    (hd : entry.1.depth ≤ d ∧ entry.2.depth ≤ d) : e.NestsBelow (4 * d + 1) := by
  obtain ⟨key, value, hkey, hvalue, hk, hv⟩ := readEntry_eq_ok.1 h
  obtain ⟨members, rfl⟩ := hkey.exists_object
  have hpos := entry.1.depth_pos
  refine he.nestsBelow_table [("key", .value), ("value", .value)] rfl (by omega) ?_
  simp only [List.forall_mem_cons]
  refine ⟨fun i hi hfull => ?_, fun i hi hfull => ?_, List.forall_mem_nil _⟩
  · cases hi.unique hkey
    exact hread _ _ _ hfull hk hd.1
  · cases hi.unique hvalue
    exact hread _ _ _ hfull hv hd.2

/-- A field nests one deeper than its value may. -/
theorem readField_nestsBelow (hread : BoundsNesting read) {f : Json} {field : String × Value}
    (hf : FullyRead .field f) (h : readField read f = .ok field) (hd : field.2.depth ≤ d) :
    f.NestsBelow (4 * d + 1) := by
  obtain ⟨hname, value, hvalue, hv⟩ := readField_eq_ok.1 h
  obtain ⟨members, rfl⟩ := hname.exists_object
  have hpos := field.2.depth_pos
  refine hf.nestsBelow_table [("name", .whole), ("value", .value)] rfl (by omega) ?_
  simp only [List.forall_mem_cons]
  refine ⟨fun i hi hfull => ?_, fun i hi hfull => ?_, List.forall_mem_nil _⟩
  · cases hi.unique hname
    exact .flat rfl rfl (by omega)
  · cases hi.unique hvalue
    exact hread _ _ _ hfull hv hd

/-- A list of which every item is read is bounded by its items. -/
theorem array_nestsBelow {α : Type} {readItem : Json → Except Fault α} {p : Place} {m : Nat}
    {items : List Json} {as : List α} (hm : 0 < m) (hitems : FullyRead p (.array items))
    (h : readAll readItem items = .ok as)
    (hbelow : ∀ i, FullyRead p.item i → ∀ a ∈ as, readItem i = .ok a → i.NestsBelow m) :
    (Json.array items).NestsBelow (m + 1) := by
  refine .array hm fun i hi => ?_
  obtain ⟨a, ha, hread⟩ := exists_of_readAll h i hi
  exact hbelow i (fullyRead_array.1 hitems i hi) a ha hread

/-- A type opens two arrays or objects at most. -/
theorem readStaticType_nestsBelow {t : StaticType} (hbody : FullyRead .type body)
    (h : readStaticType o body = .ok t) : body.NestsBelow 3 := by
  have hbelow : ∀ i, Has body "staticType" i → FullyRead .structuredType i → i.NestsBelow 2 := by
    intro i hi hfull
    rcases cases_of_readStaticType h with ⟨-, -, hbare⟩ | ⟨_, hinner, hkind, hid⟩
    · cases hi.unique hbare
      exact .flat rfl rfl Nat.two_pos
    cases hi.unique hinner
    obtain ⟨members, rfl⟩ := hkind.exists_object
    refine hfull.nestsBelow_table [("kind", .whole), ("typeID", .whole)] rfl Nat.one_pos ?_
    simp only [List.forall_mem_cons]
    refine ⟨fun i hi _ => ?_, fun i hi _ => ?_, List.forall_mem_nil _⟩
    · cases hi.unique hkind
      exact .flat rfl rfl Nat.one_pos
    · rcases hid with ⟨-, hnull⟩ | ⟨id, -, hid⟩
      · cases hnull i hi
        exact .flat rfl rfl Nat.one_pos
      · cases hi.unique hid
        exact .flat rfl rfl Nat.one_pos
  obtain ⟨members, hmembers, -⟩ := bind_eq_ok.1 h
  cases membersOf_eq_ok.1 hmembers
  exact hbody.nestsBelow_table [("staticType", .structuredType)] rfl Nat.two_pos
    (List.forall_mem_singleton.2 hbelow)

/-- The body of a value opens three more than the values in it. -/
theorem readBody_nestsBelow (hread : BoundsNesting read) (hk : k ≠ .void)
    (hbody : FullyRead (.ofBody k) body) {v : Value} (h : readBody o read k body = .ok v)
    (hd : v.depth ≤ d + 1) : body.NestsBelow (4 * d + 3) := by
  cases k with
  | void => exact absurd rfl hk
  | optional =>
    by_cases hnull : body = .null
    · subst hnull
      exact .flat rfl rfl (by omega)
    · rw [readBody_optional hnull] at h
      obtain ⟨content, hcontent, rfl⟩ := map_eq_ok.1 h
      rw [Value.depth] at hd
      exact (hread _ _ d hbody hcontent (by omega)).mono (by omega)
  | bool | text =>
    dsimp only [readBody] at h
    split at h
    · exact .flat rfl rfl (by omega)
    · cases h
  | address =>
    obtain ⟨a, ha, -⟩ := map_eq_ok.1 h
    unfold readAddress at ha
    split at ha
    · exact .flat rfl rfl (by omega)
    · cases ha
  | integer | fixed =>
    obtain ⟨_, hn, -⟩ := map_eq_ok.1 h
    obtain ⟨s, hs, -⟩ := bind_eq_ok.1 hn
    cases decimalText_eq_ok.1 hs
    exact .flat rfl rfl (by omega)
  | array =>
    obtain ⟨items, vs, rfl, hvs, rfl⟩ := readBody_array_eq_ok.1 h
    rw [Value.depth] at hd
    refine (array_nestsBelow (m := 4 * d + 1) (by omega) hbody hvs fun i hi u hu hiu => ?_).mono
      (by omega)
    have hle := Value.depthOfItems_le.1 (Nat.le_refl _) u hu
    exact (hread _ _ d hi hiu (by omega)).mono (by omega)
  | dictionary =>
    obtain ⟨items, entries, rfl, hentries, rfl⟩ := readBody_dictionary_eq_ok.1 h
    rw [Value.depth] at hd
    refine (array_nestsBelow (m := 4 * d + 1) (by omega) hbody hentries
      fun e he entry hentry heentry => ?_).mono (by omega)
    have hle := Value.depthOfEntries_le.1 (Nat.le_refl _) entry hentry
    exact readEntry_nestsBelow hread he heentry ⟨by omega, by omega⟩
  | composite c =>
    obtain ⟨typeId, items, fields, hid, hitems, hfields, rfl⟩ := readBody_composite_eq_ok.1 h
    obtain ⟨members, rfl⟩ := hid.exists_object
    rw [Value.depth] at hd
    -- the dearest body: around a value stand its field, the list of fields, and the body itself
    refine hbody.nestsBelow_table [("id", .whole), ("fields", .fields)] rfl (by omega) ?_
    simp only [List.forall_mem_cons]
    refine ⟨fun i hi _ => ?_, fun i hi hfull => ?_, List.forall_mem_nil _⟩
    · cases hi.unique hid
      exact .flat rfl rfl (by omega)
    · cases hi.unique hitems
      refine array_nestsBelow (by omega) hfull hfields fun f hf field hfield hffield => ?_
      have hle := Value.depthOfFields_le.1 (Nat.le_refl _) field hfield
      exact readField_nestsBelow hread hf hffield (by omega)
  | path =>
    obtain ⟨domain, identifier, hdomain, hidentifier, -⟩ := readBody_path_eq_ok.1 h
    obtain ⟨members, rfl⟩ := hdomain.exists_object
    refine hbody.nestsBelow_table [("domain", .whole), ("identifier", .whole)] rfl (by omega) ?_
    simp only [List.forall_mem_cons]
    refine ⟨fun i hi _ => ?_, fun i hi _ => ?_, List.forall_mem_nil _⟩
    · cases hi.unique hdomain
      exact .flat rfl rfl (by omega)
    · cases hi.unique hidentifier
      exact .flat rfl rfl (by omega)
  | type =>
    obtain ⟨t, ht, -⟩ := map_eq_ok.1 h
    exact (readStaticType_nestsBelow hbody ht).mono (by omega)

/-- What is read of a value is its kind and the body that the kind asks for. -/
theorem member?_value_cases {members : List (String × Json)} {name : String} {q : Place}
    (h : Place.member? .value members name = some q) :
    name = "type" ∨ name = "value" ∧ Place.body? members = some q := by
  rw [Place.member?] at h
  split_ifs at h with htype hvalue
  · exact .inl htype
  · exact .inr ⟨hvalue, h⟩

/-- A void value has no body to read. -/
theorem body?_of_void {members : List (String × Json)}
    (h : Has (.object members) "type" (.text Kind.void.name)) : Place.body? members = none := by
  obtain ⟨_, hmembers, htype⟩ := h
  cases hmembers
  rw [Place.body?, htype]
  exact if_pos rfl

/-- The body that is held is read at the place of its kind. -/
theorem body?_of_holds {members : List (String × Json)} (h : Holds (.object members) k body) :
    Place.body? members = some (.ofBody k) := by
  obtain ⟨hk, ⟨_, hmembers, htype⟩, -⟩ := h
  cases hmembers
  simp only [Place.body?, htype, Kind.ofName?_name, Option.elim_some]
  exact if_neg fun hname => hk (Kind.name_inj hname)

/-- A value opens one more than its body. -/
theorem nestsBelow_of_holds {m : Nat} (hj : FullyRead .value j) (h : Holds j k body) (hm : 0 < m)
    (hbelow : FullyRead (.ofBody k) body → body.NestsBelow m) : j.NestsBelow (m + 1) := by
  obtain ⟨members, rfl⟩ := h.2.1.exists_object
  refine hj.nestsBelow hm fun name q i hname hi hfull => ?_
  rcases member?_value_cases hname with rfl | ⟨rfl, hq⟩
  · cases hi.unique h.2.1
    exact .flat rfl rfl hm
  · cases hi.unique h.2.2
    cases (body?_of_holds h).symm.trans hq
    exact hbelow hfull

/-- A void value has no body, so that it opens one object. -/
theorem nestsBelow_of_void {m : Nat} (hj : FullyRead .value j)
    (h : Has j "type" (.text Kind.void.name)) (hm : 0 < m) : j.NestsBelow (m + 1) := by
  obtain ⟨members, rfl⟩ := h.exists_object
  refine hj.nestsBelow hm fun name q i hname hi _ => ?_
  rcases member?_value_cases hname with rfl | ⟨rfl, hq⟩
  · cases hi.unique h
    exact .flat rfl rfl hm
  · cases (body?_of_void h).symm.trans hq

/-- The trees that are read as values open fewer than four arrays and objects for each level, with
all options. -/
theorem ofTree_boundsNesting (o : DecodeOptions) (levels : Nat) :
    BoundsNesting (ofTree o levels) := by
  -- by the levels that may be opened, while the bound is by those that the value has
  induction levels with
  | zero =>
    intro _ _ _ _ h
    cases h
  | succ levels ih =>
    intro j v d hj h hd
    rw [ofTree_succ] at h
    obtain ⟨found, hfound, h⟩ := bind_eq_ok.1 h
    have hpos := v.depth_pos
    obtain ⟨d, rfl⟩ : ∃ e, d = e + 1 := ⟨d - 1, by omega⟩
    cases found with
    | none => exact nestsBelow_of_void hj (opened_eq_ok_none.1 hfound) (by omega)
    | some found =>
      obtain ⟨k, body⟩ := found
      have hholds := opened_eq_ok_some.1 hfound
      refine nestsBelow_of_holds hj hholds (by omega) fun hbody => ?_
      exact readBody_nestsBelow ih hholds.1 hbody h hd

end

/-! ## Trees of values are fully read -/

section
variable {k : Kind} {body : Json}

/-- A text is fully read wherever it stands. -/
theorem fullyRead_text (p : Place) (s : String) : FullyRead p (.text s) :=
  ⟨rfl, trivial⟩

/-- An object of two members is fully read if both are read at their places. -/
theorem fullyRead_pair {p : Place} {a b : String} {i k : Json} (hne : a ≠ b) (q r : Place)
    (hq : p.member? [(a, i), (b, k)] a = some q) (hr : p.member? [(a, i), (b, k)] b = some r)
    (hi : FullyRead q i) (hk : FullyRead r k) : FullyRead p (.object [(a, i), (b, k)]) := by
  refine fullyRead_object.2 ⟨by simpa using hne, ?_⟩
  exact List.forall_mem_cons.2 ⟨⟨q, hq, hi⟩, List.forall_mem_singleton.2 ⟨r, hr, hk⟩⟩

/-- The tree of a value is fully read if its body is, by its kind. -/
theorem fullyRead_tagged (hk : k ≠ .void) (h : FullyRead (.ofBody k) body) :
    FullyRead .value (tagged k body) :=
  fullyRead_pair (by decide) .whole (.ofBody k) rfl (body?_of_holds (holds_tagged hk body))
    (fullyRead_text _ _) h

/-- The tree of an entry is fully read if its key and its value are. -/
theorem treeOfEntry_fullyRead {e : Value × Value} (hk : FullyRead .value (tree e.1))
    (hv : FullyRead .value (tree e.2)) : FullyRead .entry (treeOfEntry e) :=
  fullyRead_pair (by decide) .value .value rfl rfl hk hv

/-- The tree of a field is fully read if its value is. -/
theorem treeOfField_fullyRead {f : String × Value} (hv : FullyRead .value (tree f.2)) :
    FullyRead .field (treeOfField f) :=
  fullyRead_pair (by decide) .whole .value rfl rfl (fullyRead_text _ _) hv

/-- The tree of a type is fully read. -/
theorem treeOfType_fullyRead (t : StaticType) : FullyRead .type (treeOfType t) := by
  obtain ⟨kind, typeId⟩ := t
  refine fullyRead_object.2 ⟨by simp, List.forall_mem_singleton.2 ⟨.structuredType, rfl, ?_⟩⟩
  cases typeId with
  | none =>
    exact fullyRead_object.2 ⟨by simp, List.forall_mem_singleton.2
      ⟨.whole, rfl, fullyRead_text _ _⟩⟩
  | some id =>
    exact fullyRead_pair (by decide) .whole .whole rfl rfl (fullyRead_text _ _) (fullyRead_text _ _)

/-- The reader passes over nothing that is written of a value. -/
theorem tree_fullyRead (v : Value) : FullyRead .value (tree v) := by
  induction v with
  | void =>
    exact fullyRead_object.2 ⟨by simp, List.forall_mem_singleton.2
      ⟨.whole, rfl, fullyRead_text _ _⟩⟩
  | absent | bool | text | address | integer | fixed =>
    exact fullyRead_tagged (by simp) ⟨rfl, trivial⟩
  | present content ih => exact fullyRead_tagged (by decide) ih
  | array items ih =>
    refine fullyRead_tagged (by decide) (fullyRead_array.2 ?_)
    rw [treeOfItems_eq, List.forall_mem_map]
    exact ih
  | dictionary entries ih =>
    refine fullyRead_tagged (by decide) (fullyRead_array.2 ?_)
    rw [treeOfEntries_eq, List.forall_mem_map]
    exact fun e he => treeOfEntry_fullyRead (ih e he).1 (ih e he).2
  | composite c typeId fields ih =>
    have hfields : FullyRead .fields (.array (treeOfFields fields)) := by
      rw [fullyRead_array, treeOfFields_eq, List.forall_mem_map]
      exact fun f hf => treeOfField_fullyRead (ih f hf)
    exact fullyRead_tagged (by simp)
      (fullyRead_pair (by decide) .fields .whole rfl rfl hfields (fullyRead_text _ _))
  | path =>
    exact fullyRead_tagged (by decide) (fullyRead_pair (by decide) .whole .whole rfl rfl
      (fullyRead_text _ _) (fullyRead_text _ _))
  | type t => exact fullyRead_tagged (by decide) (treeOfType_fullyRead t)

end

/-! ## Documents that are fully read -/

section
variable {o : DecodeOptions} {b : Bytes} {j : Json} {n : Nat} {v : Value}

/-- A document is decoded to the value of its tree, if the tree can be read and does not open too
much. -/
theorem decode_isDocument_iff (hb : Json.IsDocument b j n) :
    decode o b = .ok v ↔ n ≤ maxBrackets ∧ j.isReadable = true ∧ ofTree o 64 j = .ok v := by
  rw [decode_eq_ok_iff, hb.bracketNesting_eq, document?_of_isDocument hb]
  refine and_congr_right fun _ => ⟨?_, ?_⟩
  · rintro ⟨i, hi, h⟩
    split at hi
    · next hj =>
      cases hi
      exact ⟨hj, h⟩
    · cases hi
  · rintro ⟨hj, h⟩
    exact ⟨j, if_pos hj, h⟩

/-- The guard refuses no document that has a value, if the reader of values passes over none of its
members and no name comes twice in an object: the arrays and objects that are open at once are fewer
than four for each level of the value. So such a document is decoded to a value just if its tree has
the value. -/
theorem guard_admits (o : DecodeOptions) (hb : Json.IsDocument b j n) (hj : FullyRead .value j) :
    maxBrackets = 260 ∧ Json.bracketNesting b = n ∧
      (∀ v, ofTree o 64 j = .ok v → n < 4 * v.depth ∧ v.depth ≤ 64 ∧ n ≤ 4 * 63 + 3) ∧
      ∀ v, decode o b = .ok v ↔ ofTree o 64 j = .ok v := by
  have hbound : ∀ v, ofTree o 64 j = .ok v →
      j.isReadable = true ∧ n < 4 * v.depth ∧ v.depth ≤ 64 := by
    intro v h
    have hnests := ofTree_boundsNesting o 64 j v v.depth hj h (Nat.le_refl _)
    have hwithin := ofTree_gives o 64 j v (Nat.le_refl _) h
    exact ⟨hnests.isReadable, hb.nesting_eq hnests.isReadable ▸ hnests.nesting_lt,
      hwithin.depth_le⟩
  refine ⟨rfl, hb.bracketNesting_eq, fun v h => ?_, fun v => ?_⟩
  · obtain ⟨-, hlt, hdepth⟩ := hbound v h
    exact ⟨hlt, hdepth, by omega⟩
  · rw [decode_isDocument_iff hb]
    refine ⟨fun h => h.2.2, fun h => ?_⟩
    obtain ⟨hreadable, hlt, hdepth⟩ := hbound v h
    have hn : n ≤ maxBrackets := by
      rw [maxBrackets, Value.maxDepth]
      omega
    exact ⟨hn, hreadable, h⟩

end

/-- So many composite values around a type, each in a field of the one around it. -/
def wrappedType : Nat → Value
  | 0 => .type ⟨"Int", none⟩
  | n + 1 => .composite .struct "Box" [("content", wrappedType n)]

/-- Each composite value around a type adds a level. -/
theorem depth_wrappedType (n : Nat) : (wrappedType n).depth = n + 1 := by
  induction n with
  | zero => rfl
  | succ n ih => simp [wrappedType, Value.depth, Value.depthOfFields, ih, Nat.add_comm]

/-- No value of its depth opens more. -/
theorem nesting_wrappedType (n : Nat) : (tree (wrappedType n)).nesting = 4 * n + 3 := by
  induction n with
  | zero => rfl
  | succ n ih =>
    simp only [wrappedType, tree, nesting_tagged, treeOfFields, Json.nesting, Json.nestingOfAll,
      Json.nestingOfMembers, ih]
    omega

/-- The greatest number of brackets is reached, and the guard admits it. -/
theorem guard_admits_wrappedType :
    let j := tree (wrappedType 63)
    let b := Bytes.ofText j.toText
    Json.IsDocument b j (4 * 63 + 3) ∧ FullyRead .value j ∧ Json.bracketNesting b = 255 ∧
      decode .strict b = .ok (wrappedType 63) := by
  intro j b
  have hb : Json.IsDocument b j (4 * 63 + 3) :=
    nesting_wrappedType 63 ▸ Json.isDocument_toText (tree_isWritable _)
  have hj : FullyRead .value j := tree_fullyRead _
  have hvalue : ofTree .strict 64 j = .ok (wrappedType 63) :=
    ofTree_tree .strict (depth_wrappedType 63).le
  obtain ⟨-, hbrackets, -, hdecode⟩ := guard_admits .strict hb hj
  exact ⟨hb, hj, hbrackets, (hdecode _).2 hvalue⟩

/-- A member that is passed over may open too much. The guard then refuses the document, although
its tree has a value. -/
theorem decode_noted_tooDeep (o : DecodeOptions) {i : Json} (hi : i.IsWritable)
    (hn : maxBrackets ≤ i.nesting) :
    let j : Json := .object [("note", i), ("type", .text Kind.void.name)]
    ofTree o 64 j = .ok .void ∧ decode o (Bytes.ofText j.toText) = .error .tooDeep := by
  intro j
  have hj : j.IsWritable := ⟨hi, trivial, trivial⟩
  have hbrackets : maxBrackets < Json.bracketNesting (Bytes.ofText j.toText) := by
    rw [Json.bracketNesting_toText hj, Json.nesting, Json.nestingOfMembers]
    omega
  constructor
  · have hvoid : opened j = .ok none :=
      opened_eq_ok_none.2 ⟨_, rfl, by simp [Json.lastMember?]⟩
    rw [ofTree_succ, hvoid]
    rfl
  · obtain ⟨rest, hrest⟩ := ofText_object [("note", i), ("type", .text Kind.void.name)]
    have hne : (Bytes.ofText j.toText).isEmpty = false := by rw [hrest]; rfl
    simp only [decode, hne, Bool.false_eq_true, if_false, if_pos hbrackets]

end Verbose

end LedgerFeed
