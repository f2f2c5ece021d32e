import LedgerFeed.Json.Octets
import LedgerFeed.Proofs.Json.RoundTrip
import LedgerFeed.Proofs.Text.Hex

/-!
# Records read back

A record that is written as an object is read from the tree of its text and from the generic tree,
which has the same members in another order. Both are *faithful* changes of a tree, and a writer and
a reader fit together (`ReadsBack`) if the reader undoes the writer behind each of them. What a
record is made of is put together by `readsBack_of_fields`.
-/

namespace LedgerFeed.Json

/-! ## Faithful changes -/

/-- Changes of trees that readers of records do not notice in what is written for them: the members
of an object may change their order. -/
structure Faithful (f : Json → Json) : Prop where
  null : f .null = .null
  bool : ∀ b, f (.bool b) = .bool b
  text : ∀ s, f (.text s) = .text s
  nat : ∀ n < 2 ^ 64, f (.nat n) = .nat n
  array : ∀ items, f (.array items) = .array (items.map f)
  object : ∀ members : List (String × Json), (members.map Prod.fst).Nodup →
    ∃ found, f (.object members) = .object found ∧
      found.Perm (members.map fun m => (m.1, f m.2))

/-- A member of a new name is put among the others, whose order stays. -/
theorem insertMember_perm {name : String} {j : Json} {members : List (String × Json)}
    (h : name ∉ members.map Prod.fst) :
    (insertMember name j members).Perm ((name, j) :: members) := by
  induction members with
  | nil => exact .refl _
  | cons m members ih =>
    obtain ⟨n, k⟩ := m
    rw [List.map_cons, List.mem_cons, not_or] at h
    rw [insertMember, if_neg h.1]
    split
    · exact .refl _
    · exact ((ih h.2).cons _).trans (.swap _ _ _)

/-- The generic tree of an object without repeated names has all its members. -/
theorem genericMembers_perm {sorted members : List (String × Json)}
    (h : (sorted.map Prod.fst ++ members.map Prod.fst).Nodup) :
    (genericMembers sorted members).Perm
      (sorted ++ members.map fun m => (m.1, m.2.generic)) := by
  induction members generalizing sorted with
  | nil =>
    rw [genericMembers, List.map_nil, List.append_nil]
  | cons m members ih =>
    obtain ⟨name, j⟩ := m
    -- the name is new to the members so far, so none of them is replaced
    have hmid : (name :: (sorted.map Prod.fst ++ members.map Prod.fst)).Nodup :=
      (List.perm_middle.nodup_iff).1 h
    have hname : name ∉ sorted.map Prod.fst := fun hn =>
      (List.nodup_cons.1 hmid).1 (List.mem_append_left _ hn)
    have hinsert := insertMember_perm (j := j.generic) hname
    have hnodup : ((insertMember name j.generic sorted).map Prod.fst ++
        members.map Prod.fst).Nodup :=
      (((hinsert.map Prod.fst).append_right _).nodup_iff).2 hmid
    rw [genericMembers, List.map_cons]
    exact ((ih hnodup).trans (hinsert.append_right _)).trans List.perm_middle.symm

/-- The generic form of items is that of each item. -/
theorem genericAll_eq (items : List Json) : genericAll items = items.map generic := by
  induction items with
  | nil => rfl
  | cons j items ih => rw [genericAll, ih, List.map_cons]

/-- A tree itself is a faithful form of it. -/
theorem faithful_id : Faithful id where
  null := rfl
  bool _ := rfl
  text _ := rfl
  nat _ _ := rfl
  array items := by simp
  object members _ := ⟨members, rfl, by simp⟩

/-- The generic form is faithful: it only sorts the members of objects. -/
theorem faithful_generic : Faithful generic where
  null := rfl
  bool _ := rfl
  text _ := rfl
  nat n hn := by simp [Json.nat, generic, Number.narrow, hn]
  array items := by rw [generic, genericAll_eq]
  object _ hn := ⟨_, rfl, genericMembers_perm hn⟩

/-! ## Fields -/

/-- A member is found by its name if no other has the name. -/
theorem lookup_eq_of_mem {α : Type} {members : List (String × α)}
    (hn : (members.map Prod.fst).Nodup) {name : String} {a : α} (h : (name, a) ∈ members) :
    members.lookup name = some a := by
  induction members with
  | nil => exact absurd h List.not_mem_nil
  | cons m members ih =>
    rw [List.map_cons, List.nodup_cons] at hn
    rcases List.mem_cons.1 h with rfl | h
    · exact List.lookup_cons_self
    · have hne : name ≠ m.1 := by
        rintro rfl
        exact hn.1 (List.mem_map.2 ⟨_, h, rfl⟩)
      rw [List.lookup_cons, beq_false_of_ne hne]
      exact ih hn.2 h

/-- The fields that are written, of those that a record has. -/
def present (fields : List (String × Option Json)) : List (String × Json) :=
  fields.filterMap fun field => field.2.map (field.1, ·)

/-- The written fields of two parts follow each other. -/
theorem present_append (fields more : List (String × Option Json)) :
    present (fields ++ more) = present fields ++ present more :=
  List.filterMap_append

/-- Fields that all have a value are all written. -/
theorem present_some (members : List (String × Json)) :
    present (members.map fun m => (m.1, some m.2)) = members := by
  rw [present, List.filterMap_map]
  exact List.filterMap_some

/-- A field is written just if it has a value. -/
theorem mem_present_iff {fields : List (String × Option Json)} {name : String} {j : Json} :
    (name, j) ∈ present fields ↔ (name, some j) ∈ fields := by
  simp only [present, List.mem_filterMap, Option.map_eq_some_iff, Prod.mk.injEq]
  constructor
  · rintro ⟨⟨_, _⟩, hmem, _, rfl, rfl, rfl⟩
    exact hmem
  · intro h
    exact ⟨_, h, j, rfl, rfl, rfl⟩

/-- The names of the written fields are names of fields, in the same order. -/
theorem map_fst_present_sublist (fields : List (String × Option Json)) :
    ((present fields).map Prod.fst).Sublist (fields.map Prod.fst) := by
  induction fields with
  | nil => exact .slnil
  | cons field fields ih =>
    obtain ⟨name, _ | j⟩ := field
    · exact ih.cons name
    · exact ih.cons_cons name

/-- Of the fields of a record, those that are written are found in what becomes of the object, and
no others. -/
theorem Faithful.record?_present {f : Json → Json} (hf : Faithful f)
    {fields : List (String × Option Json)} (hn : (fields.map Prod.fst).Nodup) :
    ∃ r, (f (.object (present fields))).record? (fields.map Prod.fst) = some r ∧
      ∀ field ∈ fields, r.find? field.1 = field.2.map f := by
  have hsub := map_fst_present_sublist fields
  obtain ⟨found, hobject, hperm⟩ := hf.object _ (hn.sublist hsub)
  have hnames : (found.map Prod.fst).Perm ((present fields).map Prod.fst) := by
    simpa [Function.comp_def] using hperm.map Prod.fst
  have hfound : (found.map Prod.fst).Nodup := hnames.nodup_iff.2 (hn.sublist hsub)
  have hknown : (found.filter fun m => (fields.map Prod.fst).contains m.1) = found := by
    refine List.filter_eq_self.2 fun m hm => ?_
    exact List.elem_eq_true_of_mem
      (hsub.subset (hnames.mem_iff.1 (List.mem_map_of_mem hm)))
  refine ⟨⟨false, found⟩, ?_, ?_⟩
  · simp only [hobject, Json.record?, hknown, hfound, if_true]
  · rintro ⟨name, _ | j⟩ hfield
    · refine List.lookup_eq_none_iff.2 fun m hm => ?_
      obtain ⟨⟨name', j⟩, hmem, rfl⟩ := List.mem_map.1 (hperm.mem_iff.1 hm)
      refine bne_iff_ne.2 ?_
      rintro rfl
      -- a name is either written or left out, as it stands once among the fields
      have hleft := lookup_eq_of_mem hn hfield
      rw [lookup_eq_of_mem hn (mem_present_iff.1 hmem)] at hleft
      cases hleft
    · exact lookup_eq_of_mem hfound
        (hperm.mem_iff.2 (List.mem_map_of_mem (mem_present_iff.2 hfield)))

/-- The fields that are written are found in what becomes of the object. -/
theorem Faithful.record? {f : Json → Json} (hf : Faithful f) {members : List (String × Json)}
    (hn : (members.map Prod.fst).Nodup) :
    ∃ r, (f (.object members)).record? (members.map Prod.fst) = some r ∧
      ∀ m ∈ members, r.find? m.1 = some (f m.2) := by
  have hnames : (members.map fun m => (m.1, some m.2)).map Prod.fst = members.map Prod.fst := by
    rw [List.map_map]
    rfl
  have hfields : ((members.map fun m => (m.1, some m.2)).map Prod.fst).Nodup := hnames ▸ hn
  obtain ⟨r, hr, hfind⟩ := hf.record?_present hfields
  rw [present_some, hnames] at hr
  exact ⟨r, hr, fun m hm => hfind _ (List.mem_map_of_mem hm)⟩

/-- A tree shows all it holds in its text and opens so many arrays and objects at most. -/
def IsShallow (n : Nat) (j : Json) : Prop :=
  j.IsWritable ∧ j.nesting ≤ n

/-- A tree that opens at most so many opens at most more. -/
theorem IsShallow.mono {m n : Nat} {j : Json} (h : j.IsShallow m) (hmn : m ≤ n) : j.IsShallow n :=
  ⟨h.1, Nat.le_trans h.2 hmn⟩

/-- An array opens one more than its items do. -/
theorem shallow_array {n : Nat} {items : List Json} (h : ∀ j ∈ items, j.IsShallow n) :
    IsShallow (n + 1) (.array items) := by
  refine ⟨AllWritable_iff.2 fun j hj => (h j hj).1, ?_⟩
  have hall := nestingOfAll_le.2 fun j hj => (h j hj).2
  rw [nesting]
  omega

/-- An object opens one more than its members do. -/
theorem shallow_object {n : Nat} {members : List (String × Json)}
    (h : ∀ m ∈ members, m.2.IsShallow n) : IsShallow (n + 1) (.object members) := by
  refine ⟨MembersWritable_iff.2 fun m hm => (h m hm).1, ?_⟩
  have hall := nestingOfMembers_le.2 fun m hm => (h m hm).2
  rw [nesting]
  omega

/-- Items that are read back make a list that is. -/
theorem asList_map {α : Type} {write : α → Json} {read : Json → Option α} {as : List α}
    (h : ∀ a ∈ as, read (write a) = some a) : asList read (.array (as.map write)) = some as := by
  rw [asList]
  induction as with
  | nil => rfl
  | cons a as ih =>
    obtain ⟨ha, has⟩ := List.forall_mem_cons.1 h
    rw [List.map_cons, List.mapM_cons, ha, Option.bind_eq_bind, Option.bind_some, ih has]
    rfl

/-- What is written is read back, behind every faithful change of its tree, and the tree shows all
it holds and nests so deeply at most. -/
structure ReadsBack {α : Type} (n : Nat) (write : α → Json) (read : Json → Option α) : Prop where
  shallow : ∀ a, (write a).IsShallow n
  reads : ∀ f, Faithful f → ∀ a, read (f (write a)) = some a

section
variable {α : Type} {n : Nat} {write : α → Json} {read : Json → Option α}

/-- What is read back with so much nesting is so with more. -/
theorem ReadsBack.mono {m : Nat} (h : ReadsBack m write read) (hmn : m ≤ n) :
    ReadsBack n write read :=
  ⟨fun a => (h.shallow a).mono hmn, h.reads⟩

/-- What is written is read from its text, by its tree or by its generic tree. -/
theorem ReadsBack.reads_toText (h : ReadsBack n write read) (generic : Bool) (a : α) :
    (if generic then parseGeneric? (write a).toText else parse? (write a).toText).bind read =
      some a := by
  have hw := (h.shallow a).1
  cases generic with
  | false =>
    simp only [Bool.false_eq_true, if_false, parse?_toText hw, Option.bind_some]
    exact h.reads id faithful_id a
  | true =>
    simp only [if_true, parseGeneric?, parse?_toText hw, Option.bind_some, hw.isReadable]
    exact h.reads Json.generic faithful_generic a

/-- A list is read back if its items are, one array deeper. -/
theorem ReadsBack.list (h : ReadsBack n write read) :
    ReadsBack (n + 1) (fun as => .array (as.map write)) (asList read) where
  shallow as := by
    refine shallow_array fun j hj => ?_
    obtain ⟨a, -, rfl⟩ := List.mem_map.1 hj
    exact h.shallow a
  reads f hf as := by
    rw [hf.array, List.map_map]
    exact asList_map fun a _ => h.reads f hf a

/-- A text is read back. -/
theorem text_readsBack : ReadsBack 0 Json.text asText :=
  ⟨fun _ => ⟨trivial, Nat.le_refl 0⟩, fun f hf s => by rw [hf.text]; rfl⟩

/-- A truth value is read back. -/
theorem bool_readsBack : ReadsBack 0 Json.bool asBool :=
  ⟨fun _ => ⟨trivial, Nat.le_refl 0⟩, fun f hf b => by rw [hf.bool]; rfl⟩

/-- A natural of 64 bits is a tree that shows all it holds. -/
theorem nat_shallow {k : Nat} (h : k < 2 ^ 64) : (Json.nat k).IsShallow 0 :=
  ⟨by simp [Json.nat, IsWritable, Number.IsWritable, Number.narrow, h], Nat.le_refl 0⟩

/-- A natural is read back below the bound of its reader. -/
theorem asNat_nat {k bound : Nat} (h : k < bound) : asNat bound (.nat k) = some k :=
  if_pos h

/-- A natural of 64 bits is read back. -/
theorem uint64_readsBack : ReadsBack 0 (fun x : UInt64 => .nat x.toNat) asUInt64 where
  shallow x := nat_shallow x.toNat_lt
  reads f hf x := by
    rw [hf.nat _ x.toNat_lt, asUInt64, asNat_nat x.toNat_lt, Option.map_some, UInt64.ofNat_toNat]

/-- A natural of 32 bits is read back. -/
theorem uint32_readsBack : ReadsBack 0 (fun x : UInt32 => .nat x.toNat) asUInt32 where
  shallow x := nat_shallow (Nat.lt_trans x.toNat_lt (by decide))
  reads f hf x := by
    rw [hf.nat _ (Nat.lt_trans x.toNat_lt (by decide)), asUInt32, asNat_nat x.toNat_lt,
      Option.map_some, UInt32.ofNat_toNat]

/-- A natural of 16 bits is read back. -/
theorem uint16_readsBack : ReadsBack 0 (fun x : UInt16 => .nat x.toNat) asUInt16 where
  shallow x := nat_shallow (Nat.lt_trans x.toNat_lt (by decide))
  reads f hf x := by
    rw [hf.nat _ (Nat.lt_trans x.toNat_lt (by decide)), asUInt16, asNat_nat x.toNat_lt,
      Option.map_some, UInt16.ofNat_toNat]

/-- A byte string is read back from its digits. -/
theorem hex_readsBack : ReadsBack 0 hex asHex where
  shallow _ := ⟨trivial, Nat.le_refl 0⟩
  reads f hf b := by
    rw [hex, hf.text, asHex, asText, Option.bind_some, Hex.decodeMarked_encode]
    rfl

/-- A list of byte strings is read back. -/
theorem hexes_readsBack : ReadsBack 1 hexes asHexes :=
  hex_readsBack.list

end

/-! ## Records -/

/-- Fields are read as they are written, whatever faithful change the record has gone through, and
none of them nests too deeply. -/
structure ReadsFields {α : Type} (n : Nat) (fields : List (String × Json))
    (read : Record → Option α) (a : α) : Prop where
  shallow : ∀ m ∈ fields, m.2.IsShallow n
  reads : ∀ f, Faithful f → ∀ r : Record, (∀ m ∈ fields, r.find? m.1 = some (f m.2)) →
    read r = some a

section
variable {α β : Type} {m n : Nat} {name : String} {write : α → Json} {read : Json → Option α}

/-- A record without further fields is read as the value itself. -/
theorem ReadsFields.done {a : α} : ReadsFields n [] (fun _ => pure a) a :=
  ⟨List.forall_mem_nil _, fun _ _ _ _ => rfl⟩

/-- The first field is read, and then the others. -/
theorem ReadsFields.cons {field : String × Json} {fields : List (String × Json)}
    {first : Record → Option α} {rest : α → Record → Option β} {a : α} {b : β}
    (h : ReadsFields n [field] first a) (hrest : ReadsFields n fields (rest a) b) :
    ReadsFields n (field :: fields) (fun r => first r >>= fun a => rest a r) b where
  shallow := List.forall_mem_cons.2 ⟨h.shallow _ List.mem_cons_self, hrest.shallow⟩
  reads f hf r hr := by
    obtain ⟨hfield, hfields⟩ := List.forall_mem_cons.1 hr
    have hfirst := h.reads f hf r (List.forall_mem_singleton.2 hfield)
    rw [hfirst]
    exact hrest.reads f hf r hfields

/-- A required field is read back if its value is. -/
theorem ReadsBack.required (h : ReadsBack m write read) (hmn : m ≤ n) {a : α} :
    ReadsFields n [(name, write a)] (·.required name read) a where
  shallow := List.forall_mem_singleton.2 ((h.shallow a).mono hmn)
  reads f hf r hr := by
    rw [Record.required, List.forall_mem_singleton.1 hr]
    exact h.reads f hf a

/-- A field with a default is read back from what is written. -/
theorem ReadsBack.orDefault (h : ReadsBack m write read) (hmn : m ≤ n) {a default : α} :
    ReadsFields n [(name, write a)] (·.orDefault name default read) a where
  shallow := List.forall_mem_singleton.2 ((h.shallow a).mono hmn)
  reads f hf r hr := by
    rw [Record.orDefault, List.forall_mem_singleton.1 hr]
    exact h.reads f hf a

/-- An optional value opens no more than the value would. -/
theorem ofOption_shallow (h : ReadsBack m write read) (hmn : m ≤ n) (a : Option α) :
    (ofOption write a).IsShallow n := by
  cases a with
  | none => exact ⟨trivial, Nat.zero_le n⟩
  | some a => exact (h.shallow a).mono hmn

/-- A field that may be null is read as one that may be absent too, if it is there. -/
theorem optional_eq {r : Record} {j : Json} (hr : r.find? name = some j) :
    r.optional name read = r.optionalOrAbsent name read := by
  rw [Record.optional, Record.optionalOrAbsent, hr]
  cases j <;> rfl

/-- Null is taken for nothing, so it must not be the tree of something. -/
theorem ReadsBack.optionalOrAbsent (h : ReadsBack m write read) (hmn : m ≤ n)
    (hnull : read .null = none) {a : Option α} :
    ReadsFields n [(name, ofOption write a)] (·.optionalOrAbsent name read) a where
  shallow := List.forall_mem_singleton.2 (ofOption_shallow h hmn a)
  reads f hf r hr := by
    rw [Record.optionalOrAbsent, List.forall_mem_singleton.1 hr]
    cases a with
    | none =>
      rw [ofOption, hf.null]
    | some a =>
      -- the tree found is not null, which reads as nothing
      have hread := h.reads f hf a
      rw [ofOption]
      split
      · next hj => cases hj
      · next hj =>
        rw [Option.some.inj hj, hnull] at hread
        cases hread
      · next hj => rw [← Option.some.inj hj, hread, Option.map_some]

/-- An optional field is read back if its value is, and null stands for no value. -/
theorem ReadsBack.optional (h : ReadsBack m write read) (hmn : m ≤ n)
    (hnull : read .null = none) {a : Option α} :
    ReadsFields n [(name, ofOption write a)] (·.optional name read) a where
  shallow := List.forall_mem_singleton.2 (ofOption_shallow h hmn a)
  reads f hf r hr := by
    have hfound := List.forall_mem_singleton.1 hr
    rw [optional_eq hfound]
    exact (h.optionalOrAbsent hmn hnull).reads f hf r hr

/-- Nothing is left out, and so is read as nothing. -/
theorem ReadsBack.optionalOrAbsent_present (h : ReadsBack n write read) (hnull : read .null = none)
    {f : Json → Json} (hf : Faithful f) {r : Record} {a : Option α}
    (hr : r.find? name = (a.map write).map f) : r.optionalOrAbsent name read = some a := by
  cases a with
  | none =>
    rw [Record.optionalOrAbsent, hr]
    rfl
  | some a =>
    have hfields : ReadsFields n [(name, ofOption write (some a))]
        (·.optionalOrAbsent name read) (some a) := h.optionalOrAbsent (Nat.le_refl n) hnull
    exact hfields.reads f hf r (List.forall_mem_singleton.2 hr)

/-- A record is read back if its fields are. -/
theorem readsBack_of_fields {names : List String} {fields : α → List (String × Json)}
    {read : Record → Option α} (hnames : ∀ a, (fields a).map Prod.fst = names)
    (hn : names.Nodup) (h : ∀ a, ReadsFields n (fields a) read a) :
    ReadsBack (n + 1) (fun a => .object (fields a)) (fun j => j.record? names >>= read) where
  shallow a := shallow_object (h a).shallow
  reads f hf a := by
    have hfields : ((fields a).map Prod.fst).Nodup := by rwa [hnames]
    obtain ⟨r, hr, hfind⟩ := hf.record? hfields
    rw [hnames] at hr
    rw [hr]
    exact (h a).reads f hf r hfind

end

end LedgerFeed.Json
