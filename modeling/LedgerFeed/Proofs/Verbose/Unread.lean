import LedgerFeed.Proofs.Json.Rearranged
import LedgerFeed.Proofs.Verbose.Contents

/-!
# Members that are not read

What the reader of a value looks at in an object depends on the place of the object: a value, an
entry, a field and so on, where the body of a value has the place that its kind gives it
(`Place.member?`). A change of trees *keeps what is read* (`Keeps`) if it keeps the last members of
the names that are looked for, each at its own place. Every such change leaves the result as it is,
value or fault (`Keeps.ofTree`). Leaving out what is not looked for is one (`dropped_keeps`), and
making a tree generic is another (`generic_keeps`).
-/

namespace LedgerFeed.Verbose

/-- Where the reader of a value meets a tree. Nothing in a tree that is read as a whole is met
again. -/
inductive Place
  | value
  | items
  | entries
  | entry
  | composite
  | fields
  | field
  | path
  | type
  | structuredType
  | whole

namespace Place

/-- The place of the items of an array. -/
def item : Place → Place
  | .items => .value
  | .entries => .entry
  | .fields => .field
  | _ => .whole

/-- The place of the body of a value. -/
def ofBody : Kind → Place
  | .optional => .value
  | .array => .items
  | .dictionary => .entries
  | .composite _ => .composite
  | .path => .path
  | .type => .type
  | _ => .whole

/-- The place of the body among the members of a value. A void value has none. -/
def body? (members : List (String × Json)) : Option Place :=
  match Json.lastMember? "type" members with
  | some (.text name) =>
    if name = Kind.void.name then none else some ((Kind.ofName? name).elim .whole ofBody)
  | _ => some .whole

/-- The place of a member by its name, if the member is read. -/
def member? (p : Place) (members : List (String × Json)) (name : String) : Option Place :=
  match p with
  | .value =>
    if name = "type" then some .whole else if name = "value" then body? members else none
  | .entry => [("key", .value), ("value", .value)].lookup name
  | .composite => [("id", .whole), ("fields", .fields)].lookup name
  | .field => [("name", .whole), ("value", .value)].lookup name
  | .path => [("domain", .whole), ("identifier", .whole)].lookup name
  | .type => [("staticType", .structuredType)].lookup name
  | .structuredType => [("kind", .whole), ("typeID", .whole)].lookup name
  | .items | .entries | .fields | .whole => some .whole

end Place

mutual

/-- The tree without the members that are not read. -/
def dropped (p : Place) : Json → Json
  | .array items => .array (droppedItems p.item items)
  | .object members => .object (droppedMembers (p.member? members) members)
  | j => j

/-- The items without the members that are not read. -/
def droppedItems (p : Place) : List Json → List Json
  | [] => []
  | j :: rest => dropped p j :: droppedItems p rest

/-- The members that are read, by the places of their names. -/
def droppedMembers (place? : String → Option Place) :
    List (String × Json) → List (String × Json)
  | [] => []
  | (name, j) :: rest =>
    match place? name with
    | some p => (name, dropped p j) :: droppedMembers place? rest
    | none => droppedMembers place? rest

end

/-! ## Changes that keep what is read -/

/-- Under each name that is read at a place, the last member has changed as its own place has it. -/
def Kept (f : Place → Json → Json) (p : Place) (members found : List (String × Json)) : Prop :=
  ∀ name q, p.member? members name = some q →
    Json.lastMember? name found = (Json.lastMember? name members).map (f q)

/-- What may become of a tree at a place. Numbers are never read, so they may lose their value. -/
inductive Changed (f : Place → Json → Json) (p : Place) : Json → Json → Prop
  | null : Changed f p .null .null
  | bool (b : Bool) : Changed f p (.bool b) (.bool b)
  | number (m n : Json.Number) : Changed f p (.number m) (.number n)
  | lost (m : Json.Number) : Changed f p (.number m) .unreadable
  | text (s : String) : Changed f p (.text s) (.text s)
  | array (items : List Json) : Changed f p (.array items) (.array (items.map (f p.item)))
  | object {members found : List (String × Json)} (h : Kept f p members found) :
    Changed f p (.object members) (.object found)
  | unreadable : Changed f p .unreadable .unreadable

/-- A change of trees, one for each place, keeps what is read. -/
def Keeps (f : Place → Json → Json) : Prop :=
  ∀ p j, Changed f p j (f p j)

/-- Items lose the unread members, each on its own. -/
theorem droppedItems_eq (p : Place) (items : List Json) :
    droppedItems p items = items.map (dropped p) := by
  induction items with
  | nil => rfl
  | cons j items ih => rw [droppedItems, ih, List.map_cons]

section
variable {f : Place → Json → Json} {p q : Place} {j i : Json}
  {members found : List (String × Json)} {name : String} {α : Type}

/-- A null stays null. -/
theorem Keeps.null (hf : Keeps f) : f p .null = .null := by
  have h := hf p .null
  generalize f p .null = i at h ⊢
  cases h
  rfl

/-- Nothing else becomes null. -/
theorem Keeps.ne_null (hf : Keeps f) (hj : j ≠ .null) : f p j ≠ .null := by
  intro h
  have hchanged := hf p j
  rw [h] at hchanged
  cases hchanged
  exact hj rfl

/-- A reader of members reads on in the same way, if what follows looks at members that are kept. -/
theorem Changed.membersOf_bind (h : Changed f p j i) (what : String)
    {F G : List (String × Json) → Except Fault α}
    (hFG : ∀ members found, Kept f p members found → F found = G members) :
    membersOf what i >>= F = membersOf what j >>= G := by
  cases h with
  | object hkept => exact hFG _ _ hkept
  | _ => rfl

/-- A reader of items reads on in the same way, if what follows looks at each item as its own place
has it. -/
theorem Changed.itemsOf_bind (h : Changed f p j i) (what : String)
    {F G : List Json → Except Fault α} (hFG : ∀ items, F (items.map (f p.item)) = G items) :
    itemsOf what i >>= F = itemsOf what j >>= G := by
  cases h with
  | array items => exact hFG items
  | _ => rfl

/-- A field that is read leads on in the same way, if what follows looks at it as its own place has
it. -/
theorem Kept.field_bind (h : Kept f p members found) (hname : p.member? members name = some q)
    {F G : Json → Except Fault α} (hFG : ∀ j, F (f q j) = G j) :
    field name found >>= F = field name members >>= G := by
  rw [field, field, h name q hname]
  cases Json.lastMember? name members with
  | none => rfl
  | some j => exact hFG j

/-- A text that is read stays the same. -/
theorem Kept.textField (hf : Keeps f) (h : Kept f p members found)
    (hname : p.member? members name = some q) :
    textField name found = textField name members := by
  rw [Verbose.textField, Verbose.textField, h name q hname]
  cases Json.lastMember? name members with
  | none => rfl
  | some j =>
    have hj := hf q j
    rw [Option.map_some]
    generalize f q j = i at hj ⊢
    cases hj <;> rfl

/-- A list is read in the same way if each item is. -/
theorem readAll_keeps {read : Json → Except Fault α} {g : Json → Json}
    (h : ∀ j, read (g j) = read j) (items : List Json) :
    readAll read (items.map g) = readAll read items := by
  induction items with
  | nil => rfl
  | cons j items ih => rw [List.map_cons, readAll, readAll, h, ih]

variable {o : DecodeOptions} {read : Json → Except Fault Value}

/-- An entry is read in the same way if values are. -/
theorem readEntry_keeps (hf : Keeps f) (hread : ∀ j, read (f .value j) = read j) (e : Json) :
    readEntry read (f .entry e) = readEntry read e := by
  refine (hf .entry e).membersOf_bind _ fun members found h => ?_
  refine h.field_bind (q := .value) rfl fun key => ?_
  rw [hread]
  refine bind_congr fun _ => h.field_bind (q := .value) rfl fun value => ?_
  rw [hread]

/-- A field is read in the same way if values are. -/
theorem readField_keeps (hf : Keeps f) (hread : ∀ j, read (f .value j) = read j) (e : Json) :
    readField read (f .field e) = readField read e := by
  refine (hf .field e).membersOf_bind _ fun members found h => ?_
  rw [h.textField hf (q := .whole) rfl]
  refine bind_congr fun _ => h.field_bind (q := .value) rfl fun value => ?_
  rw [hread]

/-- The type ID of a structured type stays the same. -/
theorem readTypeId_keeps (hf : Keeps f) (h : Kept f .structuredType members found) :
    readTypeId found = readTypeId members := by
  rw [readTypeId, readTypeId, h "typeID" .whole rfl]
  cases Json.lastMember? "typeID" members with
  | none => rfl
  | some j =>
    have hj := hf .whole j
    rw [Option.map_some]
    generalize f .whole j = i at hj ⊢
    cases hj <;> rfl

/-- A type is read in the same way. -/
theorem readStaticType_keeps (hf : Keeps f) (body : Json) :
    readStaticType o (f .type body) = readStaticType o body := by
  refine (hf .type body).membersOf_bind _ fun members found h => ?_
  refine h.field_bind (q := .structuredType) rfl fun t => ?_
  have ht := hf .structuredType t
  generalize f .structuredType t = i at ht ⊢
  cases ht with
  | @object members found hkept =>
    have hkind : textField "kind" found = textField "kind" members :=
      hkept.textField hf (q := .whole) rfl
    simp only [hkind, readTypeId_keeps hf hkept]
  | _ => rfl

/-- The body of a kind is read alike at its place. -/
theorem readBody_keeps (hf : Keeps f) (hread : ∀ j, read (f .value j) = read j) (k : Kind)
    (body : Json) : readBody o read k (f (.ofBody k) body) = readBody o read k body := by
  cases k with
  | void => rfl
  | optional =>
    by_cases hnull : body = .null
    · rw [hnull, hf.null]
    · rw [readBody_optional hnull, readBody_optional (hf.ne_null hnull)]
      exact congrArg (Except.map _) (hread body)
  | bool | text | address | integer | fixed =>
    have hbody := hf .whole body
    change readBody o read _ (f .whole body) = _
    generalize f .whole body = i at hbody ⊢
    cases hbody <;> rfl
  | array =>
    refine (hf .items body).itemsOf_bind _ fun items => ?_
    rw [Place.item, readAll_keeps hread]
  | dictionary =>
    refine (hf .entries body).itemsOf_bind _ fun entries => ?_
    rw [Place.item, readAll_keeps (readEntry_keeps hf hread)]
  | composite k =>
    refine (hf .composite body).membersOf_bind _ fun members found h => ?_
    rw [h.textField hf (q := .whole) rfl]
    refine bind_congr fun _ => h.field_bind (q := .fields) rfl fun fields => ?_
    refine (hf .fields fields).itemsOf_bind _ fun fields => ?_
    rw [Place.item, readAll_keeps (readField_keeps hf hread)]
  | path =>
    refine (hf .path body).membersOf_bind _ fun members found h => ?_
    rw [h.textField hf (q := .whole) rfl, h.textField hf (q := .whole) rfl]
  | type => exact congrArg (Except.map _) (readStaticType_keeps hf body)

/-- The result of the reader stays as it is. -/
theorem Keeps.ofTree (hf : Keeps f) (levels : Nat) (j : Json) :
    Verbose.ofTree o levels (f .value j) = Verbose.ofTree o levels j := by
  induction levels generalizing j with
  | zero => rfl
  | succ levels ih =>
    rw [Verbose.ofTree, Verbose.ofTree]
    refine (hf .value j).membersOf_bind _ fun members found h => ?_
    rw [h.textField hf (q := .whole) rfl]
    refine bind_congr_of_ok fun name hname => ?_
    split
    · rfl
    · next hvoid =>
      -- the name that has been read gives the body its place
      have hbody : Place.member? .value members "value" =
          some ((Kind.ofName? name).elim .whole .ofBody) := by
        rw [Place.member?, if_neg (by decide), if_pos rfl, Place.body?, textField_eq_ok.1 hname]
        exact if_neg hvoid
      refine h.field_bind hbody fun body => ?_
      cases Kind.ofName? name with
      | none => rfl
      | some k => exact readBody_keeps hf ih k body

end

end LedgerFeed.Verbose
