import LedgerFeed.Proofs.Json.Nesting
import LedgerFeed.Proofs.Text.Decimal
import LedgerFeed.Proofs.Text.Hex
import LedgerFeed.Proofs.Value.Induction
import LedgerFeed.Proofs.Verbose.Contents

/-!
# Verbose payloads read back

The tree of a value gives the value back under all options, to a reader that may open as many levels
as the value has (`ofTree_tree`). No level opens more than four brackets, so the guard against too
many brackets lets the text of every value through that is not too deep.
-/

namespace LedgerFeed.Verbose

/-! ## Trees of values -/

/-- The tree of an entry. -/
def treeOfEntry (e : Value × Value) : Json :=
  .object [("key", tree e.1), ("value", tree e.2)]

/-- The tree of a field. -/
def treeOfField (f : String × Value) : Json :=
  .object [("name", .text f.1), ("value", tree f.2)]

/-- The trees of items are the items, each as its tree. -/
theorem treeOfItems_eq (items : List Value) : treeOfItems items = items.map tree := by
  induction items with
  | nil => rfl
  | cons v rest ih => rw [treeOfItems, ih, List.map_cons]

/-- The trees of entries are the entries, each as its tree. -/
theorem treeOfEntries_eq (entries : List (Value × Value)) :
    treeOfEntries entries = entries.map treeOfEntry := by
  induction entries with
  | nil => rfl
  | cons e rest ih => rw [treeOfEntries, ih, List.map_cons, treeOfEntry]

/-- The trees of fields are the fields, each as its tree. -/
theorem treeOfFields_eq (fields : List (String × Value)) :
    treeOfFields fields = fields.map treeOfField := by
  induction fields with
  | nil => rfl
  | cons f rest ih => rw [treeOfFields, ih, List.map_cons, treeOfField]

/-- A body is shown in full with its kind if it is alone. -/
theorem tagged_isWritable {k : Kind} {body : Json} (h : body.IsWritable) :
    (tagged k body).IsWritable :=
  ⟨trivial, h, trivial⟩

/-- The tree of a type is shown in full. -/
theorem treeOfType_isWritable (t : StaticType) : (treeOfType t).IsWritable := by
  obtain ⟨kind, typeId⟩ := t
  cases typeId <;> simp [treeOfType, Json.IsWritable, Json.MembersWritable]

/-- The tree of a value shows all it holds in its text. -/
theorem tree_isWritable (v : Value) : (tree v).IsWritable := by
  induction v with
  | void => exact ⟨trivial, trivial⟩
  | absent | bool | text | address | integer | fixed => exact tagged_isWritable trivial
  | present content ih => exact tagged_isWritable ih
  | array items ih =>
    refine tagged_isWritable (Json.AllWritable_iff.2 ?_)
    rw [treeOfItems_eq, List.forall_mem_map]
    exact ih
  | dictionary entries ih =>
    refine tagged_isWritable (Json.AllWritable_iff.2 ?_)
    rw [treeOfEntries_eq, List.forall_mem_map]
    exact fun e he => ⟨(ih e he).1, (ih e he).2, trivial⟩
  | composite k typeId fields ih =>
    refine tagged_isWritable ⟨Json.AllWritable_iff.2 ?_, trivial, trivial⟩
    rw [treeOfFields_eq, List.forall_mem_map]
    exact fun f hf => ⟨trivial, ih f hf, trivial⟩
  | path => exact tagged_isWritable ⟨trivial, trivial, trivial⟩
  | type t => exact tagged_isWritable (treeOfType_isWritable t)

/-- The object around a body opens one more than the body. -/
theorem nesting_tagged (k : Kind) (body : Json) :
    (tagged k body).nesting = 1 + body.nesting := by
  simp [tagged, Json.nesting, Json.nestingOfMembers]

/-- The tree of a type opens two objects. -/
theorem nesting_treeOfType (t : StaticType) : (treeOfType t).nesting = 2 := by
  obtain ⟨kind, typeId⟩ := t
  cases typeId <;> simp [treeOfType, Json.nesting, Json.nestingOfMembers]

/-- A value opens fewer than four brackets for each of its levels. -/
theorem nesting_tree_lt (v : Value) : (tree v).nesting < 4 * v.depth := by
  induction v with
  | void => decide
  | absent | bool | text | address | integer | fixed =>
    simp only [tree, nesting_tagged, Address.toJson, Json.nesting, Value.depth]
    decide
  | present content ih =>
    simp only [tree, nesting_tagged, Value.depth]
    omega
  | array items ih =>
    have hall : Json.nestingOfAll (treeOfItems items) ≤ 4 * Value.depthOfItems items := by
      rw [treeOfItems_eq, Json.nestingOfAll_le, List.forall_mem_map]
      intro v hv
      have hv' := Value.depthOfItems_le.1 (Nat.le_refl _) v hv
      have hlt := ih v hv
      omega
    simp only [tree, nesting_tagged, Json.nesting, Value.depth]
    omega
  | dictionary entries ih =>
    have hall : Json.nestingOfAll (treeOfEntries entries) ≤ 4 * Value.depthOfEntries entries := by
      rw [treeOfEntries_eq, Json.nestingOfAll_le, List.forall_mem_map]
      intro e he
      obtain ⟨hk, hv⟩ := Value.depthOfEntries_le.1 (Nat.le_refl _) e he
      obtain ⟨hklt, hvlt⟩ := ih e he
      simp only [treeOfEntry, Json.nesting, Json.nestingOfMembers]
      omega
    simp only [tree, nesting_tagged, Json.nesting, Value.depth]
    omega
  | composite k typeId fields ih =>
    have hall : Json.nestingOfAll (treeOfFields fields) ≤ 4 * Value.depthOfFields fields := by
      rw [treeOfFields_eq, Json.nestingOfAll_le, List.forall_mem_map]
      intro f hf
      have hv := Value.depthOfFields_le.1 (Nat.le_refl _) f hf
      have hlt := ih f hf
      simp only [treeOfField, Json.nesting, Json.nestingOfMembers]
      omega
    simp only [tree, nesting_tagged, Json.nesting, Json.nestingOfMembers, Value.depth]
    omega
  | path =>
    simp only [tree, nesting_tagged, Json.nesting, Json.nestingOfMembers, Value.depth]
    decide
  | type t =>
    simp only [tree, nesting_tagged, nesting_treeOfType, Value.depth]
    decide

/-! ## Values of trees -/

section
variable {o : DecodeOptions} {read : Json → Except Fault Value}

/-- If a reader gives back what `write` makes of each item, then it does so of all of them. -/
theorem readAll_map {α : Type} {read : Json → Except Fault α} (write : α → Json) {items : List α}
    (h : ∀ a ∈ items, read (write a) = .ok a) : readAll read (items.map write) = .ok items := by
  induction items with
  | nil => rfl
  | cons a items ih =>
    obtain ⟨ha, hitems⟩ := List.forall_mem_cons.1 h
    simp [readAll, ha, ih hitems, bind, Except.bind, pure, Except.pure]

/-- The first of two members is found by its name, if the other has another one. -/
theorem has_first {a b : String} (hne : a ≠ b) (i k : Json) :
    Has (.object [(a, i), (b, k)]) a i :=
  ⟨_, rfl, by simp [Json.lastMember?, hne.symm]⟩

/-- The second of two members is found by its name. -/
theorem has_second (a b : String) (i k : Json) : Has (.object [(a, i), (b, k)]) b k :=
  ⟨_, rfl, by simp [Json.lastMember?]⟩

/-- An entry is read back if its key and its value are. -/
theorem readEntry_treeOfEntry {e : Value × Value} (hk : read (tree e.1) = .ok e.1)
    (hv : read (tree e.2) = .ok e.2) : readEntry read (treeOfEntry e) = .ok e :=
  readEntry_eq_ok.2 ⟨_, _, has_first (by decide) _ _, has_second _ _ _ _, hk, hv⟩

/-- A field is read back if its value is. -/
theorem readField_treeOfField {f : String × Value} (hv : read (tree f.2) = .ok f.2) :
    readField read (treeOfField f) = .ok f :=
  readField_eq_ok.2 ⟨has_first (by decide) _ _, _, has_second _ _ _ _, hv⟩

/-- An integer of any type is read back from its digits. -/
theorem readInteger_render (t : IntegerType) (n : t.Num) :
    readInteger t (.text (String.ofList (Integer.render n.val))) = .ok n := by
  simp [readInteger, decimalText, Integer.parse_render n.lo_le n.le_hi, Bounded.clamp_val, bind,
    Except.bind]

/-- No number of a type has more units than are read. -/
theorem natAbs_le_most {t : FixedType} (n : t.Num) : n.val.natAbs ≤ Fixed.most := by
  have h0 := n.lo_le
  have h1 := n.le_hi
  cases t <;> simp only [FixedType.lo, FixedType.hi] at h0 h1 <;> simp only [Fixed.most] <;> omega

/-- A fixed-point number is read back from its digits. -/
theorem readFixed_render (t : FixedType) (n : t.Num) :
    readFixed t (.text (String.ofList (Fixed.render n.val))) = .ok n := by
  simp [readFixed, decimalText, Fixed.parse_render (natAbs_le_most n), Bounded.ofInt?_val, bind,
    Except.bind]

/-- An address is read back from its digits. -/
theorem readAddress_toJson (a : Address) : readAddress a.toJson = .ok a := by
  simp [readAddress, Address.toJson, Address.parse_toText]

/-- A type is written with its ID in an object, which is read under all options. -/
theorem readStaticType_treeOfType (t : StaticType) :
    readStaticType o (treeOfType t) = .ok t := by
  obtain ⟨kind, typeId⟩ := t
  cases typeId <;>
    simp [readStaticType, treeOfType, membersOf, textField, field, readTypeId, Json.lastMember?,
      bind, Except.bind, pure, Except.pure]

/-- The tree of a value holds its body for its kind. -/
theorem holds_tagged {k : Kind} (hk : k ≠ .void) (body : Json) : Holds (tagged k body) k body :=
  ⟨hk, has_first (by decide) _ _, has_second _ _ _ _⟩

/-- An object of a kind and a body is read by the kind. -/
theorem ofTree_tagged (levels : Nat) {k : Kind} (hk : k ≠ .void) (body : Json) :
    ofTree o (levels + 1) (tagged k body) = readBody o (ofTree o levels) k body :=
  ofTree_of_holds (holds_tagged hk body) levels

/-- The tree of a value is never null. -/
theorem tree_ne_null (v : Value) : tree v ≠ .null := by
  cases v <;> simp [tree, tagged]

/-- A value is read back from its tree by a reader that may open as many levels as it has. -/
theorem ofTree_tree (o : DecodeOptions) {v : Value} {levels : Nat} (hd : v.depth ≤ levels) :
    ofTree o levels (tree v) = .ok v := by
  induction levels generalizing v with
  | zero => exact absurd hd (Nat.not_le.2 v.depth_pos)
  | succ levels ih =>
    cases v with
    | void => simp [tree, ofTree, membersOf, textField, Json.lastMember?, bind, Except.bind]
    | absent => rw [tree, ofTree_tagged levels (by decide), readBody]
    | present content =>
      simp only [Value.depth] at hd
      have hc := ih (v := content) (by omega)
      rw [tree, ofTree_tagged levels (by decide), readBody]
      · rw [hc]
        rfl
      · exact tree_ne_null content
    | bool b => rw [tree, ofTree_tagged levels (by decide), readBody]
    | text s => rw [tree, ofTree_tagged levels (by decide), readBody]
    | address a =>
      rw [tree, ofTree_tagged levels (by decide), readBody, readAddress_toJson]
      rfl
    | integer t n =>
      rw [tree, ofTree_tagged levels (by simp), readBody, readInteger_render]
      rfl
    | fixed t n =>
      rw [tree, ofTree_tagged levels (by simp), readBody, readFixed_render]
      rfl
    | array items =>
      simp only [Value.depth, Nat.add_comm 1, Nat.add_le_add_iff_right,
        Value.depthOfItems_le] at hd
      have hitems := readAll_map tree fun v hv => ih (hd v hv)
      rw [tree, treeOfItems_eq, ofTree_tagged levels (by decide)]
      exact readBody_array_eq_ok.2 ⟨_, _, rfl, hitems, rfl⟩
    | dictionary entries =>
      simp only [Value.depth, Nat.add_comm 1, Nat.add_le_add_iff_right,
        Value.depthOfEntries_le] at hd
      have hentries := readAll_map treeOfEntry fun e he =>
        readEntry_treeOfEntry (ih (hd e he).1) (ih (hd e he).2)
      rw [tree, treeOfEntries_eq, ofTree_tagged levels (by decide)]
      exact readBody_dictionary_eq_ok.2 ⟨_, _, rfl, hentries, rfl⟩
    | composite k typeId fields =>
      simp only [Value.depth, Nat.add_comm 1, Nat.add_le_add_iff_right,
        Value.depthOfFields_le] at hd
      have hfields := readAll_map treeOfField fun f hf =>
        readField_treeOfField (ih (hd f hf))
      rw [tree, treeOfFields_eq, ofTree_tagged levels (by simp)]
      exact readBody_composite_eq_ok.2
        ⟨_, _, _, has_second _ _ _ _, has_first (by decide) _ _, hfields, rfl⟩
    | path domain identifier =>
      rw [tree, ofTree_tagged levels (by decide)]
      exact readBody_path_eq_ok.2
        ⟨_, _, has_first (by decide) _ _, has_second _ _ _ _, rfl⟩
    | type t =>
      rw [tree, ofTree_tagged levels (by decide), readBody, readStaticType_treeOfType]
      rfl

end

/-! ## Payloads -/

/-- The text of an object starts with an opening brace. -/
theorem ofText_object (members : List (String × Json)) :
    ∃ rest, Bytes.ofText (Json.object members).toText = 0x7b :: rest := by
  rw [Json.toText, Json.render, Bytes.ofText_ofList]
  exact ⟨_, rfl⟩

/-- The text of a tree is the document of the tree. -/
theorem document?_toText {j : Json} (hj : j.IsWritable) :
    document? (Bytes.ofText j.toText) = some j := by
  have hparse : Json.parse none (Json.render j) = .ok j :=
    Json.parse_render hj (Json.fits_none _)
  simp [document?, Bytes.text?_ofText, Json.toText, hparse, Except.toOption, hj.isReadable]

/-- The text of a tree without too many brackets is decoded as the tree. -/
theorem decode_toText (o : DecodeOptions) {j : Json} (hj : j.IsWritable)
    (hn : j.nesting ≤ maxBrackets) :
    decode o (Bytes.ofText j.toText) = ofTree o Value.maxDepth j := by
  have hbrackets := (Json.bracketNesting_toText hj).trans_le hn
  exact decode_of_document? o (document?_toText hj) hbrackets

/-- The tree of a value is an object. -/
theorem tree_eq_object (v : Value) : ∃ members, tree v = .object members := by
  cases v <;> exact ⟨_, rfl⟩

/-- No value that is not too deep has too many brackets. -/
theorem nesting_tree_le {v : Value} (hd : v.depth ≤ Value.maxDepth) :
    (tree v).nesting ≤ maxBrackets := by
  have hlt := nesting_tree_lt v
  rw [maxBrackets]
  omega

/-- The payload of a value decodes to the value. -/
theorem decode_tree (o : DecodeOptions) {v : Value} (hd : v.depth ≤ Value.maxDepth) :
    decode o (Bytes.ofText (tree v).toText) = .ok v :=
  (decode_toText o (tree_isWritable v) (nesting_tree_le hd)).trans (ofTree_tree o hd)

end LedgerFeed.Verbose
