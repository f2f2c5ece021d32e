import LedgerFeed.Proofs.Json.Grammar
import LedgerFeed.Proofs.Json.Lexing

/-!
# Written trees read back

A tree is read from its text again (`parse_render`), unless it holds something that its text does
not show: what is unreadable is written as null, and doubles are not looked at here.
-/

namespace LedgerFeed.Json

/-- The number is an integer, not too large to be read. -/
def Number.IsWritable : Number → Prop
  | .integer negative n => (Number.integer negative n).narrow.isSome
  | .real _ => False

mutual

/-- The tree shows all it holds in its text. -/
def IsWritable : Json → Prop
  | .null | .bool _ | .text _ => True
  | .number n => n.IsWritable
  | .array items => AllWritable items
  | .object members => MembersWritable members
  | .unreadable => False

/-- `IsWritable` over items. -/
def AllWritable : List Json → Prop
  | [] => True
  | j :: rest => IsWritable j ∧ AllWritable rest

/-- `IsWritable` over members. -/
def MembersWritable : List (String × Json) → Prop
  | [] => True
  | (_, j) :: rest => IsWritable j ∧ MembersWritable rest

end

/-- `AllWritable` in the per-item form. -/
theorem AllWritable_iff {items : List Json} :
    AllWritable items ↔ ∀ j ∈ items, j.IsWritable := by
  induction items with
  | nil => simp [AllWritable]
  | cons j rest ih => simp only [AllWritable, ih, List.forall_mem_cons]

/-- `MembersWritable` in the per-member form. -/
theorem MembersWritable_iff {members : List (String × Json)} :
    MembersWritable members ↔ ∀ m ∈ members, m.2.IsWritable := by
  induction members with
  | nil => simp [MembersWritable]
  | cons m rest ih => simp only [MembersWritable, ih, List.forall_mem_cons]

/-- A tree that shows all it holds can be read. -/
theorem IsWritable.isReadable {j : Json} (h : j.IsWritable) : j.isReadable = true := by
  induction j with
  | null | bool | number | text => rfl
  | array items ih => exact allReadable_iff.2 fun j hj => ih j hj (AllWritable_iff.1 h j hj)
  | object members ih =>
    exact membersReadable_iff.2 fun m hm => ih m hm (MembersWritable_iff.1 h m hm)
  | unreadable => exact h.elim

/-! ## Tokens -/

/-- A comma ends a number. -/
theorem endsNumber_comma : EndsNumber ',' := by simp [EndsNumber, decimalDigit?]

/-- The text of a tree makes the tokens of the tree, whatever follows. -/
def LexesBack (j : Json) : Prop :=
  ∀ rest : List Char, Delimited rest →
    Lexer.between.tokens? (render j ++ rest) =
      (Lexer.between.tokens? rest).map (tokens j ++ ·)

/-- The text of items makes the tokens of the items. -/
theorem tokens?_renderItems {items : List Json} (h : ∀ j ∈ items, LexesBack j) {rest : List Char}
    (hrest : Delimited rest) :
    Lexer.between.tokens? (renderItems items ++ rest) =
      (Lexer.between.tokens? rest).map (tokensOfItems items ++ ·) := by
  induction items with
  | nil => simp [renderItems, tokensOfItems]
  | cons j items ih =>
    obtain ⟨hj, hitems⟩ := List.forall_mem_cons.1 h
    cases items with
    | nil => exact hj rest hrest
    | cons k items =>
      rw [renderItems, List.append_assoc, List.cons_append,
        hj _ (delimited_cons endsNumber_comma _), Lexer.tokens?_cons rfl, ih hitems]
      · simp [tokensOfItems, Option.map_map, Function.comp_def]
      · exact List.cons_ne_nil k items

/-- The text of members makes the tokens of the members. -/
theorem tokens?_renderMembers {members : List (String × Json)} (h : ∀ m ∈ members, LexesBack m.2)
    {rest : List Char} (hrest : Delimited rest) :
    Lexer.between.tokens? (renderMembers members ++ rest) =
      (Lexer.between.tokens? rest).map (tokensOfMembers members ++ ·) := by
  induction members with
  | nil => simp [renderMembers, tokensOfMembers]
  | cons m members ih =>
    obtain ⟨name, j⟩ := m
    obtain ⟨hj, hmembers⟩ := List.forall_mem_cons.1 h
    cases members with
    | nil =>
      rw [renderMembers, List.append_assoc, List.cons_append, tokens?_renderText,
        Lexer.tokens?_cons rfl, hj rest hrest]
      simp [tokensOfMembers, Option.map_map, Function.comp_def]
    | cons k members =>
      rw [renderMembers, List.append_assoc, List.append_assoc, List.cons_append, List.cons_append,
        tokens?_renderText, Lexer.tokens?_cons rfl,
        hj _ (delimited_cons endsNumber_comma _), Lexer.tokens?_cons rfl, ih hmembers]
      · simp [tokensOfMembers, Option.map_map, Function.comp_def]
      · exact List.cons_ne_nil k members

/-- The text of a tree makes the tokens of the tree. -/
theorem tokens?_render {j : Json} (hj : j.IsWritable) : LexesBack j := by
  induction j with
  | null => exact fun rest _ => Lexer.tokens?_null rest
  | bool b =>
    cases b with
    | true => exact fun rest _ => Lexer.tokens?_true rest
    | false => exact fun rest _ => Lexer.tokens?_false rest
  | number n =>
    cases n with
    | integer negative n => exact fun _ hrest => Lexer.tokens?_integer hj hrest
    | real x => exact hj.elim
  | text s => exact fun rest _ => tokens?_renderText s rest
  | array items ih =>
    intro rest _
    have hitems := fun k hk => ih k hk (AllWritable_iff.1 hj k hk)
    have hclose : Delimited (']' :: rest) :=
      delimited_cons (by simp [EndsNumber, decimalDigit?]) rest
    rw [render, List.cons_append, List.cons_append, List.append_assoc, Lexer.tokens?_cons rfl,
      List.singleton_append, tokens?_renderItems hitems hclose, Lexer.tokens?_cons rfl]
    simp [tokens, Option.map_map, Function.comp_def]
  | object members ih =>
    intro rest _
    have hmembers := fun m hm => ih m hm (MembersWritable_iff.1 hj m hm)
    have hclose : Delimited ('\x7d' :: rest) :=
      delimited_cons (by simp [EndsNumber, decimalDigit?]) rest
    rw [render, List.cons_append, List.cons_append, List.append_assoc, Lexer.tokens?_cons rfl,
      List.singleton_append, tokens?_renderMembers hmembers hclose, Lexer.tokens?_cons rfl]
    simp [tokens, Option.map_map, Function.comp_def]
  | unreadable => exact hj.elim

/-! ## Building -/

/-- The tokens of items and a bracket are those of an array, nested as deep as the items are. -/
theorem items_tokensOfItems {items : List Json} (hne : items ≠ [])
    (h : ∀ j ∈ items, ∀ rest, Grammar.Tree (tokens j ++ rest) j j.nesting rest)
    (rest : List Token) :
    Grammar.Items (tokensOfItems items ++ .closeArray :: rest) items (nestingOfAll items) rest := by
  induction items with
  | nil => exact absurd rfl hne
  | cons j items ih =>
    obtain ⟨hj, hitems⟩ := List.forall_mem_cons.1 h
    cases items with
    | nil =>
      rw [nestingOfAll, nestingOfAll, Nat.max_zero]
      exact .last j (hj _)
    | cons k items =>
      have hne := List.cons_ne_nil k items
      rw [tokensOfItems, nestingOfAll, List.append_assoc]
      · exact .more j (hj _) (ih hne hitems)
      · exact hne

/-- A member whose name can be read. -/
def named (m : String × Json) : Option String × Json :=
  (some m.1, m.2)

/-- Members with names have readable names. -/
theorem readableNames_named (members : List (String × Json)) :
    readableNames (members.map named) = some members := by
  induction members with
  | nil => rfl
  | cons m members ih => simp [readableNames, named, ih]

/-- The object of members with names has these members. -/
theorem objectOf_named (members : List (String × Json)) :
    objectOf (members.map named).reverse = .object members := by
  rw [objectOf, List.reverse_reverse, readableNames_named]

/-- The tokens of members and a brace are those of an object, nested as deep as the members are. -/
theorem members_tokensOfMembers {members : List (String × Json)} (hne : members ≠ [])
    (h : ∀ m ∈ members, ∀ rest, Grammar.Tree (tokens m.2 ++ rest) m.2 m.2.nesting rest)
    (rest : List Token) :
    Grammar.Members (tokensOfMembers members ++ .closeObject :: rest) (members.map named)
      (nestingOfMembers members) rest := by
  induction members with
  | nil => exact absurd rfl hne
  | cons m members ih =>
    obtain ⟨name, j⟩ := m
    obtain ⟨hj, hmembers⟩ := List.forall_mem_cons.1 h
    cases members with
    | nil =>
      rw [nestingOfMembers, nestingOfMembers, Nat.max_zero]
      exact .last (some name) j (hj _)
    | cons k members =>
      have hne := List.cons_ne_nil k members
      rw [tokensOfMembers, nestingOfMembers, List.append_assoc]
      · exact .more (some name) j (hj _) (ih hne hmembers)
      · exact hne

/-- The tokens that a tree is written in are those of the tree, whatever follows. -/
theorem tree_tokens_append {j : Json} (hj : j.IsWritable) (rest : List Token) :
    Grammar.Tree (tokens j ++ rest) j j.nesting rest := by
  induction j generalizing rest with
  | null | bool | number => exact .scalar
  | text s => exact .text
  | array items ih =>
    have hitems := fun k hk => ih k hk (AllWritable_iff.1 hj k hk)
    rw [tokens, nesting, Nat.add_comm, List.append_assoc]
    cases items with
    | nil => exact .emptyArray
    | cons k items => exact .array (items_tokensOfItems (List.cons_ne_nil k items) hitems rest)
  | object members ih =>
    have hmembers := fun m hm => ih m hm (MembersWritable_iff.1 hj m hm)
    rw [tokens, nesting, Nat.add_comm, List.append_assoc]
    cases members with
    | nil => exact .emptyObject
    | cons m members =>
      rw [← objectOf_named (m :: members)]
      exact .object (members_tokensOfMembers (List.cons_ne_nil m members) hmembers rest)
  | unreadable => exact hj.elim

/-- The tokens of a tree are those of the tree in the grammar, nested as deep as the tree is. -/
theorem tree_tokens {j : Json} (hj : j.IsWritable) : Grammar.Tree (tokens j) j j.nesting [] := by
  have htree := tree_tokens_append hj []
  rwa [List.append_nil] at htree

/-- The text of a tree is cut into the tokens of the tree. -/
theorem tokens?_render_eq {j : Json} (hj : j.IsWritable) :
    Lexer.between.tokens? (render j) = some (tokens j) := by
  have hlex := tokens?_render hj [] (fun _ h => nomatch h)
  simpa [Lexer.tokens?, Lexer.finish] using hlex

/-- The tokens of a tree make the tree, where it is not nested too deep. -/
theorem pushAll_tokens {limit : Option Nat} {j : Json} (hj : j.IsWritable)
    (hfits : Fits limit j.nesting) :
    (Builder.valueDue []).pushAll limit (tokens j) = .ok (.after [] j) :=
  pushAll_eq_ok_iff.2 ⟨j.nesting, tree_tokens hj, hfits⟩

/-- A tree that shows all it holds is read from its text. -/
theorem parse_render {limit : Option Nat} {j : Json} (hj : j.IsWritable)
    (hfits : Fits limit j.nesting) : parse limit (render j) = .ok j :=
  parse_eq_ok_iff.2 ⟨tokens j, tokens?_render_eq hj, pushAll_tokens hj hfits⟩

/-- A tree that shows all it holds is read from its text, however deep it nests. -/
theorem parse?_toText {j : Json} (hj : j.IsWritable) : parse? j.toText = some j := by
  have hparse : parse none (render j) = .ok j := parse_render hj (fits_none _)
  rw [parse?, toText, String.toList_ofList, hparse]
  rfl

end LedgerFeed.Json
