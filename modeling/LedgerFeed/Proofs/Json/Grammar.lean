import LedgerFeed.Proofs.Json.Induction
import LedgerFeed.Proofs.Json.Tokens

/-!
# The grammar of trees

Which tokens a tree is made of, written apart from the builder: `Grammar.Tree` also counts how many
arrays and objects are open at once. The builder makes a tree of just these tokens, as long as they
do not open more than it may (`pushAll_eq_ok_iff`).
-/

namespace LedgerFeed.Json

namespace Grammar

mutual

/-- The tokens start with those of a tree, in which `n` arrays and objects are open at once, and go
on with the rest. -/
inductive Tree : List Token → Json → Nat → List Token → Prop
  | scalar {j : Json} {rest : List Token} : Tree (.scalar j :: rest) j 0 rest
  | text {s : Option String} {rest : List Token} : Tree (.text s :: rest) (textTree s) 0 rest
  | emptyArray {rest : List Token} : Tree (.openArray :: .closeArray :: rest) (.array []) 1 rest
  | array {ts rest : List Token} {items : List Json} {n : Nat} :
    Items ts items n rest → Tree (.openArray :: ts) (.array items) (n + 1) rest
  | emptyObject {rest : List Token} : Tree (.openObject :: .closeObject :: rest) (.object []) 1 rest
  | object {ts rest : List Token} {members : List (Option String × Json)} {n : Nat} :
    Members ts members n rest → Tree (.openObject :: ts) (objectOf members.reverse) (n + 1) rest

/-- The tokens start with items and the bracket that closes their array. -/
inductive Items : List Token → List Json → Nat → List Token → Prop
  | last {ts rest : List Token} {n : Nat} (j : Json) :
    Tree ts j n (.closeArray :: rest) → Items ts [j] n rest
  | more {ts us rest : List Token} {items : List Json} {m n : Nat} (j : Json) :
    Tree ts j m (.comma :: us) → Items us items n rest → Items ts (j :: items) (max m n) rest

/-- The tokens start with members and the brace that closes their object. -/
inductive Members : List Token → List (Option String × Json) → Nat → List Token → Prop
  | last {ts rest : List Token} {n : Nat} (name : Option String) (j : Json) :
    Tree ts j n (.closeObject :: rest) →
      Members (.text name :: .colon :: ts) [(name, j)] n rest
  | more {ts us rest : List Token} {members : List (Option String × Json)} {m n : Nat}
    (name : Option String) (j : Json) :
    Tree ts j m (.comma :: us) → Members us members n rest →
      Members (.text name :: .colon :: ts) ((name, j) :: members) (max m n) rest

end

mutual

/-- A tree takes at least one token. -/
theorem Tree.length_lt {ts rest : List Token} {j : Json} {n : Nat} :
    Tree ts j n rest → rest.length < ts.length
  | .scalar | .text => Nat.lt_succ_self _
  | .emptyArray | .emptyObject => Nat.lt_succ_of_lt (Nat.lt_succ_self _)
  | .array h => Nat.lt_succ_of_lt h.length_lt
  | .object h => Nat.lt_succ_of_lt h.length_lt

/-- The items of an array take at least one token. -/
theorem Items.length_lt {ts rest : List Token} {items : List Json} {n : Nat} :
    Items ts items n rest → rest.length < ts.length
  | .last _ h => Nat.lt_of_succ_lt h.length_lt
  | .more _ h hmore => Nat.lt_trans hmore.length_lt (Nat.lt_of_succ_lt h.length_lt)

/-- The members of an object take at least one token. -/
theorem Members.length_lt {ts rest : List Token} {members : List (Option String × Json)} {n : Nat} :
    Members ts members n rest → rest.length < ts.length
  | .last _ _ h => Nat.lt_add_right 2 (Nat.lt_of_succ_lt h.length_lt)
  | .more _ _ h hmore =>
    Nat.lt_add_right 2 (Nat.lt_trans hmore.length_lt (Nat.lt_of_succ_lt h.length_lt))

end

mutual

/-- What follows a tree is the end of the tokens. -/
theorem Tree.isSuffix {ts rest : List Token} {j : Json} {n : Nat} :
    Tree ts j n rest → rest <:+ ts
  | .scalar | .text => List.suffix_cons _ _
  | .emptyArray | .emptyObject => (List.suffix_cons _ _).trans (List.suffix_cons _ _)
  | .array h => h.isSuffix.trans (List.suffix_cons _ _)
  | .object h => h.isSuffix.trans (List.suffix_cons _ _)

/-- What follows items is the end of the tokens. -/
theorem Items.isSuffix {ts rest : List Token} {items : List Json} {n : Nat} :
    Items ts items n rest → rest <:+ ts
  | .last _ h => (List.suffix_cons _ _).trans h.isSuffix
  | .more _ h hmore => hmore.isSuffix.trans ((List.suffix_cons _ _).trans h.isSuffix)

/-- What follows members is the end of the tokens. -/
theorem Members.isSuffix {ts rest : List Token} {members : List (Option String × Json)} {n : Nat} :
    Members ts members n rest → rest <:+ ts
  | .last _ _ h =>
    ((List.suffix_cons _ _).trans h.isSuffix).trans
      ((List.suffix_cons _ _).trans (List.suffix_cons _ _))
  | .more _ _ h hmore =>
    (hmore.isSuffix.trans ((List.suffix_cons _ _).trans h.isSuffix)).trans
      ((List.suffix_cons _ _).trans (List.suffix_cons _ _))

end

/-- No scalar among the tokens holds an array or an object. -/
def ScalarsFlat (ts : List Token) : Prop :=
  ∀ j, .scalar j ∈ ts → j.nesting = 0

/-- The scalars at the end of some tokens are flat if all are. -/
theorem ScalarsFlat.suffix {ts us : List Token} (h : ScalarsFlat ts) (hus : us <:+ ts) :
    ScalarsFlat us :=
  fun j hj => h j (hus.subset hj)

/-- An object that can be read has a name for each member. -/
theorem readableNames_of_isReadable {members : List (Option String × Json)}
    (h : (objectOf members.reverse).isReadable) :
    ∃ found, readableNames members = some found ∧ objectOf members.reverse = .object found ∧
      membersReadable found := by
  rw [objectOf, List.reverse_reverse] at h ⊢
  cases hfound : readableNames members with
  | none =>
    rw [hfound] at h
    cases h
  | some found =>
    rw [hfound] at h
    exact ⟨found, rfl, rfl, h⟩

/-- Names that are all readable start with the first one. -/
theorem readableNames_cons {name : Option String} {j : Json}
    {members : List (Option String × Json)} {found : List (String × Json)}
    (h : readableNames ((name, j) :: members) = some found) :
    ∃ s rest, readableNames members = some rest ∧ found = (s, j) :: rest := by
  cases name with
  | none => cases h
  | some s =>
    obtain ⟨rest, hrest, rfl⟩ := Option.map_eq_some_iff.1 h
    exact ⟨s, rest, hrest, rfl⟩

mutual

/-- A tree that can be read nests as deep as its tokens do. -/
theorem Tree.nesting_eq {ts rest : List Token} {j : Json} {n : Nat} :
    Tree ts j n rest → ScalarsFlat ts → j.isReadable → j.nesting = n
  | .scalar, hflat, _ => hflat _ List.mem_cons_self
  | .text (s := s), _, _ => by cases s <;> rfl
  | .emptyArray, _, _ | .emptyObject, _, _ => rfl
  | .array h, hflat, hread => by
    rw [nesting, h.nesting_eq (hflat.suffix (List.suffix_cons _ _)) hread, Nat.add_comm]
  | .object h, hflat, hread => by
    obtain ⟨found, hfound, hobject, hread⟩ := readableNames_of_isReadable hread
    rw [hobject, nesting, h.nesting_eq (hflat.suffix (List.suffix_cons _ _)) hfound hread,
      Nat.add_comm]

/-- Items that can be read nest as deep as their tokens do. -/
theorem Items.nesting_eq {ts rest : List Token} {items : List Json} {n : Nat} :
    Items ts items n rest → ScalarsFlat ts → allReadable items → nestingOfAll items = n
  | .last j h, hflat, hread => by
    have hj := allReadable_iff.1 hread j List.mem_cons_self
    rw [nestingOfAll, nestingOfAll, Nat.max_zero, h.nesting_eq hflat hj]
  | .more j h hmore, hflat, hread => by
    obtain ⟨hj, hitems⟩ := List.forall_mem_cons.1 (allReadable_iff.1 hread)
    have hrest := hflat.suffix ((List.suffix_cons _ _).trans h.isSuffix)
    rw [nestingOfAll, h.nesting_eq hflat hj, hmore.nesting_eq hrest (allReadable_iff.2 hitems)]

/-- Members that can be read nest as deep as their tokens do. -/
theorem Members.nesting_eq {ts rest : List Token} {members : List (Option String × Json)}
    {n : Nat} {found : List (String × Json)} :
    Members ts members n rest → ScalarsFlat ts → readableNames members = some found →
      membersReadable found → nestingOfMembers found = n
  | .last name j h, hflat, hfound, hread => by
    obtain ⟨s, rest, hrest, rfl⟩ := readableNames_cons hfound
    cases hrest
    have hts := hflat.suffix ((List.suffix_cons _ _).trans (List.suffix_cons _ _))
    have hj := membersReadable_iff.1 hread (s, j) List.mem_cons_self
    rw [nestingOfMembers, nestingOfMembers, Nat.max_zero, h.nesting_eq hts hj]
  | .more name j h hmore, hflat, hfound, hread => by
    obtain ⟨s, rest, hrest, rfl⟩ := readableNames_cons hfound
    have hts := hflat.suffix ((List.suffix_cons _ _).trans (List.suffix_cons _ _))
    have hus := hts.suffix ((List.suffix_cons _ _).trans h.isSuffix)
    obtain ⟨hj, hmembers⟩ := List.forall_mem_cons.1 (membersReadable_iff.1 hread)
    rw [nestingOfMembers, h.nesting_eq hts hj,
      hmore.nesting_eq hus hrest (membersReadable_iff.2 hmembers)]

end

end Grammar

/-! ## Trees are made of their tokens -/

/-- So many arrays and objects may be open at once. -/
def Fits (limit : Option Nat) (n : Nat) : Prop :=
  ∀ most ∈ limit, n ≤ most

/-- If so many may be open at once, so may fewer. -/
theorem Fits.mono {limit : Option Nat} {m n : Nat} (h : Fits limit n) (hm : m ≤ n) : Fits limit m :=
  fun most hmost => Nat.le_trans hm (h most hmost)

/-- Without a limit, any number may be open. -/
theorem fits_none (n : Nat) : Fits none n :=
  nofun

/-- The deeper of two parts may be open if both may. -/
theorem fits_max {limit : Option Nat} {k m n : Nat} (hm : Fits limit (k + m))
    (hn : Fits limit (k + n)) : Fits limit (k + max m n) := by
  intro most hmost
  have hm := hm most hmost
  have hn := hn most hmost
  omega

section
variable {limit : Option Nat} {stack : List Frame} {t : Token} {ts rest : List Token} {n : Nat}
  {j k : Json} {items : List Json} {members : List (Option String × Json)}

/-- One more may be opened just if it fits the limit together with those that are open. -/
theorem mayOpen_iff : mayOpen limit stack = true ↔ Fits limit (stack.length + 1) := by
  cases limit with
  | none => exact ⟨fun _ => nofun, fun _ => rfl⟩
  | some most =>
    rw [mayOpen, decide_eq_true_iff]
    exact ⟨fun h _ hmost => Option.some.inj hmost ▸ h, fun h => h most rfl⟩

/-- The first item of an array is read as one behind a comma is. -/
theorem push_itemDue (h : t ≠ .closeArray) :
    (Builder.itemDue stack).push limit t =
      (Builder.valueDue (.items [] :: stack)).push limit t := by
  cases t <;> first | rfl | exact absurd rfl h

/-- A name may come where one is due, whatever has been read. -/
theorem push_nameDue (read : List (Option String × Json)) (name : Option String) :
    (Builder.nameDue stack read).push limit (.text name) = .ok (.colonDue stack read name) := by
  cases read <;> rfl

/-- No tree starts with a closing bracket. -/
theorem Grammar.Items.pushAll_itemDue (h : Grammar.Items ts items n rest) :
    (Builder.itemDue stack).pushAll limit ts =
      (Builder.valueDue (.items [] :: stack)).pushAll limit ts := by
  have hfirst : ∀ {ts j n rest}, Grammar.Tree ts j n rest →
      ∃ t us, ts = t :: us ∧ t ≠ .closeArray := by
    intro ts j n rest htree
    cases htree <;> exact ⟨_, _, rfl, nofun⟩
  obtain ⟨t, us, rfl, ht⟩ : ∃ t us, ts = t :: us ∧ t ≠ .closeArray := by
    cases h with
    | last _ htree | more _ htree _ => exact hfirst htree
  rw [Builder.pushAll_cons, Builder.pushAll_cons, push_itemDue ht]

/-- An array is opened where it fits. -/
theorem pushAll_openArray (hfits : Fits limit (stack.length + 1)) :
    (Builder.valueDue stack).pushAll limit (.openArray :: ts) =
      (Builder.itemDue stack).pushAll limit ts := by
  rw [Builder.pushAll_cons, Builder.push, Builder.pushValue, if_pos (mayOpen_iff.2 hfits)]
  rfl

/-- An object is opened where it fits. -/
theorem pushAll_openObject (hfits : Fits limit (stack.length + 1)) :
    (Builder.valueDue stack).pushAll limit (.openObject :: ts) =
      (Builder.nameDue stack []).pushAll limit ts := by
  rw [Builder.pushAll_cons, Builder.push, Builder.pushValue, if_pos (mayOpen_iff.2 hfits)]
  rfl

/-- What follows an item of an array is a comma or the bracket that closes the array. -/
theorem pushAll_item_cases {read : List Json}
    (h : (Builder.after (.items read :: stack) j).pushAll limit ts = .ok (.after [] k)) :
    (∃ us, ts = .comma :: us ∧
      (Builder.valueDue (.items (j :: read) :: stack)).pushAll limit us = .ok (.after [] k)) ∨
    (∃ us, ts = .closeArray :: us ∧
      (Builder.after stack (.array (j :: read).reverse)).pushAll limit us = .ok (.after [] k)) := by
  cases ts with
  | nil => cases h
  | cons t us =>
    rw [Builder.pushAll_cons] at h
    cases t with
    | comma => exact .inl ⟨us, rfl, h⟩
    | closeArray => exact .inr ⟨us, rfl, h⟩
    | _ => cases h

/-- Behind a member comes either a comma and the next one or the end of the object. -/
theorem pushAll_member_cases {read : List (Option String × Json)} {name : Option String}
    (h : (Builder.after (.members read name :: stack) j).pushAll limit ts = .ok (.after [] k)) :
    (∃ us, ts = .comma :: us ∧
      (Builder.nameDue stack ((name, j) :: read)).pushAll limit us = .ok (.after [] k)) ∨
    (∃ us, ts = .closeObject :: us ∧
      (Builder.after stack (objectOf ((name, j) :: read))).pushAll limit us =
        .ok (.after [] k)) := by
  cases ts with
  | nil => cases h
  | cons t us =>
    rw [Builder.pushAll_cons] at h
    cases t with
    | comma => exact .inl ⟨us, rfl, h⟩
    | closeObject => exact .inr ⟨us, rfl, h⟩
    | _ => cases h

mutual

/-- The tokens of a tree make the tree wherever a value is due, if they do not open too much. -/
theorem Grammar.Tree.pushAll {ts rest : List Token} {j : Json} {n : Nat} (stack : List Frame) :
    Grammar.Tree ts j n rest → Fits limit (stack.length + n) →
      (Builder.valueDue stack).pushAll limit ts = (Builder.after stack j).pushAll limit rest
  | .scalar, _ | .text, _ => rfl
  | .emptyArray, hfits => pushAll_openArray hfits
  | .array h, hfits => by
    rw [pushAll_openArray (hfits.mono (by omega)), h.pushAll_itemDue,
      h.pushAll stack [] (hfits.mono (by omega)), List.reverse_nil, List.nil_append]
  | .emptyObject, hfits => pushAll_openObject hfits
  | .object h, hfits => by
    rw [pushAll_openObject (hfits.mono (by omega)),
      h.pushAll stack [] (hfits.mono (by omega)), List.append_nil]

/-- Items are added to an open array, which their closing bracket then finishes. -/
theorem Grammar.Items.pushAll {ts rest : List Token} {items : List Json} {n : Nat}
    (stack : List Frame) (read : List Json) :
    Grammar.Items ts items n rest → Fits limit (stack.length + 1 + n) →
      (Builder.valueDue (.items read :: stack)).pushAll limit ts =
        (Builder.after stack (.array (read.reverse ++ items))).pushAll limit rest
  | .last j h, hfits => by
    rw [h.pushAll (.items read :: stack) hfits, ← List.reverse_cons (a := j)]
    rfl
  | .more j h hmore, hfits => by
    rw [h.pushAll (.items read :: stack) (hfits.mono (by rw [List.length_cons]; omega))]
    have hrest := hmore.pushAll stack (j :: read) (hfits.mono (by omega))
    rw [List.reverse_cons, List.append_assoc] at hrest
    exact hrest

/-- Members are added to an open object, which their closing brace then finishes. -/
theorem Grammar.Members.pushAll {ts rest : List Token} {members : List (Option String × Json)}
    {n : Nat} (stack : List Frame) (read : List (Option String × Json)) :
    Grammar.Members ts members n rest → Fits limit (stack.length + 1 + n) →
      (Builder.nameDue stack read).pushAll limit ts =
        (Builder.after stack (objectOf (members.reverse ++ read))).pushAll limit rest
  | .last name j h, hfits => by
    rw [Builder.pushAll_cons, push_nameDue]
    exact h.pushAll (.members read name :: stack) hfits
  | .more name j h hmore, hfits => by
    have hfirst := h.pushAll (.members read name :: stack)
      (hfits.mono (by rw [List.length_cons]; omega))
    have hrest := hmore.pushAll stack ((name, j) :: read) (hfits.mono (by omega))
    rw [Builder.pushAll_cons, push_nameDue, List.reverse_cons, List.append_assoc]
    exact hfirst.trans hrest

end

/-! ## Only the tokens of trees make trees -/

/-- Where a name is due, an object is closed or a member follows. -/
theorem pushAll_name_cases {read : List (Option String × Json)}
    (h : (Builder.nameDue stack read).pushAll limit ts = .ok (.after [] k)) :
    (∃ us, ts = .closeObject :: us ∧ read = [] ∧
      (Builder.after stack (.object [])).pushAll limit us = .ok (.after [] k)) ∨
    (∃ name us, ts = .text name :: .colon :: us ∧
      (Builder.valueDue (.members read name :: stack)).pushAll limit us = .ok (.after [] k)) := by
  cases ts with
  | nil => cases h
  | cons t us =>
    rw [Builder.pushAll_cons] at h
    cases t with
    | closeObject =>
      cases read with
      | nil => exact .inl ⟨us, rfl, rfl, h⟩
      | cons => cases h
    | text name =>
      rw [push_nameDue] at h
      cases us with
      | nil => cases h
      | cons t us =>
        cases t with
        | colon => exact .inr ⟨name, us, rfl, h⟩
        | _ => cases h
    | _ => cases read <;> cases h

/-- Behind an opening bracket, an array is closed or an item follows. -/
theorem pushAll_itemDue_cases
    (h : (Builder.itemDue stack).pushAll limit ts = .ok (.after [] k)) :
    (∃ us, ts = .closeArray :: us ∧
      (Builder.after stack (.array [])).pushAll limit us = .ok (.after [] k)) ∨
    (Builder.valueDue (.items [] :: stack)).pushAll limit ts = .ok (.after [] k) := by
  cases ts with
  | nil => cases h
  | cons t us =>
    rw [Builder.pushAll_cons] at h ⊢
    by_cases ht : t = .closeArray
    · subst ht
      exact .inl ⟨us, rfl, h⟩
    · rw [push_itemDue ht] at h
      exact .inr h

/-- Only as many arrays and objects are opened as may be. -/
theorem fits_of_pushValue {next : Builder} (ht : t = .openArray ∨ t = .openObject)
    (h : Builder.pushValue limit stack t = .ok next) : Fits limit (stack.length + 1) := by
  rcases ht with rfl | rfl
  all_goals
    rw [Builder.pushValue] at h
    split at h
    · next hopen => exact mayOpen_iff.1 hopen
    · cases h

mutual

/-- Where a value is due, a tree comes first. -/
theorem exists_tree_of_pushAll {ts : List Token} {stack : List Frame}
    (h : (Builder.valueDue stack).pushAll limit ts = .ok (.after [] k))
    (hfits : Fits limit stack.length) :
    ∃ j n rest, Grammar.Tree ts j n rest ∧ Fits limit (stack.length + n) ∧
      (Builder.after stack j).pushAll limit rest = .ok (.after [] k) := by
  cases ts with
  | nil => cases h
  | cons t ts =>
    rw [Builder.pushAll_cons] at h
    obtain ⟨next, hpush, hrest⟩ := bind_eq_ok.1 h
    cases t with
    | scalar j =>
      cases hpush
      exact ⟨j, 0, ts, .scalar, hfits, hrest⟩
    | text s =>
      cases hpush
      exact ⟨textTree s, 0, ts, .text, hfits, hrest⟩
    | openArray =>
      have hopen := fits_of_pushValue (.inl rfl) hpush
      rw [← Builder.pushAll_cons, pushAll_openArray hopen] at h
      rcases pushAll_itemDue_cases h with ⟨us, rfl, hus⟩ | hitems
      · exact ⟨.array [], 1, us, .emptyArray, hopen, hus⟩
      · obtain ⟨items, n, rest, hitems, hn, hrest⟩ := exists_items_of_pushAll hitems hopen
        exact ⟨.array items, n + 1, rest, .array hitems, hn.mono (by omega), hrest⟩
    | openObject =>
      have hopen := fits_of_pushValue (.inr rfl) hpush
      rw [← Builder.pushAll_cons, pushAll_openObject hopen] at h
      by_cases hempty : ∃ us, ts = .closeObject :: us
      · obtain ⟨us, rfl⟩ := hempty
        exact ⟨.object [], 1, us, .emptyObject, hopen, h⟩
      · obtain ⟨members, n, rest, hmembers, hn, hrest⟩ := exists_members_of_pushAll h hopen
          fun us hus _ => hempty ⟨us, hus⟩
        rw [List.append_nil] at hrest
        exact ⟨objectOf members.reverse, n + 1, rest, .object hmembers, hn.mono (by omega), hrest⟩
    | _ => cases hpush
termination_by (ts.length, 0)

/-- Behind a bracket or a comma, items come up to the bracket that closes the array. -/
theorem exists_items_of_pushAll {ts : List Token} {stack : List Frame} {read : List Json}
    (h : (Builder.valueDue (.items read :: stack)).pushAll limit ts = .ok (.after [] k))
    (hfits : Fits limit (stack.length + 1)) :
    ∃ items n rest, Grammar.Items ts items n rest ∧ Fits limit (stack.length + 1 + n) ∧
      (Builder.after stack (.array (read.reverse ++ items))).pushAll limit rest =
        .ok (.after [] k) := by
  obtain ⟨j, m, us, htree, hm, hafter⟩ := exists_tree_of_pushAll h hfits
  rcases pushAll_item_cases hafter with ⟨us, rfl, hus⟩ | ⟨us, rfl, hus⟩
  · have hlt : us.length < ts.length := Nat.lt_of_succ_lt htree.length_lt
    obtain ⟨items, n, rest, hitems, hn, hrest⟩ := exists_items_of_pushAll hus hfits
    rw [List.reverse_cons, List.append_assoc] at hrest
    exact ⟨j :: items, max m n, rest, .more j htree hitems, fits_max hm hn, hrest⟩
  · rw [List.reverse_cons] at hus
    exact ⟨[j], m, us, .last j htree, hm, hus⟩
termination_by (ts.length, 1)

/-- Behind a brace or a comma, members come up to the brace that closes the object. -/
theorem exists_members_of_pushAll {ts : List Token} {stack : List Frame}
    {read : List (Option String × Json)}
    (h : (Builder.nameDue stack read).pushAll limit ts = .ok (.after [] k))
    (hfits : Fits limit (stack.length + 1)) (hopen : ∀ us, ts = .closeObject :: us → read ≠ []) :
    ∃ members n rest, Grammar.Members ts members n rest ∧ Fits limit (stack.length + 1 + n) ∧
      (Builder.after stack (objectOf (members.reverse ++ read))).pushAll limit rest =
        .ok (.after [] k) := by
  rcases pushAll_name_cases h with ⟨us, hts, hread, -⟩ | ⟨name, us, rfl, hus⟩
  · exact absurd hread (hopen us hts)
  obtain ⟨j, m, vs, htree, hm, hafter⟩ := exists_tree_of_pushAll hus hfits
  rcases pushAll_member_cases hafter with ⟨vs, rfl, hvs⟩ | ⟨vs, rfl, hvs⟩
  · have hlt : vs.length < us.length + 1 + 1 :=
      Nat.lt_add_right 2 (Nat.lt_of_succ_lt htree.length_lt)
    obtain ⟨members, n, rest, hmembers, hn, hrest⟩ := exists_members_of_pushAll hvs hfits
      fun _ _ => List.cons_ne_nil _ _
    refine ⟨(name, j) :: members, max m n, rest, .more name j htree hmembers, fits_max hm hn, ?_⟩
    rw [List.reverse_cons, List.append_assoc]
    exact hrest
  · exact ⟨[(name, j)], m, vs, .last name j htree, hm, hvs⟩
termination_by (ts.length, 1)

end

/-- Tokens make a tree just if they are those of the tree and do not open too much. -/
theorem pushAll_eq_ok_iff :
    (Builder.valueDue []).pushAll limit ts = .ok (.after [] j) ↔
      ∃ n, Grammar.Tree ts j n [] ∧ Fits limit n := by
  constructor
  · intro h
    obtain ⟨j, n, rest, htree, hn, hrest⟩ :=
      exists_tree_of_pushAll h fun most _ => Nat.zero_le most
    obtain ⟨rfl, hj⟩ := pushAll_finished_iff.1 hrest
    cases hj
    exact ⟨n, htree, hn.mono (by omega)⟩
  · rintro ⟨n, htree, hn⟩
    exact htree.pushAll [] (hn.mono (by simp))

end

end LedgerFeed.Json
