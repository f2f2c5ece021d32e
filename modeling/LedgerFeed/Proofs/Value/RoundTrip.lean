import LedgerFeed.Proofs.Json.Nesting
import LedgerFeed.Proofs.Json.Number
import LedgerFeed.Proofs.Value.Plain

/-!
# Values read back from their plain forms

The plain form of a value shows all it holds in its text, numbers of 128 bits too
(`plain_isWritable`), and its reader gives the value back if it may open as many levels as the value
has (`ofPlainWithin?_plain`). Each level opens a bracket, so the brackets of the text bound the
levels. `plain_text_roundTrip` puts the two together, for a reader of texts of any depth; what a
reader with a limit gives is said at the end (`parse_plain_within`).
-/

namespace LedgerFeed.Value

/-! ## Texts of plain forms -/

/-- No integer that a value holds has more than 128 bits. -/
theorem natAbs_integer_lt {t : IntegerType} (n : t.Num) : n.val.natAbs < 2 ^ 128 := by
  have hlo := n.lo_le
  have hhi := n.le_hi
  cases t <;> simp only [IntegerType.lo, IntegerType.hi] at hlo hhi <;> omega

/-- No number of units that a value holds has more than 128 bits. -/
theorem natAbs_fixed_lt {t : FixedType} (units : t.Num) : units.val.natAbs < 2 ^ 128 := by
  have hlo := units.lo_le
  have hhi := units.le_hi
  cases t <;> simp only [FixedType.lo, FixedType.hi] at hlo hhi <;> omega

/-- An integer of 128 bits is shown with all its digits. -/
theorem isWritable_int {n : Int} (h : n.natAbs < 2 ^ 128) : (Json.int n).IsWritable :=
  Json.narrow_isSome _ h

/-- A body is shown in full with its kind if it is alone. -/
theorem isWritable_tagged {k : Kind} {body : Json} (h : body.IsWritable) :
    (tagged k body).IsWritable :=
  ⟨trivial, h, trivial⟩

/-- A type is shown in full. -/
theorem isWritable_plainType (t : StaticType) : (plainType t).IsWritable := by
  obtain ⟨kind, _ | id⟩ := t
  · exact ⟨trivial, trivial⟩
  · exact ⟨trivial, trivial, trivial⟩

/-- The plain form of a value shows all it holds in its text. -/
theorem plain_isWritable (v : Value) : v.plain.IsWritable := by
  induction v with
  | void => exact ⟨trivial, trivial⟩
  | absent | bool | text | address => exact isWritable_tagged trivial
  | present content ih => exact isWritable_tagged ih
  | integer t n => exact isWritable_tagged (isWritable_int (natAbs_integer_lt n))
  | fixed t units => exact isWritable_tagged (isWritable_int (natAbs_fixed_lt units))
  | array items ih =>
    refine isWritable_tagged (Json.AllWritable_iff.2 ?_)
    rw [plainItems_eq, List.forall_mem_map]
    exact ih
  | dictionary entries ih =>
    refine isWritable_tagged (Json.AllWritable_iff.2 ?_)
    rw [plainEntries_eq, List.forall_mem_map]
    exact fun e he => ⟨(ih e he).1, (ih e he).2, trivial⟩
  | composite k typeId fields ih =>
    refine isWritable_tagged ⟨trivial, Json.AllWritable_iff.2 ?_, trivial⟩
    rw [plainFields_eq, List.forall_mem_map]
    exact fun f hf => ⟨trivial, ih f hf, trivial⟩
  | path => exact isWritable_tagged ⟨trivial, trivial, trivial⟩
  | type t => exact isWritable_tagged (isWritable_plainType t)

/-- The text of an object with a kind first and then a body, if there is one. -/
def taggedText (k : Kind) : Option Json → String
  | none => "\x7b\"type\":\"" ++ k.name ++ "\"\x7d"
  | some body => "\x7b\"type\":\"" ++ k.name ++ "\",\"value\":" ++ body.toText ++ "\x7d"

/-- No character of the name of a kind is escaped. -/
theorem renderText_name (k : Kind) : Json.renderText k.name = '"' :: k.name.toList ++ ['"'] := by
  rcases k with _ | _ | _ | _ | _ | t | t | _ | _ | t | _ | _ <;> (try cases t) <;> decide

/-- The text of a kind and a body names the kind first. -/
theorem tagged_toText (k : Kind) (body : Json) :
    (tagged k body).toText = taggedText k (some body) := by
  have htype : Json.renderText "type" = "\"type\"".toList := by decide
  have hvalue : Json.renderText "value" = "\"value\"".toList := by decide
  rw [← String.toList_inj]
  simp [tagged, taggedText, Json.toText, Json.render, Json.renderMembers, renderText_name, htype,
    hvalue]

/-! ## Brackets of plain forms -/

/-- The object around a body opens one more than the body. -/
theorem nesting_tagged (k : Kind) (body : Json) : (tagged k body).nesting = 1 + body.nesting := by
  simp [tagged, Json.nesting, Json.nestingOfMembers]

/-- Each level of a value opens a bracket at least. -/
theorem depth_le_nesting (v : Value) : v.depth ≤ v.plain.nesting := by
  induction v with
  | void => exact Nat.le_refl 1
  | absent | bool | text | address | integer | fixed | path | type =>
    simp only [plain, nesting_tagged, depth, Nat.le_add_right]
  | present content ih =>
    simp only [plain, nesting_tagged, depth]
    omega
  | array items ih =>
    have hall : depthOfItems items ≤ Json.nestingOfAll (plainItems items) := by
      rw [plainItems_eq]
      exact depthOfItems_le.2 fun v hv =>
        Nat.le_trans (ih v hv) (Json.nesting_le_of_mem (List.mem_map_of_mem hv))
    simp only [plain, nesting_tagged, Json.nesting, depth]
    omega
  | dictionary entries ih =>
    have hall : depthOfEntries entries ≤ Json.nestingOfAll (plainEntries entries) := by
      rw [plainEntries_eq]
      refine depthOfEntries_le.2 fun e he => ?_
      have hpair := Json.nesting_le_of_mem
        (List.mem_map_of_mem (f := fun e : Value × Value => .array [plain e.1, plain e.2]) he)
      obtain ⟨hk, hv⟩ := ih e he
      simp only [Json.nesting, Json.nestingOfAll] at hpair
      omega
    simp only [plain, nesting_tagged, Json.nesting, depth]
    omega
  | composite k typeId fields ih =>
    have hall : depthOfFields fields ≤ Json.nestingOfAll (plainFields fields) := by
      rw [plainFields_eq]
      refine depthOfFields_le.2 fun f hf => ?_
      have hpair := Json.nesting_le_of_mem
        (List.mem_map_of_mem (f := fun f : String × Value => .array [.text f.1, plain f.2]) hf)
      have hv := ih f hf
      simp only [Json.nesting, Json.nestingOfAll] at hpair
      omega
    simp only [plain, nesting_tagged, Json.nesting, Json.nestingOfMembers, depth]
    omega

/-- Each level of a value opens four brackets at most: those of its object, of the body of a
composite, of its list of fields and of one field. The last level opens three. -/
theorem nesting_lt (v : Value) : v.plain.nesting < 4 * v.depth := by
  induction v with
  -- a value without parts is an object, and in that of a path or a type there is one more
  | void | absent | bool | text | address | integer | fixed => exact (by decide : 1 < 4)
  | path => exact (by decide : 2 < 4)
  | type t => obtain ⟨kind, _ | id⟩ := t <;> exact (by decide : 2 < 4)
  | present content ih =>
    simp only [plain, nesting_tagged, depth]
    omega
  | array items ih =>
    have hall : Json.nestingOfAll (plainItems items) ≤ 4 * depthOfItems items := by
      rw [plainItems_eq, Json.nestingOfAll_le, List.forall_mem_map]
      intro v hv
      have hdepth := depthOfItems_le.1 (Nat.le_refl _) v hv
      have hnesting := ih v hv
      omega
    simp only [plain, nesting_tagged, Json.nesting, depth]
    omega
  | dictionary entries ih =>
    have hall : Json.nestingOfAll (plainEntries entries) ≤ 4 * depthOfEntries entries := by
      rw [plainEntries_eq, Json.nestingOfAll_le, List.forall_mem_map]
      intro e he
      have hdepth := depthOfEntries_le.1 (Nat.le_refl _) e he
      have hnesting := ih e he
      simp only [Json.nesting, Json.nestingOfAll]
      omega
    simp only [plain, nesting_tagged, Json.nesting, depth]
    omega
  | composite k typeId fields ih =>
    have hall : Json.nestingOfAll (plainFields fields) ≤ 4 * depthOfFields fields := by
      rw [plainFields_eq, Json.nestingOfAll_le, List.forall_mem_map]
      intro f hf
      have hdepth := depthOfFields_le.1 (Nat.le_refl _) f hf
      have hnesting := ih f hf
      simp only [Json.nesting, Json.nestingOfAll]
      omega
    simp only [plain, nesting_tagged, Json.nesting, Json.nestingOfMembers, depth]
    omega

/-! ## Values of plain forms -/

/-- The plain form of a value is an object, never null. -/
theorem isNull_plain (v : Value) : v.plain.isNull = false := by
  cases v <;> rfl

/-- The kind stands first in a plain form, so its body is not kept. -/
theorem untag?_tagged (k : Kind) (body : Json) :
    untag? false (tagged k body) = some ⟨k, some body, false⟩ := by
  simp [untag?, tagged, Json.record?, Json.Record.required, Json.Record.find?, namedKind?,
    Json.asName, List.lookup_cons, Kind.ofName?_name]

/-- A body behind its kind is read as a body of that kind. -/
theorem ofPlainWithin?_tagged (levels : Nat) (k : Kind) (body : Json) :
    ofPlainWithin? (levels + 1) false (tagged k body) =
      ofBody? false (ofPlainWithin? levels false) k body := by
  rw [ofPlainWithin?, untag?_tagged]

/-- A body in front of its kind is kept, if it is readable. -/
theorem untag?_body_first (kept : Bool) (k : Kind) (body : Json) :
    untag? kept (.object [("value", body), ("type", .text k.name)]) =
      if body.isReadable then some ⟨k, some body, true⟩ else none := by
  cases kept <;>
    simp [untag?, Json.record?, Json.Record.required, Json.Record.find?, namedKind?, Json.asName,
      List.lookup_cons, Kind.ofName?_name]

/-- A kept tree holds no integers of 128 bits, so nothing is read for such a kind from a body that
stands in front of it. -/
theorem ofPlain?_wide_body_first {t : IntegerType} (ht : t = .int ∨ t = .uint) (body : Json) :
    ofPlain? (.object [("value", body), ("type", .text (Kind.integer t).name)]) = none := by
  have hwide : ofPlainInteger? true t body = none := by
    unfold ofPlainInteger?
    exact if_pos (by simpa using ht)
  rw [ofPlain?, ofPlainWithin?, untag?_body_first]
  cases body.isReadable with
  | false => rfl
  | true => exact congrArg (Option.map (Value.integer t)) hwide

/-- An integer is read from its number if it is within the bounds. -/
theorem asInt_int {lo hi n : Int} (hlo : lo ≤ n) (hhi : n ≤ hi) :
    (Json.int n).asInt lo hi = some n := by
  by_cases hn : n < 0
  · have habs : 0 < n.natAbs ∧ lo ≤ -(n.natAbs : Int) := by omega
    simp only [Json.int, hn, decide_true, Json.asInt, habs, and_self, if_true, Option.some.injEq]
    omega
  · have habs : (n.natAbs : Int) ≤ hi := by omega
    simp only [Json.int, hn, decide_false, Json.asInt, habs, if_true, Option.some.injEq]
    omega

/-- An integer of any type is read back where no tree is kept. -/
theorem ofPlainInteger?_int (t : IntegerType) (n : t.Num) :
    ofPlainInteger? false t (.int n.val) = some n := by
  have hread : ((Json.int n.val).asInt t.lo t.hi).bind Bounded.ofInt? = some n := by
    rw [asInt_int n.lo_le n.le_hi, Option.bind_some, Bounded.ofInt?_val]
  unfold ofPlainInteger?
  rw [Bool.false_and, if_neg Bool.false_ne_true]
  split
  · next h =>
    -- no number is shown as `-0`
    simp only [Json.int, Json.number.injEq, Json.Number.integer.injEq, decide_eq_true_eq] at h
    omega
  · exact hread

/-- A pair is read back if both parts are. -/
theorem ofPlainPair?_pair {α β : Type} {first : Json → Option α} {second : Json → Option β}
    {j k : Json} {a : α} {b : β} (ha : first j = some a) (hb : second k = some b) :
    ofPlainPair? first second (.array [j, k]) = some (a, b) := by
  simp [ofPlainPair?, ha, hb]

/-- A type is read back, with its type ID or without. -/
theorem ofPlainType?_plainType (t : StaticType) : ofPlainType? (plainType t) = some t := by
  obtain ⟨kind, _ | id⟩ := t <;>
    simp [ofPlainType?, plainType, Json.record?, Json.Record.required, Json.Record.optionalOrAbsent,
      Json.Record.find?, Json.asText, List.lookup_cons]

/-- A path is read back. -/
theorem ofPlainPath?_path (domain identifier : String) :
    ofPlainPath? (.object [("domain", .text domain), ("identifier", .text identifier)]) =
      some (.path domain identifier) := by
  simp [ofPlainPath?, Json.record?, Json.Record.required, Json.Record.find?, Json.asText,
    List.lookup_cons]

/-- A value is read back from its plain form by a reader that may open as many levels as it has. -/
theorem ofPlainWithin?_plain {v : Value} {levels : Nat} (hd : v.depth ≤ levels) :
    ofPlainWithin? levels false v.plain = some v := by
  induction levels generalizing v with
  | zero => exact absurd hd (Nat.not_le.2 v.depth_pos)
  | succ levels ih =>
    cases v with
    | void => rfl
    | absent => rw [plain, ofPlainWithin?_tagged, ofBody?, Json.isNull, if_pos rfl]
    | present content =>
      simp only [depth] at hd
      have hc := ih (v := content) (by omega)
      rw [plain, ofPlainWithin?_tagged, ofBody?, isNull_plain, hc]
      rfl
    | bool b => rw [plain, ofPlainWithin?_tagged, ofBody?, Json.asBool, Option.map_some]
    | text s => rw [plain, ofPlainWithin?_tagged, ofBody?, Json.asText, Option.map_some]
    | address a =>
      rw [plain, ofPlainWithin?_tagged, ofBody?, Address.toJson, Address.ofJson?, Json.asText,
        Option.bind_some, Address.parse_toText]
      rfl
    | integer t n =>
      rw [plain, ofPlainWithin?_tagged, ofBody?, ofPlainInteger?_int, Option.map_some]
    | fixed t units =>
      rw [plain, ofPlainWithin?_tagged, ofBody?, asInt_int units.lo_le units.le_hi,
        Option.bind_some, Bounded.ofInt?_val, Option.map_some]
    | array items =>
      simp only [depth, Nat.add_comm 1, Nat.add_le_add_iff_right, depthOfItems_le] at hd
      have hitems := Json.asList_map fun v hv => ih (hd v hv)
      rw [plain, plainItems_eq, ofPlainWithin?_tagged, ofBody?, hitems, Option.map_some]
    | dictionary entries =>
      simp only [depth, Nat.add_comm 1, Nat.add_le_add_iff_right, depthOfEntries_le] at hd
      have hentries := Json.asList_map fun e he =>
        ofPlainPair?_pair (ih (hd e he).1) (ih (hd e he).2)
      rw [plain, plainEntries_eq, ofPlainWithin?_tagged, ofBody?, hentries, Option.map_some]
    | composite k typeId fields =>
      simp only [depth, Nat.add_comm 1, Nat.add_le_add_iff_right, depthOfFields_le] at hd
      have hname (s : String) : (Json.text s).asText = some s := rfl
      have hfields := Json.asList_map fun f hf => ofPlainPair?_pair (hname f.1) (ih (hd f hf))
      rw [plain, plainFields_eq, ofPlainWithin?_tagged, ofBody?]
      simp [Json.record?, Json.Record.required, Json.Record.find?, List.lookup_cons, hname, hfields]
    | path domain identifier =>
      rw [plain, ofPlainWithin?_tagged, ofBody?, ofPlainPath?_path]
    | type t =>
      rw [plain, ofPlainWithin?_tagged, ofBody?, ofPlainType?_plainType, Option.map_some]

/-- A value is read back from its plain form. -/
theorem ofPlain?_plain (v : Value) : ofPlain? v.plain = some v :=
  ofPlainWithin?_plain (Nat.le_succ_of_le v.depth_le_nesting)

/-- A value is read back from the text of its plain form. -/
theorem parse?_plain (v : Value) : (Json.parse? v.plain.toText).bind ofPlain? = some v := by
  rw [Json.parse?_toText v.plain_isWritable, Option.bind_some, ofPlain?_plain]

/-- The text of a value names its kind first and then shows its body, unless the value is void. The
value is read back from it, so no other value has the same text. The reader is one that lets any
number of arrays and objects be open at once; `parse_plain_within` is for readers with a limit. -/
theorem plain_text_roundTrip (v : Value) :
    (∃ body?, v.plain.toText = taggedText v.kind body? ∧ (body? = none ↔ v = .void)) ∧
      (Json.parse? v.plain.toText).bind ofPlain? = some v ∧
      ∀ w : Value, w.plain.toText = v.plain.toText ↔ w = v := by
  refine ⟨?_, parse?_plain v, fun w => ⟨fun h => ?_, fun h => by rw [h]⟩⟩
  · cases v with
    | void => exact ⟨none, by decide, by simp⟩
    | _ => exact ⟨some _, tagged_toText _ _, by simp⟩
  · have hw := parse?_plain w
    rw [h, parse?_plain] at hw
    exact (Option.some.inj hw).symm

/-! ## Readers with a limit -/

/-- A reader that lets so many arrays and objects be open at once reads a value back just if its
plain form opens no more, and else refuses the text. -/
theorem parse_plain_within (v : Value) (limit : Nat) :
    (Json.parse (some limit) v.plain.toText.toList).toOption.bind ofPlain? =
      if v.plain.nesting ≤ limit then some v else none := by
  have hrender : v.plain.toText.toList = v.plain.render := String.toList_ofList
  rw [hrender]
  split
  · next h =>
    rw [Json.parse_render v.plain_isWritable fun most hmost => Option.some.inj hmost ▸ h]
    exact ofPlain?_plain v
  · next h =>
    cases hparse : Json.parse (some limit) v.plain.render with
    | error fault => rfl
    | ok j =>
      have hfits := ((Json.parse_render_eq_ok_iff v.plain_isWritable).1 hparse).2
      exact absurd (hfits limit rfl) h

/-- A value of no more than 32 levels is read back where 127 arrays and objects may be open at once,
as in frames (`Frame.maxNesting`). -/
theorem parse_plain_of_depth_le (v : Value) (h : v.depth ≤ 32) :
    (Json.parse (some 127) v.plain.toText.toList).toOption.bind ofPlain? = some v := by
  have hnesting := v.nesting_lt
  rw [parse_plain_within, if_pos (by omega)]

end LedgerFeed.Value
