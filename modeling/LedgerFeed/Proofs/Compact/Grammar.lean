import LedgerFeed.Proofs.Cbor.Grammar
import LedgerFeed.Proofs.Value.Induction

/-!
# The grammar of compact payloads

`Spells` says which byte strings spell a value, and `Payload` which are a payload of it: the codes
and numbers of elements stand in the table `form`, the elements of each kind in `Body`, and heads
may have any width. A body is over a language for the values inside; `body_upTo_iff` says what
becomes of a bound on their depth.
-/

namespace LedgerFeed.Compact

/-! ## The grammar -/

section
variable {α β : Type}

/-- Items one behind the other. -/
inductive InTurn (L : α → Bytes → Prop) : List α → Bytes → Prop
  | nil : InTurn L [] []
  | cons {a : α} {as : List α} {p q : Bytes} : L a p → InTurn L as q → InTurn L (a :: as) (p ++ q)

/-- An array of items. -/
inductive ListOf (L : α → Bytes → Prop) : List α → Bytes → Prop
  | mk {h p : Bytes} {as : List α} : Cbor.Head 4 as.length h → InTurn L as p → ListOf L as (h ++ p)

/-- An array of two items. -/
inductive PairOf (L : α → Bytes → Prop) (M : β → Bytes → Prop) : α × β → Bytes → Prop
  | mk {h p q : Bytes} {a : α} {b : β} : Cbor.Head 4 2 h → L a p → M b q →
      PairOf L M (a, b) (h ++ p ++ q)

/-- Null, or an item. -/
inductive OrNull (L : α → Bytes → Prop) : Option α → Bytes → Prop
  | null : OrNull L none [0xf6]
  | item {a : α} {p : Bytes} : L a p → OrNull L (some a) p

end

/-- The integers of a type. Those of 128 bits are byte strings, highest byte first. -/
inductive IntegerOf : IntegerType → Int → Bytes → Prop
  | int {octets p : Bytes} : octets.length = 16 → Cbor.Octets octets p →
      IntegerOf .int (Bytes.toInt octets) p
  | int64 {n : Int} {p : Bytes} : Cbor.Integer n p → IntegerOf .int64 n p
  | uint8 {n : Nat} {p : Bytes} : Cbor.Head 0 n p → IntegerOf .uint8 n p
  | uint64 {n : Nat} {p : Bytes} : Cbor.Head 0 n p → IntegerOf .uint64 n p
  | uint {octets p : Bytes} : octets.length = 16 → Cbor.Octets octets p →
      IntegerOf .uint (Bytes.toNat octets) p

/-- The numbers of units of a fixed-point type. -/
inductive UnitsOf : FixedType → Int → Bytes → Prop
  | fix64 {n : Int} {p : Bytes} : Cbor.Integer n p → UnitsOf .fix64 n p
  | ufix64 {n : Nat} {p : Bytes} : Cbor.Head 0 n p → UnitsOf .ufix64 n p

/-- The code of a kind, and how many elements the array of a value of the kind has. -/
def form : Kind → Nat × Nat
  | .void => (0, 1)
  | .optional => (1, 2)
  | .bool => (2, 2)
  | .text => (3, 2)
  | .address => (4, 2)
  | .integer .int => (5, 2)
  | .integer .int64 => (6, 2)
  | .integer .uint8 => (7, 2)
  | .integer .uint64 => (8, 2)
  | .integer .uint => (9, 2)
  | .fixed .fix64 => (10, 2)
  | .fixed .ufix64 => (11, 2)
  | .array => (12, 2)
  | .dictionary => (13, 2)
  | .composite .struct => (14, 3)
  | .composite .resource => (15, 3)
  | .composite .event => (16, 3)
  | .path => (17, 3)
  | .type => (18, 3)

/-- The array that a value of a kind is, up to the code, which is its first element. -/
inductive Opens (k : Kind) : Bytes → Prop
  | mk {a c : Bytes} : Cbor.Head 4 (form k).2 a → Cbor.Head 0 (form k).1 c → Opens k (a ++ c)

/-- What stands behind the code of a kind, by a language for the values inside. -/
inductive Body (L : Value → Bytes → Prop) : Kind → Value → Bytes → Prop
  | void : Body L .void .void []
  | absent {p : Bytes} : OrNull L none p → Body L .optional .absent p
  | present {v : Value} {p : Bytes} : OrNull L (some v) p → Body L .optional (.present v) p
  | bool {b : Bool} {p : Bytes} : Cbor.Truth b p → Body L .bool (.bool b) p
  | text {s : String} {p : Bytes} : Cbor.Text s p → Body L .text (.text s) p
  | address {a : Address} {p : Bytes} : Cbor.Octets a.octets p → Body L .address (.address a) p
  | integer {t : IntegerType} {n : t.Num} {p : Bytes} : IntegerOf t n.val p →
      Body L (.integer t) (.integer t n) p
  | fixed {t : FixedType} {n : t.Num} {p : Bytes} : UnitsOf t n.val p →
      Body L (.fixed t) (.fixed t n) p
  | array {items : List Value} {p : Bytes} : ListOf L items p → Body L .array (.array items) p
  | dictionary {entries : List (Value × Value)} {p : Bytes} : ListOf (PairOf L L) entries p →
      Body L .dictionary (.dictionary entries) p
  | composite {k : CompositeKind} {typeId : String} {fields : List (String × Value)}
      {p q : Bytes} : Cbor.Text typeId p → ListOf (PairOf Cbor.Text L) fields q →
      Body L (.composite k) (.composite k typeId fields) (p ++ q)
  | path {domain identifier : String} {p q : Bytes} : Cbor.Text domain p →
      Cbor.Text identifier q → Body L .path (.path domain identifier) (p ++ q)
  | type {kind : String} {typeId : Option String} {p q : Bytes} : Cbor.Text kind p →
      OrNull Cbor.Text typeId q → Body L .type (.type ⟨kind, typeId⟩) (p ++ q)

/-- The byte strings that spell a value. -/
inductive Spells : Value → Bytes → Prop
  | mk {k : Kind} {h p : Bytes} {v : Value} : Opens k h → Body Spells k v p → Spells v (h ++ p)

/-- The payloads of a value: tag 130, the array of the version 0 and the value, and nothing behind
them. The value has 64 levels at most. -/
inductive Payload : Value → Bytes → Prop
  | mk {t a n p : Bytes} {v : Value} : Cbor.Head 6 130 t → Cbor.Head 4 2 a → Cbor.Head 0 0 n →
      Spells v p → v.depth ≤ 64 → Payload v (t ++ a ++ n ++ p)

/-! ## Depth -/

section
variable {α β : Type} {L L' : α → Bytes → Prop} {M M' : β → Bytes → Prop}

/-- Items one behind the other have what every spelled item has. -/
theorem InTurn.forall {P : α → Prop} (h : ∀ a p, L a p → P a) {as : List α} {p : Bytes}
    (hp : InTurn L as p) : ∀ a ∈ as, P a := by
  induction hp with
  | nil => exact List.forall_mem_nil P
  | cons ha _ ih => exact List.forall_mem_cons.2 ⟨h _ _ ha, ih⟩

/-- Items one behind the other are so in a language that has their spellings. -/
theorem InTurn.imp {as : List α} {p : Bytes} (hp : InTurn L as p)
    (h : ∀ a ∈ as, ∀ p, L a p → L' a p) : InTurn L' as p := by
  induction hp with
  | nil => exact .nil
  | cons ha _ ih =>
    obtain ⟨h, hrest⟩ := List.forall_mem_cons.1 h
    exact .cons (h _ ha) (ih hrest)

/-- The items of an array have what every spelled item has. -/
theorem ListOf.forall {P : α → Prop} (h : ∀ a p, L a p → P a) {as : List α} {p : Bytes}
    (hp : ListOf L as p) : ∀ a ∈ as, P a := by
  obtain ⟨-, hp⟩ := hp
  exact hp.forall h

/-- An array of items is one in a language that has the spellings of the items. -/
theorem ListOf.imp {as : List α} {p : Bytes} (hp : ListOf L as p)
    (h : ∀ a ∈ as, ∀ p, L a p → L' a p) : ListOf L' as p := by
  obtain ⟨hh, hp⟩ := hp
  exact ⟨hh, hp.imp h⟩

/-- The parts of a pair have what every spelled part has. -/
theorem PairOf.and {P : α → Prop} {Q : β → Prop} {e : α × β} {p : Bytes} (he : PairOf L M e p)
    (h : ∀ a p, L a p → P a) (h' : ∀ b p, M b p → Q b) : P e.1 ∧ Q e.2 := by
  obtain ⟨-, hp, hq⟩ := he
  exact ⟨h _ _ hp, h' _ _ hq⟩

/-- A pair is one in languages that have the spellings of its parts. -/
theorem PairOf.imp {e : α × β} {p : Bytes} (hp : PairOf L M e p) (h : ∀ p, L e.1 p → L' e.1 p)
    (h' : ∀ p, M e.2 p → M' e.2 p) : PairOf L' M' e p := by
  obtain ⟨hh, hp, hq⟩ := hp
  exact ⟨hh, h _ hp, h' _ hq⟩

/-- Null or an item is so in a language that has the spelling of the item. -/
theorem OrNull.imp {a : Option α} {p : Bytes} (hp : OrNull L a p)
    (h : ∀ x ∈ a, ∀ p, L x p → L' x p) : OrNull L' a p := by
  cases hp with
  | null => exact .null
  | item hp => exact .item (h _ rfl _ hp)

end

/-- The values of a language that have some number of levels at most. -/
def UpTo (levels : Nat) (L : Value → Bytes → Prop) (v : Value) (p : Bytes) : Prop :=
  L v p ∧ v.depth ≤ levels

/-- A body of one language is one of another that has the values of less depth. -/
theorem Body.imp {L L' : Value → Bytes → Prop} {k : Kind} {v : Value} {p : Bytes}
    (hp : Body L k v p) (h : ∀ w p, w.depth < v.depth → L w p → L' w p) : Body L' k v p := by
  cases hp with
  | void => exact .void
  | absent hp => exact .absent (hp.imp nofun)
  | @present w _ hp =>
    refine .present (hp.imp ?_)
    rintro _ ⟨⟩ p
    exact h w p (by simp only [Value.depth]; omega)
  | bool hp => exact .bool hp
  | text hp => exact .text hp
  | address hp => exact .address hp
  | integer hp => exact .integer hp
  | fixed hp => exact .fixed hp
  | @array items _ hp =>
    have hdepth := Value.depthOfItems_le.1 (Nat.le_refl (Value.depthOfItems items))
    simp only [Value.depth] at h
    refine .array (hp.imp fun w hw p => h w p ?_)
    have := hdepth w hw
    omega
  | @dictionary entries _ hp =>
    have hdepth := Value.depthOfEntries_le.1 (Nat.le_refl (Value.depthOfEntries entries))
    simp only [Value.depth] at h
    refine .dictionary (hp.imp fun e he p hp => ?_)
    obtain ⟨hkey, hvalue⟩ := hdepth e he
    exact hp.imp (fun p => h e.1 p (by omega)) (fun p => h e.2 p (by omega))
  | @composite _ _ fields _ _ hp hq =>
    have hdepth := Value.depthOfFields_le.1 (Nat.le_refl (Value.depthOfFields fields))
    simp only [Value.depth] at h
    refine .composite hp (hq.imp fun f hf p hp => ?_)
    have := hdepth f hf
    exact hp.imp (fun _ => id) (fun p => h f.2 p (by omega))
  | path hp hq => exact .path hp hq
  | type hp hq => exact .type hp hq

/-- A value has one level more than the values inside it. -/
theorem Body.depth_le {levels : Nat} {L : Value → Bytes → Prop} {k : Kind} {v : Value} {p : Bytes}
    (hp : Body (UpTo levels L) k v p) : v.depth ≤ levels + 1 := by
  cases hp with
  | void | absent | bool | text | address | integer | fixed | path | type => simp [Value.depth]
  | present hp =>
    cases hp with
    | item hp =>
      have := hp.2
      simp only [Value.depth]
      omega
  | array hp =>
    have hdepth := Value.depthOfItems_le.2 (hp.forall fun _ _ h => h.2)
    simp only [Value.depth]
    omega
  | dictionary hp =>
    have hdepth := Value.depthOfEntries_le.2
      (hp.forall fun _ _ h => h.and (fun _ _ h => h.2) (fun _ _ h => h.2))
    simp only [Value.depth]
    omega
  | composite _ hp =>
    have hdepth := Value.depthOfFields_le.2
      (hp.forall fun _ _ h => (h.and (fun _ _ _ => trivial) (fun _ _ h => h.2)).2)
    simp only [Value.depth]
    omega

/-- A body of values of some levels is a body whose value has one level more at most. -/
theorem body_upTo_iff {levels : Nat} {L : Value → Bytes → Prop} {k : Kind} {v : Value} {p : Bytes} :
    Body (UpTo levels L) k v p ↔ Body L k v p ∧ v.depth ≤ levels + 1 := by
  constructor
  · intro h
    exact ⟨h.imp fun _ _ _ hw => hw.1, h.depth_le⟩
  · rintro ⟨h, hd⟩
    exact h.imp fun w p hlt hw => ⟨hw, by omega⟩

end LedgerFeed.Compact
