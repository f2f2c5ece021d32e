import Mathlib.Algebra.GroupWithZero.Nat
import LedgerFeed.Proofs.Json.Induction
import LedgerFeed.Proofs.Json.Tokens
import LedgerFeed.Proofs.Result
import LedgerFeed.Proofs.Text.Utf8

/-!
# The weight of a tree

The weight of a tree counts its parts and the bytes of its texts. No document is shorter than the
weight of its tree (`weight_le_of_parse`): the bytes that have been read always pay for what the
lexer and the builder hold.
-/

namespace LedgerFeed.Json

/-- The length of the UTF-8 form of characters. -/
def utf8Length (s : List Char) : Nat :=
  (s.map Char.utf8Size).sum

/-- The UTF-8 form of characters has the length of its parts. -/
theorem length_ofText_ofList (s : List Char) :
    (Bytes.ofText (String.ofList s)).length = utf8Length s := by
  induction s with
  | nil => rfl
  | cons c s ih =>
    rw [Bytes.ofText_ofList] at ih ⊢
    rw [List.flatMap_cons, List.length_append, ih, String.length_utf8EncodeChar, utf8Length,
      utf8Length, List.map_cons, List.sum_cons]

mutual

/-- The parts of a tree, and the bytes of its texts. -/
def weight : Json → Nat
  | .text s => 1 + (Bytes.ofText s).length
  | .array items => 1 + weightOfAll items
  | .object members => 1 + weightOfMembers members
  | _ => 1

/-- The weight of items. -/
def weightOfAll : List Json → Nat
  | [] => 0
  | j :: rest => weight j + weightOfAll rest

/-- The weight of members and their names. -/
def weightOfMembers : List (String × Json) → Nat
  | [] => 0
  | (name, j) :: rest => (Bytes.ofText name).length + weight j + weightOfMembers rest

end

/-! ## The lexer -/

/-- The bytes that a piece stands for at most. -/
def Piece.weight : Piece → Nat
  | .char c => c.utf8Size
  | .unit _ => 4

/-- The weight of pieces. -/
def weightOfPieces (pieces : List Piece) : Nat :=
  (pieces.map Piece.weight).sum

/-- The weight of what a token stands for. -/
def Token.weight : Token → Nat
  | .scalar j => j.weight
  | .text (some s) => 1 + (Bytes.ofText s).length
  | _ => 1

/-- The weight of tokens. -/
def weightOfTokens (tokens : List Token) : Nat :=
  (tokens.map Token.weight).sum

/-- The bytes of a token that have been read, as far as the token may need them. -/
def Lexer.weight : Lexer → Nat
  | .between => 0
  | .word _ value => value.weight
  | .text read => 1 + weightOfPieces read
  | .escape read => 2 + weightOfPieces read
  | .unit read missing _ => 6 - missing + weightOfPieces read
  | .number _ _ => 1

/-- The UTF-8 form of the first character comes before that of the others. -/
theorem utf8Length_cons (c : Char) (s : List Char) :
    utf8Length (c :: s) = c.utf8Size + utf8Length s := rfl

/-- Pieces weigh what the first one weighs and the others do. -/
theorem weightOfPieces_cons (p : Piece) (pieces : List Piece) :
    weightOfPieces (p :: pieces) = p.weight + weightOfPieces pieces := rfl

/-- A character in front of decoded pieces weighs what its UTF-8 form does. -/
theorem utf8Length_le_of_map {pieces : List Piece} {c : Char} {r : Option (List Char)}
    {s : List Char} (ih : ∀ {s}, r = some s → utf8Length s ≤ weightOfPieces pieces)
    (h : r.map (c :: ·) = some s) : utf8Length s ≤ c.utf8Size + weightOfPieces pieces := by
  obtain ⟨t, ht, rfl⟩ := Option.map_eq_some_iff.1 h
  have hle := ih ht
  rw [utf8Length_cons]
  omega

/-- Pieces weigh no less than what they stand for. -/
theorem utf8Length_le_of_joinPieces {pieces : List Piece} {s : List Char}
    (h : joinPieces pieces = some s) : utf8Length s ≤ weightOfPieces pieces := by
  induction pieces using joinPieces.induct generalizing s with
  | case1 =>
    cases h
    exact Nat.le_refl 0
  | case2 c rest ih =>
    rw [joinPieces] at h
    exact utf8Length_le_of_map ih h
  | case3 u hu v rest hv ih =>
    rw [joinPieces.eq_def] at h
    simp only [hu, hv, if_true] at h
    have hc := Char.utf8Size_le_four (Char.ofNat (0x10000 + (u - 0xd800) * 0x400 + (v - 0xdc00)))
    have hle := utf8Length_le_of_map ih h
    simp only [weightOfPieces_cons, Piece.weight]
    omega
  | case4 u hu v rest hv =>
    rw [joinPieces.eq_def] at h
    simp [hu, hv] at h
  | case5 u rest hu hrest =>
    rw [joinPieces.eq_def] at h
    simp [hu] at h
  | case6 u rest hu hlow =>
    rw [joinPieces.eq_def] at h
    simp [hu, hlow] at h
  | case7 u rest hu hlow ih =>
    rw [joinPieces.eq_def] at h
    simp only [hu, hlow] at h
    have hc := Char.utf8Size_le_four (Char.ofNat u)
    have hle := utf8Length_le_of_map ih h
    simp only [weightOfPieces_cons, Piece.weight]
    omega

/-- A text weighs no more than the pieces that it is made of. -/
theorem weight_textOf (pieces : List Piece) :
    (Token.text (textOf pieces)).weight ≤ 1 + weightOfPieces pieces := by
  cases h : joinPieces pieces with
  | none => simp [textOf, h, Token.weight]
  | some s =>
    have hle := utf8Length_le_of_joinPieces h
    simp only [textOf, h, Option.map_some, Token.weight, length_ofText_ofList]
    omega

/-- A number weighs one. -/
theorem weight_toJson (l : Literal) : l.toJson.weight = 1 := by
  unfold Literal.toJson
  split
  · dsimp only
    split <;> rfl
  · cases l.toReal <;> rfl

namespace Lexer

/-- Between tokens, a character pays for what it starts or is. -/
theorem start_weight {c : Char} {next : Lexer} {made : List Token}
    (h : start c = some (next, made)) : next.weight + weightOfTokens made ≤ 1 := by
  unfold start at h
  split at h
  · cases h
    decide
  dsimp only at h
  split at h
  case h_12 =>
    split at h
    · cases h
    · cases h
      exact Nat.le_refl 1
  all_goals
    cases h
    exact Nat.le_refl 1

/-- A character that is written with a letter has a UTF-8 form of one byte. -/
theorem escaped?_utf8Size {c d : Char} (h : escaped? c = some d) : d.utf8Size = 1 := by
  unfold escaped? at h
  split at h
  case h_9 => cases h
  all_goals
    cases h
    rfl

/-- Each character pays for what it adds to the token at hand and for the tokens it completes. -/
theorem step_weight {lexer next : Lexer} {c : Char} {made : List Token}
    (h : lexer.step c = some (next, made)) :
    next.weight + weightOfTokens made ≤ lexer.weight + c.utf8Size := by
  have hc := c.utf8Size_pos
  have hnone : weightOfTokens [] = 0 := rfl
  cases lexer with
  | between =>
    have hstart := start_weight h
    show _ ≤ 0 + _
    omega
  | word rest value =>
    cases rest with
    | nil => cases h
    | cons d rest =>
      simp only [step] at h
      split at h
      · split at h <;> cases h <;> simp only [weight, weightOfTokens, Token.weight, List.map_cons,
          List.map_nil, List.sum_cons, List.sum_nil] <;> omega
      · cases h
  | text read =>
    simp only [step] at h
    split at h
    · have htext := weight_textOf read.reverse
      have hread : weightOfPieces read.reverse = weightOfPieces read := by
        rw [weightOfPieces, List.map_reverse, List.sum_reverse_nat, weightOfPieces]
      cases h
      simp only [weight, weightOfTokens, List.map_cons, List.map_nil, List.sum_cons, List.sum_nil]
      omega
    split at h
    · cases h
      simp only [weight]
      omega
    split at h
    · cases h
    · cases h
      simp only [weight, weightOfPieces_cons, Piece.weight]
      omega
  | escape read =>
    simp only [step] at h
    split at h
    · cases h
      simp only [weight]
      omega
    · obtain ⟨d, hd, hnext⟩ := Option.map_eq_some_iff.1 h
      have hsize := escaped?_utf8Size hd
      cases hnext
      simp only [weight, weightOfPieces_cons, Piece.weight]
      omega
  | unit read missing value =>
    obtain ⟨d, hd, hnext⟩ := Option.map_eq_some_iff.1 h
    dsimp only at hnext
    split at hnext
    · cases hnext
      simp only [weight, weightOfPieces_cons, Piece.weight]
      omega
    · cases hnext
      simp only [weight]
      omega
  | number part read =>
    simp only [step] at h
    split at h
    · cases h
      simp only [weight]
      omega
    · split at h
      · obtain ⟨⟨lexer, tokens⟩, hstart, hnext⟩ := Option.map_eq_some_iff.1 h
        have hle := start_weight hstart
        cases hnext
        simp only [weight, weightOfTokens, List.map_cons, List.sum_cons, Token.weight,
          weight_toJson] at hle ⊢
        omega
      · cases h

/-- The tokens at the end of a text weigh no more than what has been read of them. -/
theorem finish_weight {lexer : Lexer} {made : List Token} (h : lexer.finish = some made) :
    weightOfTokens made ≤ lexer.weight := by
  unfold finish at h
  split at h
  · cases h
    exact Nat.le_refl 0
  · split at h
    · cases h
      simp [weightOfTokens, Token.weight, weight_toJson, weight]
    · cases h
  · cases h

/-- The tokens of a text weigh no more than the text. -/
theorem tokens?_weight {lexer : Lexer} {s : List Char} {tokens : List Token}
    (h : lexer.tokens? s = some tokens) : weightOfTokens tokens ≤ lexer.weight + utf8Length s := by
  induction s generalizing lexer tokens with
  | nil => exact Nat.le_add_right_of_le (finish_weight h)
  | cons c s ih =>
    obtain ⟨next, made, more, hstep, hmore, rfl⟩ := tokens?_cons_eq_some_iff.1 h
    have hle := step_weight hstep
    have hrest := ih hmore
    rw [weightOfTokens, List.map_append, List.sum_append_nat, utf8Length_cons]
    rw [weightOfTokens] at hle hrest
    omega

end Lexer

/-! ## The builder -/

/-- Items weigh together what each of them weighs. -/
theorem weightOfAll_eq (items : List Json) : weightOfAll items = (items.map weight).sum := by
  induction items with
  | nil => rfl
  | cons j rest ih => rw [weightOfAll, ih, List.map_cons, List.sum_cons]

/-- The weight of the name of a member. -/
def weightOfName : Option String → Nat
  | some name => (Bytes.ofText name).length
  | none => 0

/-- The weight of members that have been read. -/
def weightOfRead (read : List (Option String × Json)) : Nat :=
  (read.map fun m => weightOfName m.1 + m.2.weight).sum

/-- The weight of an open array or object. -/
def Frame.weight : Frame → Nat
  | .items read => 1 + weightOfAll read
  | .members read name => 1 + weightOfRead read + weightOfName name

/-- The weight of open arrays and objects. -/
def weightOfStack (stack : List Frame) : Nat :=
  (stack.map Frame.weight).sum

/-- The weight of all that a builder holds. -/
def Builder.weight : Builder → Nat
  | .valueDue stack => weightOfStack stack
  | .itemDue stack => 1 + weightOfStack stack
  | .nameDue stack read => 1 + weightOfRead read + weightOfStack stack
  | .colonDue stack read name => 1 + weightOfRead read + weightOfName name + weightOfStack stack
  | .after stack value => value.weight + weightOfStack stack

/-- An open array or object weighs beside those around it. -/
theorem weightOfStack_cons (frame : Frame) (stack : List Frame) :
    weightOfStack (frame :: stack) = frame.weight + weightOfStack stack := rfl

/-- A member that has been read weighs as much as its name and its value. -/
theorem weightOfRead_cons (name : Option String) (j : Json) (read : List (Option String × Json)) :
    weightOfRead ((name, j) :: read) = weightOfName name + j.weight + weightOfRead read := rfl

/-- The order of items does not change the weight of an array. -/
theorem weight_array_reverse (items : List Json) :
    (Json.array items.reverse).weight = 1 + weightOfAll items := by
  rw [weight, weightOfAll_eq, weightOfAll_eq, List.map_reverse, List.sum_reverse_nat]

/-- Members weigh the same, first or last first. -/
theorem weightOfMembers_of_readableNames {read : List (Option String × Json)}
    {members : List (String × Json)} (h : readableNames read = some members) :
    weightOfMembers members = weightOfRead read := by
  induction read generalizing members with
  | nil =>
    cases h
    rfl
  | cons m read ih =>
    obtain ⟨name, j⟩ := m
    cases name with
    | none => cases h
    | some name =>
      obtain ⟨rest, hrest, rfl⟩ := Option.map_eq_some_iff.1 h
      rw [weightOfMembers, ih hrest, weightOfRead_cons, weightOfName]

/-- An object weighs no more than what has been read of it. -/
theorem weight_objectOf (read : List (Option String × Json)) :
    (objectOf read).weight ≤ 1 + weightOfRead read := by
  unfold objectOf
  split
  · next members h =>
    have hsum : weightOfMembers members = weightOfRead read := by
      simp only [weightOfMembers_of_readableNames h, weightOfRead, List.map_reverse,
        List.sum_reverse_nat]
    exact Nat.le_of_eq (congrArg (1 + ·) hsum)
  · exact Nat.le_add_right 1 _

namespace Builder

variable {limit : Option Nat} {builder next : Builder}

/-- A value that is taken adds no more than the weight of its token. -/
theorem pushValue_weight {stack : List Frame} {t : Token}
    (h : pushValue limit stack t = .ok next) : next.weight ≤ t.weight + weightOfStack stack := by
  unfold pushValue at h
  split at h
  · cases h
    exact Nat.le_refl _
  · next s =>
    cases h
    cases s <;> exact Nat.le_refl _
  · split at h
    · cases h
      exact Nat.le_refl _
    · cases h
  · split at h
    · cases h
      exact Nat.le_refl _
    · cases h
  · cases h

/-- A token pays for what it adds to a builder. -/
theorem push_weight {t : Token} (h : builder.push limit t = .ok next) :
    next.weight ≤ builder.weight + t.weight := by
  unfold push at h
  split at h
  · rw [Nat.add_comm]
    exact pushValue_weight h
  · cases h
    simp only [weight, Json.weight, weightOfAll]
    omega
  · rw [Nat.add_comm]
    exact pushValue_weight h
  · cases h
    simp only [weight, Json.weight, weightOfMembers]
    omega
  · next name =>
    cases h
    cases name <;> simp only [weight, weightOfName, Token.weight] <;> omega
  · cases h
    simp only [weight, weightOfStack_cons, Frame.weight]
    omega
  · cases h
    simp only [weight, weightOfStack_cons, Frame.weight, weightOfAll]
    omega
  · cases h
    simp only [weight, weightOfStack_cons, Frame.weight, weight_array_reverse, weightOfAll]
    omega
  · cases h
    simp only [weight, weightOfStack_cons, Frame.weight, weightOfRead_cons]
    omega
  · cases h
    refine Nat.le_trans (Nat.add_le_add_right (weight_objectOf _) _) ?_
    simp only [weight, weightOfStack_cons, Frame.weight, weightOfRead_cons]
    omega
  · cases h

/-- Tokens add no more than their weight to a builder. -/
theorem pushAll_weight {tokens : List Token} (h : builder.pushAll limit tokens = .ok next) :
    next.weight ≤ builder.weight + weightOfTokens tokens := by
  induction tokens generalizing builder with
  | nil =>
    cases h
    exact Nat.le_refl _
  | cons t tokens ih =>
    rw [pushAll_cons] at h
    obtain ⟨built, hbuilt, hrest⟩ := bind_eq_ok.1 h
    have hle := push_weight hbuilt
    have hrest := ih hrest
    rw [weightOfTokens, List.map_cons, List.sum_cons]
    rw [weightOfTokens] at hrest
    omega

end Builder

/-- No document is shorter than the weight of its tree. -/
theorem weight_le_of_parse {limit : Option Nat} {s : List Char} {j : Json}
    (h : parse limit s = .ok j) : j.weight ≤ utf8Length s := by
  obtain ⟨tokens, htokens, hpush⟩ := parse_eq_ok_iff.1 h
  have hlexed := Lexer.tokens?_weight htokens
  have hbuilt := Builder.pushAll_weight hpush
  have hstart : (Builder.valueDue []).weight = 0 := rfl
  have hbetween : Lexer.between.weight = 0 := rfl
  have hend : (Builder.after [] j).weight = j.weight := rfl
  omega

end LedgerFeed.Json
