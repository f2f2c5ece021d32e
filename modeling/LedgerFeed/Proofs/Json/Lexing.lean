import Mathlib.Tactic.IntervalCases
import Mathlib.Tactic.SplitIfs
import LedgerFeed.Json.Printer
import LedgerFeed.Proofs.Json.Induction
import LedgerFeed.Proofs.Json.Tokens

/-!
# The tokens of a written tree

The text of a tree is cut into the tokens of the tree, with whatever tokens the characters behind it
make (`tokens?_render`). Only a number needs something that ends it.
-/

namespace LedgerFeed.Json

mutual

/-- The tokens that a tree is written in. -/
def tokens : Json → List Token
  | .null | .unreadable => [.scalar .null]
  | .bool b => [.scalar (.bool b)]
  | .number n => [.scalar (.number n)]
  | .text s => [.text (some s)]
  | .array items => .openArray :: tokensOfItems items ++ [.closeArray]
  | .object members => .openObject :: tokensOfMembers members ++ [.closeObject]

/-- The tokens of items, with commas between them. -/
def tokensOfItems : List Json → List Token
  | [] => []
  | [j] => tokens j
  | j :: rest => tokens j ++ .comma :: tokensOfItems rest

/-- The tokens of members, with commas between them. -/
def tokensOfMembers : List (String × Json) → List Token
  | [] => []
  | [(name, j)] => .text (some name) :: .colon :: tokens j
  | (name, j) :: rest =>
    .text (some name) :: .colon :: tokens j ++ .comma :: tokensOfMembers rest

end

namespace Lexer

/-- The tokens of a text are those that its first character makes and those of what follows. -/
theorem tokens?_cons {lexer next : Lexer} {c : Char} {made : List Token}
    (h : lexer.step c = some (next, made)) (s : List Char) :
    lexer.tokens? (c :: s) = (next.tokens? s).map (made ++ ·) := by
  rw [tokens?, h]
  rfl

/-- A character that completes no token only changes the state. -/
theorem tokens?_cons_silent {lexer next : Lexer} {c : Char}
    (h : lexer.step c = some (next, [])) (s : List Char) :
    lexer.tokens? (c :: s) = next.tokens? s := by
  rw [tokens?_cons h]
  cases next.tokens? s <;> rfl

/-! ## Words -/

/-- The rest of a word makes its scalar. -/
theorem tokens?_word (value : Json) (word : List Char) (c : Char) (rest : List Char) :
    (Lexer.word (c :: word) value).tokens? (c :: word ++ rest) =
      (Lexer.between.tokens? rest).map (.scalar value :: ·) := by
  induction word generalizing c with
  | nil =>
    have hstep : (Lexer.word [c] value).step c = some (.between, [.scalar value]) := by simp [step]
    exact tokens?_cons hstep rest
  | cons d word ih =>
    have hstep : (Lexer.word (c :: d :: word) value).step c =
        some (.word (d :: word) value, []) := by simp [step]
    rw [List.cons_append, tokens?_cons_silent hstep]
    exact ih d

/-- A null is cut off as one scalar. -/
theorem tokens?_null (rest : List Char) :
    Lexer.between.tokens? ('n' :: 'u' :: 'l' :: 'l' :: rest) =
      (Lexer.between.tokens? rest).map (.scalar .null :: ·) :=
  tokens?_word .null ['l', 'l'] 'u' rest |> (tokens?_cons_silent rfl _).trans

/-- A true is cut off as one scalar. -/
theorem tokens?_true (rest : List Char) :
    Lexer.between.tokens? ('t' :: 'r' :: 'u' :: 'e' :: rest) =
      (Lexer.between.tokens? rest).map (.scalar (.bool true) :: ·) :=
  tokens?_word (.bool true) ['u', 'e'] 'r' rest |> (tokens?_cons_silent rfl _).trans

/-- A false is cut off as one scalar. -/
theorem tokens?_false (rest : List Char) :
    Lexer.between.tokens? ('f' :: 'a' :: 'l' :: 's' :: 'e' :: rest) =
      (Lexer.between.tokens? rest).map (.scalar (.bool false) :: ·) :=
  tokens?_word (.bool false) ['l', 's', 'e'] 'a' rest |> (tokens?_cons_silent rfl _).trans

end Lexer

/-! ## Texts -/

/-- What the lexer keeps of a character that is written with `escape`. -/
def pieceOf (c : Char) : Piece :=
  if c.toNat < 0x20 ∧ c ∉ ['\n', '\r', '\t', '\x08', '\x0c'] then .unit c.toNat else .char c

/-- The digits of control characters are read back. -/
theorem hexDigit?_digitChar {n : Nat} (h : n < 16) : hexDigit? n.digitChar = some n := by
  have hall : ∀ n < 16, hexDigit? (Nat.digitChar n) = some n := by decide
  exact hall n h

namespace Lexer

variable {read : List Piece} {c d : Char} (rest : List Char)

/-- A backslash and a letter stand for one character of a text. -/
theorem tokens?_escaped (hu : c ≠ 'u') (h : escaped? c = some d) :
    (Lexer.text read).tokens? ('\\' :: c :: rest) =
      (Lexer.text (.char d :: read)).tokens? rest := by
  have hstep : (Lexer.escape read).step c = some (.text (.char d :: read), []) := by
    simp [step, hu, h]
  rw [tokens?_cons_silent rfl, tokens?_cons_silent hstep]

/-- A digit of an escaped unit is taken if more are missing. -/
theorem tokens?_unit {missing value n : Nat} (h : hexDigit? c = some n) (hm : 1 < missing) :
    (Lexer.unit read missing value).tokens? (c :: rest) =
      (Lexer.unit read (missing - 1) (16 * value + n)).tokens? rest := by
  refine tokens?_cons_silent ?_ rest
  simp [step, h, Nat.not_le.2 hm]

/-- The last digit of an escaped unit completes it. -/
theorem tokens?_last_unit {value n : Nat} (h : hexDigit? c = some n) :
    (Lexer.unit read 1 value).tokens? (c :: rest) =
      (Lexer.text (.unit (16 * value + n) :: read)).tokens? rest := by
  refine tokens?_cons_silent ?_ rest
  simp [step, h]

end Lexer

/-- Each escape stands for the character that it is written for. -/
theorem tokens?_escape (c : Char) (read : List Piece) (rest : List Char) :
    (Lexer.text read).tokens? (escape c ++ rest) =
      (Lexer.text (pieceOf c :: read)).tokens? rest := by
  unfold escape
  split_ifs with h1 h2 h3 h4 h5 h6 h7 h8
  · subst h1
    exact Lexer.tokens?_escaped rest (by decide) rfl
  · subst h2
    exact Lexer.tokens?_escaped rest (by decide) rfl
  · subst h3
    exact Lexer.tokens?_escaped rest (by decide) rfl
  · subst h4
    exact Lexer.tokens?_escaped rest (by decide) rfl
  · subst h5
    exact Lexer.tokens?_escaped rest (by decide) rfl
  · subst h6
    exact Lexer.tokens?_escaped rest (by decide) rfl
  · subst h7
    exact Lexer.tokens?_escaped rest (by decide) rfl
  · have hhigh := hexDigit?_digitChar (n := c.toNat / 16) (by omega)
    have hlow := hexDigit?_digitChar (n := c.toNat % 16) (by omega)
    have hc : pieceOf c = .unit c.toNat := by simp [pieceOf, h3, h4, h5, h6, h7, h8]
    have hvalue : 16 * (16 * (16 * (16 * 0 + 0) + 0) + c.toNat / 16) + c.toNat % 16 = c.toNat := by
      omega
    simp only [List.cons_append, List.nil_append]
    rw [Lexer.tokens?_cons_silent rfl, Lexer.tokens?_cons_silent rfl,
      Lexer.tokens?_unit _ (n := 0) rfl (by decide), Lexer.tokens?_unit _ (n := 0) rfl (by decide),
      Lexer.tokens?_unit _ hhigh (by decide), Lexer.tokens?_last_unit _ hlow, hvalue, hc]
  · have hc : pieceOf c = .char c := by simp [pieceOf, h8]
    have hstep : (Lexer.text read).step c = some (.text (.char c :: read), []) := by
      simp [Lexer.step, h1, h2, h8]
    rw [hc]
    exact Lexer.tokens?_cons_silent hstep rest

/-- A unit that is no half of a surrogate pair is a character. -/
theorem joinPieces_unit {u : Nat} (hhigh : isHighSurrogate u = false)
    (hlow : isLowSurrogate u = false) (rest : List Piece) :
    joinPieces (.unit u :: rest) = (joinPieces rest).map (Char.ofNat u :: ·) := by
  rw [joinPieces.eq_def]
  simp [hhigh, hlow]

/-- The pieces of a text make the text again. -/
theorem joinPieces_pieceOf (s : List Char) : joinPieces (s.map pieceOf) = some s := by
  induction s with
  | nil => rfl
  | cons c s ih =>
    by_cases hc : c.toNat < 0x20 ∧ c ∉ ['\n', '\r', '\t', '\x08', '\x0c']
    · have hhigh : isHighSurrogate c.toNat = false := by simp [isHighSurrogate]; omega
      have hlow : isLowSurrogate c.toNat = false := by simp [isLowSurrogate]; omega
      rw [List.map_cons, pieceOf, if_pos hc, joinPieces_unit hhigh hlow, ih, Char.ofNat_toNat]
      rfl
    · rw [List.map_cons, pieceOf, if_neg hc, joinPieces, ih]
      rfl

/-- A written text is cut off as one token. -/
theorem tokens?_renderText (s : String) (rest : List Char) :
    Lexer.between.tokens? (renderText s ++ rest) =
      (Lexer.between.tokens? rest).map (.text (some s) :: ·) := by
  have hescape : ∀ (cs : List Char) read,
      (Lexer.text read).tokens? (cs.flatMap escape ++ '"' :: rest) =
        (Lexer.text ((cs.map pieceOf).reverse ++ read)).tokens? ('"' :: rest) := by
    intro cs
    induction cs with
    | nil => intro read; rfl
    | cons c cs ih => intro read; simp [tokens?_escape, ih]
  have htext : textOf (s.toList.map pieceOf) = some s := by
    simp [textOf, joinPieces_pieceOf]
  rw [renderText, List.cons_append, List.cons_append, List.append_assoc,
    Lexer.tokens?_cons_silent rfl, List.singleton_append, hescape, List.append_nil]
  have hquote : (Lexer.text (s.toList.map pieceOf).reverse).step '"' =
      some (.between, [.text (some s)]) := by
    rw [Lexer.step, if_pos rfl, List.reverse_reverse, htext]
  rw [Lexer.tokens?_cons hquote]
  rfl

/-! ## Integers -/

/-- A decimal text is the text of the digits of its number; the first is zero only if it is the only
one. -/
theorem toDigits_eq_map (n : Nat) :
    ∃ d digits, Nat.toDigits 10 n = (d :: digits).map Nat.digitChar ∧
      (∀ x ∈ d :: digits, x < 10) ∧ ofDigits (d :: digits) = n ∧ (d = 0 → digits = []) := by
  induction n using Nat.strongRecOn with
  | ind n ih =>
    by_cases hn : n < 10
    · exact ⟨n, [], Nat.toDigits_of_lt_base hn, by simpa using hn, by simp [ofDigits], fun _ => rfl⟩
    · obtain ⟨d, digits, htext, hlt, hvalue, hzero⟩ := ih (n / 10) (by omega)
      have hlast : n % 10 < 10 := Nat.mod_lt n (by decide)
      refine ⟨d, digits ++ [n % 10], ?_, ?_, ?_, ?_⟩
      · rw [Nat.toDigits_of_base_le (by decide) (Nat.not_lt.1 hn), htext]
        simp
      · rw [← List.cons_append, List.forall_mem_append]
        exact ⟨hlt, by simpa using hlast⟩
      · rw [← List.cons_append, ofDigits, List.foldl_append, ← ofDigits, hvalue]
        exact Nat.div_add_mod n 10
      · intro hd
        rw [hzero hd, hd] at hvalue
        have hquotient : n / 10 = 0 := hvalue.symm
        omega

/-- A character that cannot go on with a number. -/
def EndsNumber (c : Char) : Prop :=
  decimalDigit? c = none ∧ c ≠ '.' ∧ c ≠ 'e' ∧ c ≠ 'E'

/-- A text that cannot go on with a number. -/
def Delimited (s : List Char) : Prop :=
  ∀ c ∈ s.head?, EndsNumber c

/-- A text is delimited by a first character that ends numbers. -/
theorem delimited_cons {c : Char} (h : EndsNumber c) (rest : List Char) :
    Delimited (c :: rest) := by
  intro d hd
  cases hd
  exact h

/-- A number that may end here does so before a character that ends numbers. -/
theorem continueNumber_of_ends {part : NumberPart} (hp : part.isEnd) {c : Char} (hc : EndsNumber c)
    (l : Literal) : continueNumber part l c = none := by
  obtain ⟨hdigit, hpoint, he, hE⟩ := hc
  cases part <;> simp_all [continueNumber, NumberPart.isEnd]

namespace Lexer

/-- A number is complete where no character goes on with it. -/
theorem tokens?_end {part : NumberPart} (hp : part.isEnd) (l : Literal) {rest : List Char}
    (h : Delimited rest) :
    (Lexer.number part l).tokens? rest =
      (Lexer.between.tokens? rest).map (.scalar l.toJson :: ·) := by
  cases rest with
  | nil => simp [tokens?, finish, hp]
  | cons c rest =>
    have hnone := continueNumber_of_ends hp (h c rfl) l
    simp only [tokens?, step, hnone, hp, if_true]
    cases start c with
    | none => rfl
    | some r => simp [Option.map_map, Function.comp_def]

/-- The digits behind the first one are all part of the number. -/
theorem tokens?_whole {digits : List Nat} (hlt : ∀ d ∈ digits, d < 10) (negative : Bool)
    {whole : List Nat} (hw : whole ≠ []) (rest : List Char) :
    (Lexer.number .whole ⟨negative, whole, none, none⟩).tokens?
        (digits.map Nat.digitChar ++ rest) =
      (Lexer.number .whole ⟨negative, digits.reverse ++ whole, none, none⟩).tokens? rest := by
  induction digits generalizing whole with
  | nil => rfl
  | cons d digits ih =>
    obtain ⟨hd, hlt⟩ := List.forall_mem_cons.1 hlt
    have hdigit : decimalDigit? d.digitChar = some d := by interval_cases d <;> rfl
    have hstep : (Lexer.number .whole ⟨negative, whole, none, none⟩).step d.digitChar =
        some (.number .whole ⟨negative, d :: whole, none, none⟩, []) := by
      simp [step, continueNumber, hdigit, hw]
    rw [List.map_cons, List.cons_append, tokens?_cons_silent hstep,
      ih hlt (List.cons_ne_nil d whole)]
    simp

/-- Where a digit starts the digits of a number, the text of a number is a token. -/
theorem tokens?_toDigits {lexer : Lexer} {negative : Bool} {n : Nat}
    (hfirst : ∀ d < 10, lexer.step d.digitChar =
      some (.number (if d = 0 then .zero else .whole) ⟨negative, [d], none, none⟩, []))
    (hnarrow : (Number.integer negative n).narrow.isSome) {rest : List Char} (h : Delimited rest) :
    lexer.tokens? (Nat.toDigits 10 n ++ rest) =
      (Lexer.between.tokens? rest).map (.scalar (.number (.integer negative n)) :: ·) := by
  obtain ⟨d, digits, htext, hlt, hvalue, hzero⟩ := toDigits_eq_map n
  obtain ⟨hd, hlt⟩ := List.forall_mem_cons.1 hlt
  have hjson : (⟨negative, digits.reverse ++ [d], none, none⟩ : Literal).toJson =
      .number (.integer negative n) := by
    simp [Literal.toJson, hvalue, hnarrow]
  rw [htext, List.map_cons, List.cons_append, tokens?_cons_silent (hfirst d hd)]
  split
  · next hd =>
    rw [hzero hd] at hjson ⊢
    rw [← hjson]
    exact tokens?_end rfl _ h
  · rw [tokens?_whole hlt negative (List.cons_ne_nil d []), tokens?_end rfl _ h, hjson]

/-- A written integer is cut off as one scalar, before anything that ends a number. -/
theorem tokens?_integer {negative : Bool} {n : Nat}
    (hnarrow : (Number.integer negative n).narrow.isSome) {rest : List Char} (h : Delimited rest) :
    Lexer.between.tokens? ((Number.integer negative n).render ++ rest) =
      (Lexer.between.tokens? rest).map (.scalar (.number (.integer negative n)) :: ·) := by
  cases negative with
  | true =>
    rw [Number.render, if_pos rfl, List.cons_append, tokens?_cons_silent rfl]
    exact tokens?_toDigits (fun d hd => by interval_cases d <;> rfl) hnarrow h
  | false => exact tokens?_toDigits (fun d hd => by interval_cases d <;> rfl) hnarrow h

end Lexer

end LedgerFeed.Json
