import LedgerFeed.Json.Printer
import LedgerFeed.Proofs.Json.RoundTrip

/-!
# Trees in lines

What a tree in lines has more than one without spaces is skipped between the tokens. So a tree is
read from its lines as well (`parse_renderLines`), also with a line break at their end.
-/

namespace LedgerFeed.Json

/-- Blanks between tokens make no token. -/
theorem tokens?_spaces (n : Nat) (rest : List Char) :
    Lexer.between.tokens? (List.replicate n ' ' ++ rest) = Lexer.between.tokens? rest := by
  induction n with
  | zero => rfl
  | succ n ih => rw [List.replicate_succ, List.cons_append, Lexer.tokens?_cons_silent rfl, ih]

/-- A new line and the blanks that indent it make no token. -/
theorem tokens?_newLine (level : Nat) (rest : List Char) :
    Lexer.between.tokens? (newLine level ++ rest) = Lexer.between.tokens? rest := by
  rw [newLine, List.cons_append, Lexer.tokens?_cons_silent rfl, tokens?_spaces]

/-- A new line ends a number. -/
theorem delimited_newLine (level : Nat) (rest : List Char) : Delimited (newLine level ++ rest) :=
  delimited_cons (by simp [EndsNumber, decimalDigit?]) _

/-- The lines of a tree make the tokens of the tree, whatever follows. -/
def LinesLexBack (j : Json) : Prop :=
  ∀ (level : Nat) (rest : List Char), Delimited rest →
    Lexer.between.tokens? (renderLines level j ++ rest) =
      (Lexer.between.tokens? rest).map (tokens j ++ ·)

/-- The lines of items make the tokens of the items. -/
theorem tokens?_renderItemLines {items : List Json} (h : ∀ j ∈ items, LinesLexBack j)
    (level : Nat) {rest : List Char} (hrest : Delimited rest) :
    Lexer.between.tokens? (renderItemLines level items ++ rest) =
      (Lexer.between.tokens? rest).map (tokensOfItems items ++ ·) := by
  induction items with
  | nil => simp [renderItemLines, tokensOfItems]
  | cons j items ih =>
    obtain ⟨hj, hitems⟩ := List.forall_mem_cons.1 h
    cases items with
    | nil =>
      rw [renderItemLines, List.append_assoc, tokens?_newLine]
      exact hj level rest hrest
    | cons k items =>
      rw [renderItemLines, List.append_assoc, List.append_assoc, List.cons_append, tokens?_newLine,
        hj level _ (delimited_cons endsNumber_comma _), Lexer.tokens?_cons rfl, ih hitems]
      · simp [tokensOfItems, Option.map_map, Function.comp_def]
      · exact List.cons_ne_nil k items

/-- The lines of a member make the tokens of its name, of the colon and of the member. -/
theorem tokens?_memberLine {name : String} {j : Json} (hj : LinesLexBack j) (level : Nat)
    {rest : List Char} (hrest : Delimited rest) :
    Lexer.between.tokens?
        (newLine level ++ (renderText name ++ ':' :: ' ' :: (renderLines level j ++ rest))) =
      (Lexer.between.tokens? rest).map
        fun made => .text (some name) :: .colon :: tokens j ++ made := by
  rw [tokens?_newLine, tokens?_renderText, Lexer.tokens?_cons rfl, Lexer.tokens?_cons_silent rfl,
    hj level rest hrest]
  simp [Option.map_map, Function.comp_def]

/-- The lines of members make the tokens of the members. -/
theorem tokens?_renderMemberLines {members : List (String × Json)}
    (h : ∀ m ∈ members, LinesLexBack m.2) (level : Nat) {rest : List Char}
    (hrest : Delimited rest) :
    Lexer.between.tokens? (renderMemberLines level members ++ rest) =
      (Lexer.between.tokens? rest).map (tokensOfMembers members ++ ·) := by
  induction members with
  | nil => simp [renderMemberLines, tokensOfMembers]
  | cons m members ih =>
    obtain ⟨name, j⟩ := m
    obtain ⟨hj, hmembers⟩ := List.forall_mem_cons.1 h
    cases members with
    | nil =>
      simp only [renderMemberLines, List.append_assoc, List.cons_append, List.nil_append]
      rw [tokens?_memberLine hj level hrest]
      simp [tokensOfMembers]
    | cons k members =>
      simp only [renderMemberLines, List.append_assoc, List.cons_append, List.nil_append]
      rw [tokens?_memberLine hj level (delimited_cons endsNumber_comma _),
        Lexer.tokens?_cons rfl, ih hmembers]
      simp [tokensOfMembers, Option.map_map, Function.comp_def]

/-- The lines of a tree make the tokens of the tree. -/
theorem tokens?_renderLines {j : Json} (hj : j.IsWritable) : LinesLexBack j := by
  have hflat : LexesBack j := tokens?_render hj
  induction j with
  | null | bool | number | text => exact fun _ => hflat
  | array items ih =>
    intro level rest _
    cases items with
    | nil => exact hflat rest ‹_›
    | cons j items =>
      have hitems : ∀ k ∈ j :: items, LinesLexBack k := fun k hk =>
        have hk' := AllWritable_iff.1 hj k hk
        ih k hk hk' (tokens?_render hk')
      simp only [renderLines, List.cons_append, List.append_assoc, List.nil_append]
      rw [Lexer.tokens?_cons rfl, tokens?_renderItemLines hitems _ (delimited_newLine _ _),
        tokens?_newLine, Lexer.tokens?_cons rfl]
      simp [tokens, Option.map_map, Function.comp_def]
  | object members ih =>
    intro level rest _
    cases members with
    | nil => exact hflat rest ‹_›
    | cons m members =>
      have hmembers : ∀ k ∈ m :: members, LinesLexBack k.2 := fun k hk =>
        have hk' := MembersWritable_iff.1 hj k hk
        ih k hk hk' (tokens?_render hk')
      simp only [renderLines, List.cons_append, List.append_assoc, List.nil_append]
      rw [Lexer.tokens?_cons rfl, tokens?_renderMemberLines hmembers _ (delimited_newLine _ _),
        tokens?_newLine, Lexer.tokens?_cons rfl]
      simp [tokens, Option.map_map, Function.comp_def]
  | unreadable => exact hj.elim

/-- A tree that shows all it holds is read from its lines. -/
theorem parse_renderLines {limit : Option Nat} {j : Json} (hj : j.IsWritable)
    (hfits : Fits limit j.nesting) (level : Nat) :
    parse limit (renderLines level j ++ ['\n']) = .ok j := by
  refine parse_eq_ok_iff.2 ⟨tokens j, ?_, ?_⟩
  · have hend : Lexer.between.tokens? ['\n'] = some [] := tokens?_newLine 0 []
    rw [tokens?_renderLines hj level ['\n'] (delimited_newLine 0 []), hend]
    simp
  · exact pushAll_tokens hj hfits

/-- A tree that shows all it holds is read from its lines. -/
theorem parse?_toLines {j : Json} (hj : j.IsWritable) : parse? (j.toLines ++ "\n") = some j := by
  have hparse : parse none (renderLines 0 j ++ ['\n']) = .ok j :=
    parse_renderLines hj (fits_none _) 0
  have htext : (j.toLines ++ "\n").toList = renderLines 0 j ++ ['\n'] := by
    simp [toLines, String.toList_append]
  rw [parse?, htext, hparse]
  rfl

end LedgerFeed.Json
