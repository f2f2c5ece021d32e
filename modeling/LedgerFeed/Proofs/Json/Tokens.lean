import LedgerFeed.Json.Reader
import LedgerFeed.Proofs.Result

/-!
# Reading by tokens

A document can be read in two passes: its characters make tokens (`Lexer.tokens?`), and the tokens
make a tree. `parse_eq_ok_iff` says that this gives the same trees as `parse`, which takes each
token as soon as it is complete.
-/

namespace LedgerFeed.Json

/-- The tokens of a text, if it can be cut into tokens to its end. -/
def Lexer.tokens? (lexer : Lexer) : List Char → Option (List Token)
  | [] => lexer.finish
  | c :: s => (lexer.step c).bind fun (next, tokens) => (next.tokens? s).map (tokens ++ ·)

/-- The builder after tokens. -/
def Builder.pushAll (limit : Option Nat) (builder : Builder) (tokens : List Token) :
    Except Fault Builder :=
  tokens.foldlM (Builder.push limit) builder

section
variable {limit : Option Nat} {builder : Builder}

/-- No tokens leave a builder as it was. -/
theorem Builder.pushAll_nil : builder.pushAll limit [] = .ok builder := rfl

/-- Tokens are taken one by one. -/
theorem Builder.pushAll_cons (t : Token) (tokens : List Token) :
    builder.pushAll limit (t :: tokens) =
      (builder.push limit t).bind fun next => next.pushAll limit tokens :=
  List.foldlM_cons

/-- Tokens in two parts are taken one part after the other. -/
theorem Builder.pushAll_append (tokens more : List Token) :
    builder.pushAll limit (tokens ++ more) =
      (builder.pushAll limit tokens).bind fun next => next.pushAll limit more :=
  List.foldlM_append

/-- The builder after tokens, and then after more of them. -/
theorem Builder.pushAll_append_of_ok {tokens more : List Token} {next : Builder}
    (h : builder.pushAll limit tokens = .ok next) :
    builder.pushAll limit (tokens ++ more) = next.pushAll limit more := by
  rw [pushAll_append, h]
  rfl

/-- Behind a finished tree no token may come. -/
theorem pushAll_finished_iff {j : Json} {tokens : List Token} :
    (Builder.after [] j).pushAll limit tokens = .ok builder ↔
      tokens = [] ∧ builder = .after [] j := by
  cases tokens with
  | nil =>
    rw [Builder.pushAll_nil, Except.ok.injEq, eq_comm]
    exact (and_iff_right rfl).symm
  | cons t tokens =>
    have hpush : (Builder.after [] j).push limit t = .error .malformed := by cases t <;> rfl
    rw [Builder.pushAll_cons, hpush]
    exact ⟨nofun, nofun⟩

end

/-- The tokens of a character and the text behind it. -/
theorem Lexer.tokens?_cons_eq_some_iff {lexer : Lexer} {c : Char} {s : List Char}
    {tokens : List Token} :
    lexer.tokens? (c :: s) = some tokens ↔
      ∃ next made more, lexer.step c = some (next, made) ∧ next.tokens? s = some more ∧
        made ++ more = tokens := by
  simp only [tokens?, Option.bind_eq_some_iff, Option.map_eq_some_iff, Prod.exists]
  exact ⟨fun ⟨next, made, h, more, hmore, ht⟩ => ⟨next, made, more, h, hmore, ht⟩,
    fun ⟨next, made, more, h, hmore, ht⟩ => ⟨next, made, h, more, hmore, ht⟩⟩

namespace Reader

variable {limit : Option Nat} {lexer next : Lexer} {builder built : Builder}

/-- A reader takes a character if its builder takes the tokens that the character completes. -/
theorem step_eq_ok_iff {c : Char} :
    Reader.step limit ⟨lexer, builder⟩ c = .ok ⟨next, built⟩ ↔
      ∃ made, lexer.step c = some (next, made) ∧ builder.pushAll limit made = .ok built := by
  unfold Reader.step
  split
  · next h => simp [h]
  · next h =>
    simp only [h, map_eq_ok, Option.some.injEq, Prod.mk.injEq, Reader.mk.injEq]
    constructor
    · rintro ⟨_, hbuilt, rfl, rfl⟩
      exact ⟨_, ⟨rfl, rfl⟩, hbuilt⟩
    · rintro ⟨_, ⟨rfl, rfl⟩, hbuilt⟩
      exact ⟨built, hbuilt, rfl, rfl⟩

/-- A reader ends with a tree if its builder makes the tree of the tokens that the end completes. -/
theorem finish_eq_ok_iff {j : Json} :
    Reader.finish limit ⟨lexer, builder⟩ = .ok j ↔
      ∃ made, lexer.finish = some made ∧ builder.pushAll limit made = .ok (.after [] j) := by
  unfold Reader.finish
  split
  · next h => simp [h]
  · next h =>
    simp only [h, Option.some.injEq, exists_eq_left', Builder.pushAll]
    split <;> simp_all

/-- A reader finishes with a tree just if the tokens that are left make the tree. -/
theorem run_eq_ok_iff {s : List Char} {j : Json} :
    (s.foldlM (Reader.step limit) ⟨lexer, builder⟩).bind (Reader.finish limit) = .ok j ↔
      ∃ tokens, lexer.tokens? s = some tokens ∧
        builder.pushAll limit tokens = .ok (.after [] j) := by
  induction s generalizing lexer builder with
  | nil => exact finish_eq_ok_iff
  | cons c s ih =>
    have hsplit :
        ((c :: s).foldlM (Reader.step limit) ⟨lexer, builder⟩).bind (Reader.finish limit) =
          (Reader.step limit ⟨lexer, builder⟩ c).bind fun r =>
            (s.foldlM (Reader.step limit) r).bind (Reader.finish limit) := by
      rw [List.foldlM_cons]
      exact bind_assoc (m := Except Fault) _ _ _
    rw [hsplit]
    constructor
    · intro h
      obtain ⟨⟨next, built⟩, hstep, hrest⟩ := bind_eq_ok.1 h
      obtain ⟨made, hmade, hbuilt⟩ := step_eq_ok_iff.1 hstep
      obtain ⟨more, hmore, hpush⟩ := ih.1 hrest
      refine ⟨made ++ more, ?_, ?_⟩
      · exact Lexer.tokens?_cons_eq_some_iff.2 ⟨next, made, more, hmade, hmore, rfl⟩
      · rw [Builder.pushAll_append_of_ok hbuilt, hpush]
    · rintro ⟨tokens, htokens, hpush⟩
      obtain ⟨next, made, more, hmade, hmore, rfl⟩ := Lexer.tokens?_cons_eq_some_iff.1 htokens
      rw [Builder.pushAll_append] at hpush
      obtain ⟨built, hbuilt, hpush⟩ := bind_eq_ok.1 hpush
      exact bind_eq_ok.2 ⟨⟨next, built⟩, step_eq_ok_iff.2 ⟨made, hmade, hbuilt⟩,
        ih.2 ⟨more, hmore, hpush⟩⟩

end Reader

/-- A document is read as a tree just if its tokens make the tree. -/
theorem parse_eq_ok_iff {limit : Option Nat} {s : List Char} {j : Json} :
    parse limit s = .ok j ↔
      ∃ tokens, Lexer.between.tokens? s = some tokens ∧
        (Builder.valueDue []).pushAll limit tokens = .ok (.after [] j) :=
  Reader.run_eq_ok_iff

/-- Between tokens no character from U+0080 on may stand. -/
theorem Lexer.toNat_lt_of_start {c : Char} {r : Lexer × List Token}
    (h : Lexer.start c = some r) : c.toNat < 0x80 := by
  unfold Lexer.start at h
  split at h
  · next hspace =>
    simp only [isSpace, Bool.or_eq_true, beq_iff_eq] at hspace
    rcases hspace with ((rfl | rfl) | rfl) | rfl <;> decide
  split at h
  case h_12 =>
    split at h
    · cases h
    · next hdigit =>
      unfold decimalDigit? at hdigit
      split at hdigit
      · next hc => exact Nat.lt_of_le_of_lt hc.2 (by decide)
      · cases hdigit
  all_goals decide

/-- A document starts with a character below U+0080. -/
theorem toNat_lt_of_parse {limit : Option Nat} {s : List Char} {j : Json}
    (h : parse limit s = .ok j) : ∃ c rest, s = c :: rest ∧ c.toNat < 0x80 := by
  obtain ⟨tokens, htokens, hpush⟩ := parse_eq_ok_iff.1 h
  cases s with
  | nil =>
    cases htokens
    cases hpush
  | cons c rest =>
    obtain ⟨next, made, more, hstart, -, -⟩ := Lexer.tokens?_cons_eq_some_iff.1 htokens
    exact ⟨c, rest, rfl, Lexer.toNat_lt_of_start hstart⟩

end LedgerFeed.Json
