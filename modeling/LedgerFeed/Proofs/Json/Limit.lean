import LedgerFeed.Proofs.Json.Nesting

/-!
# Reading with a limit

A reader that may open only so many arrays and objects at once reads a text as one without a limit
does, if the scan for brackets goes no deeper than that (`foldlM_limit`). The text need not be a
document: as long as the reader takes its characters, its stack is as high as the scan has brackets
open.
-/

namespace LedgerFeed.Json

/-- How many arrays and objects are open. -/
def Builder.opened : Builder → Nat
  | .valueDue stack | .after stack _ => stack.length
  | .itemDue stack | .nameDue stack _ | .colonDue stack _ _ => stack.length + 1

section
variable {limit : Option Nat} {most : Nat} {stack : List Frame} {builder next : Builder} {t : Token}
  {ts : List Token} {d : Depth}

/-- A value that is taken leaves as many arrays and objects open as its token says. -/
theorem opened_pushValue (h : Builder.pushValue limit stack t = .ok next)
    (hd : d.opened = stack.length) : next.opened = (d.take t).opened := by
  cases t with
  | scalar | text =>
    cases h
    exact hd.symm
  | openArray | openObject =>
    rw [Builder.pushValue] at h
    split at h
    · cases h
      exact congrArg (· + 1) hd.symm
    · cases h
  | _ => cases h

/-- The builder opens and closes as the brackets among the tokens do. -/
theorem opened_push (hd : d.opened = builder.opened) (h : builder.push limit t = .ok next) :
    next.opened = (d.take t).opened := by
  unfold Builder.push at h
  split at h
  case h_1 => exact opened_pushValue h hd
  case h_3 => exact opened_pushValue h hd
  case h_11 => cases h
  all_goals
    cases h
    simp [Builder.opened, Depth.take, Depth.up, hd]

/-- Taking a value needs no limit if nothing is opened beyond the limit. -/
theorem pushValue_limit (h : t = .openArray ∨ t = .openObject → stack.length < most) :
    Builder.pushValue (some most) stack t = Builder.pushValue none stack t := by
  cases t with
  | openArray | openObject => simp [Builder.pushValue, mayOpen, h]
  | _ => rfl

/-- A token is taken in spite of a limit that is not passed behind it. -/
theorem push_limit (hd : d.opened = builder.opened) (h : (d.take t).deepest ≤ most) :
    builder.push (some most) t = builder.push none t := by
  have hopen : t = .openArray ∨ t = .openObject → builder.opened < most := by
    have hle := (d.take t).opened_le
    rintro (rfl | rfl)
    all_goals
      rw [← hd]
      exact Nat.lt_of_lt_of_le (Nat.lt_succ_self _) (Nat.le_trans hle h)
  unfold Builder.push
  split
  case h_1 => exact pushValue_limit hopen
  case h_3 => exact pushValue_limit hopen
  all_goals rfl

/-- Taking tokens needs no limit if they do not reach beyond it. -/
theorem pushAll_limit (hd : d.opened = builder.opened)
    (h : (ts.foldl Depth.take d).deepest ≤ most) :
    builder.pushAll (some most) ts = builder.pushAll none ts := by
  induction ts generalizing builder d with
  | nil => rfl
  | cons t ts ih =>
    have ht := Nat.le_trans ((d.take t).deepest_le_foldl ts) h
    rw [Builder.pushAll_cons, Builder.pushAll_cons, push_limit hd ht]
    exact bind_congr_of_ok fun next hnext => ih (opened_push hd hnext).symm h

/-- Tokens leave as many arrays and objects open as they open and do not close. -/
theorem opened_pushAll (hd : d.opened = builder.opened) (h : builder.pushAll limit ts = .ok next) :
    next.opened = (ts.foldl Depth.take d).opened := by
  induction ts generalizing builder d with
  | nil =>
    cases h
    exact hd.symm
  | cons t ts ih =>
    rw [Builder.pushAll_cons] at h
    obtain ⟨mid, hmid, hnext⟩ := bind_eq_ok.1 h
    exact ih (opened_push hd hmid).symm hnext

/-- Without a limit, nothing is too deep. -/
theorem push_ne_tooDeep : builder.push none t ≠ .error .tooDeep := by
  have hvalue : ∀ stack, Builder.pushValue none stack t ≠ .error .tooDeep := by
    intro stack
    cases t <;> simp [Builder.pushValue, mayOpen]
  unfold Builder.push
  split
  case h_1 => exact hvalue _
  case h_3 => exact hvalue _
  all_goals
    intro h
    cases h

/-- Without a limit, no tokens are too deep. -/
theorem pushAll_ne_tooDeep : builder.pushAll none ts ≠ .error .tooDeep := by
  induction ts generalizing builder with
  | nil => exact nofun
  | cons t ts ih =>
    rw [Builder.pushAll_cons]
    intro h
    rcases bind_eq_error.1 h with hpush | ⟨next, -, hnext⟩
    · exact push_ne_tooDeep hpush
    · exact ih hnext

end

/-! ## Characters -/

/-- The scan goes at least as deep as it has gone. -/
theorem deepest_le_foldl (s : Scan) (b : Bytes) : s.deepest ≤ (b.foldl Scan.step s).deepest := by
  have hstep : ∀ (s : Scan) (x : UInt8), s.deepest ≤ (s.step x).deepest := by
    intro s x
    unfold Scan.step
    grind
  induction b generalizing s with
  | nil => exact Nat.le_refl _
  | cons x b ih => exact Nat.le_trans (hstep s x) (ih _)

/-- The scan at a depth, behind what a reader has read: as many brackets are open as there are
arrays and objects. -/
structure Reader.At (r : Reader) (d : Depth) : Prop where
  wordPlain : r.lexer.WordPlain
  opened : d.opened = r.builder.opened

/-- The scan behind what a reader has read. -/
def Reader.scan (r : Reader) (d : Depth) : Scan :=
  Scan.at d r.lexer.quoting

namespace Reader

variable {limit : Option Nat} {most : Nat} {r next : Reader} {d : Depth} {c : Char} {s : List Char}

/-- The scan behind a reader has been as deep as the depth says. -/
theorem deepest_scan (r : Reader) (d : Depth) : (r.scan d).deepest = d.deepest := by
  unfold scan
  cases r.lexer.quoting <;> rfl

/-- Nothing has been opened at the start. -/
theorem at_start : Reader.start.At .start :=
  ⟨trivial, rfl⟩

/-- The scan keeps in step with a reader. -/
theorem At.step (hr : r.At d) (h : r.step limit c = .ok next) :
    ∃ e, next.At e ∧ (r.scan d).through [c] = next.scan e := by
  obtain ⟨made, hstep, hbuilt⟩ := step_eq_ok_iff.1 h
  obtain ⟨hnext, hthrough⟩ := Lexer.inStep_of_step hr.wordPlain hstep
  exact ⟨made.foldl Depth.take d, ⟨hnext, (opened_pushAll hr.opened hbuilt).symm⟩, hthrough⟩

/-- A character is read in spite of a limit that the scan does not pass. -/
theorem At.step_limit (hr : r.At d) (h : ((r.scan d).through [c]).deepest ≤ most) :
    r.step (some most) c = r.step none c := by
  unfold Reader.step
  split
  · rfl
  · next lexer made hstep =>
    have hthrough := (Lexer.inStep_of_step (d := d) hr.wordPlain hstep).through
    have hdeepest : (made.foldl Depth.take d).deepest ≤ most := by
      rw [Reader.scan, hthrough] at h
      exact (deepest_scan ⟨lexer, r.builder⟩ _).symm.trans_le h
    exact congrArg (Except.map _) (pushAll_limit hr.opened hdeepest)

/-- The end of a text needs no limit if the text has not reached beyond it. -/
theorem At.finish_limit (hr : r.At d) (h : d.deepest ≤ most) :
    r.finish (some most) = r.finish none := by
  unfold Reader.finish
  split
  · rfl
  · next made hfinish =>
    have hdeepest : (made.foldl Depth.take d).deepest ≤ most := by
      rwa [Lexer.foldl_take_finish hfinish]
    have hpush := pushAll_limit hr.opened hdeepest
    rw [Builder.pushAll, Builder.pushAll] at hpush
    rw [hpush]

/-- Characters are read, and the end behind them, in spite of a limit that the scan does not
pass. -/
theorem At.foldlM_limit (hr : r.At d) (h : ((r.scan d).through s).deepest ≤ most) :
    s.foldlM (Reader.step (some most)) r = s.foldlM (Reader.step none) r ∧
      ∀ last, s.foldlM (Reader.step none) r = .ok last →
        last.finish (some most) = last.finish none := by
  induction s generalizing r d with
  | nil =>
    refine ⟨rfl, ?_⟩
    rintro _ ⟨⟩
    exact hr.finish_limit ((deepest_scan r d).symm.trans_le h)
  | cons c s ih =>
    rw [Scan.through_cons] at h
    have hc := hr.step_limit (Nat.le_trans (deepest_le_foldl _ _) h)
    rw [List.foldlM_cons, List.foldlM_cons, hc]
    constructor
    · refine bind_congr_of_ok fun next hnext => ?_
      obtain ⟨e, he, hthrough⟩ := hr.step hnext
      exact (ih he (hthrough ▸ h)).1
    · intro last hlast
      obtain ⟨next, hnext, hlast⟩ := bind_eq_ok.1 hlast
      obtain ⟨e, he, hthrough⟩ := hr.step hnext
      exact (ih he (hthrough ▸ h)).2 last hlast

/-- Without a limit, no character is too deep. -/
theorem step_ne_tooDeep : r.step none c ≠ .error .tooDeep := by
  unfold Reader.step
  split
  · exact nofun
  · next made hstep =>
    cases hpush : made.foldlM (Builder.push none) r.builder with
    | error e =>
      rintro ⟨⟩
      exact pushAll_ne_tooDeep hpush
    | ok => exact nofun

/-- Without a limit, no characters are too deep. -/
theorem foldlM_ne_tooDeep : s.foldlM (Reader.step none) r ≠ .error .tooDeep := by
  induction s generalizing r with
  | nil => exact nofun
  | cons c s ih =>
    rw [List.foldlM_cons]
    intro h
    rcases bind_eq_error.1 h with hstep | ⟨next, -, hnext⟩
    · exact step_ne_tooDeep hstep
    · exact ih hnext

/-- Without a limit, no end is too deep. -/
theorem finish_ne_tooDeep : r.finish none ≠ .error .tooDeep := by
  unfold Reader.finish
  split
  · exact nofun
  split
  · exact nofun
  · exact nofun
  · next hpush =>
    rintro ⟨⟩
    exact pushAll_ne_tooDeep hpush

end Reader

end LedgerFeed.Json
