import LedgerFeed.Proofs.Result
import LedgerFeed.Sequence

/-!
# Runs of indices

Indices are offered to a sequence one by one, and whoever offers them goes on after a refusal with
the sequence as it was. A sequence is always one that waits for some number, the one behind the
indices it has accepted (`after_waitingFor`), which may be one more than any index has. So what it
accepts counts up from its start without a gap, and the answer to an index depends on nothing else
(`accepts_consecutive`).
-/

namespace LedgerFeed.Sequence

/-- The sequence behind an index: a refused index leaves it as it was. -/
def offer (s : Sequence) (x : UInt64) : Sequence :=
  match s.accept x with
  | .ok next => next
  | .error _ => s

/-- The sequence behind indices, whatever became of each of them. -/
def after (s : Sequence) (xs : List UInt64) : Sequence :=
  xs.foldl offer s

/-- The indices that are accepted. -/
def taken (s : Sequence) : List UInt64 → List UInt64
  | [] => []
  | x :: xs =>
    match s.accept x with
    | .ok next => x :: taken next xs
    | .error _ => taken s xs

/-- The sequence that waits for a number. No index has the number `2 ^ 64`. -/
def waitingFor (n : Nat) : Sequence :=
  ⟨if n < 2 ^ 64 then some (.ofNat n) else none⟩

/-- What is wrong with an index where a number is due. -/
def refusal? (n : Nat) (x : UInt64) : Option OrderingError :=
  if x.toNat = n then none
  else if n < 2 ^ 64 then some (.outOfOrder (.ofNat n) x)
  else some (.exhausted x)

/-- A sequence from an index is the one that is waiting for the number of the index. -/
theorem ofStart_eq_waitingFor (n : UInt64) : ofStart n = waitingFor n.toNat := by
  rw [waitingFor, if_pos n.toNat_lt, UInt64.ofNat_toNat, ofStart]

/-- An index is accepted just if it is the number that is due. -/
theorem accept_waitingFor (n : Nat) (x : UInt64) :
    (waitingFor n).accept x =
      match refusal? n x with
      | none => .ok (waitingFor (n + 1))
      | some e => .error e := by
  unfold refusal?
  by_cases hx : x.toNat = n
  · subst hx
    have hnext : UInt64.ofNat (x.toNat + 1) = x + 1 := by simp
    simp only [waitingFor, accept, next?, if_pos x.toNat_lt, UInt64.ofNat_toNat, if_true, hnext]
  by_cases hn : n < 2 ^ 64
  · have hne : x ≠ .ofNat n := by
      rintro rfl
      exact hx (UInt64.toNat_ofNat_of_lt' hn)
    simp only [waitingFor, accept, if_pos hn, if_neg hne, if_neg hx]
  · simp only [waitingFor, accept, if_neg hn, if_neg hx]

/-- The index that is due is the one whose number is waited for. -/
theorem due_waitingFor_iff {n : Nat} {d : UInt64} : (waitingFor n).due = some d ↔ d.toNat = n := by
  rw [waitingFor]
  constructor
  · intro h
    split at h
    · next hn =>
      cases h
      exact UInt64.toNat_ofNat_of_lt' hn
    · cases h
  · rintro rfl
    rw [if_pos d.toNat_lt, UInt64.ofNat_toNat]

section
variable {n : Nat} {x : UInt64}

/-- Nothing is refused just if the index is the one that is due. -/
theorem refusal?_eq_none_iff : refusal? n x = none ↔ x.toNat = n := by
  unfold refusal?
  split
  · next hx => exact iff_of_true rfl hx
  · next hx => exact iff_of_false (by split <;> exact nofun) hx

/-- An index is accepted just if it is due, and then its successor is. -/
theorem accept_eq_ok_iff {next : Sequence} :
    (waitingFor n).accept x = .ok next ↔ x.toNat = n ∧ next = waitingFor (n + 1) := by
  rw [accept_waitingFor, ← refusal?_eq_none_iff]
  cases refusal? n x with
  | none => simp [eq_comm]
  | some e => simp

/-- An index is refused for the reason that `refusal?` gives and for no other. -/
theorem accept_eq_error_iff {e : OrderingError} :
    (waitingFor n).accept x = .error e ↔ refusal? n x = some e := by
  rw [accept_waitingFor]
  cases refusal? n x <;> simp

/-- An index is out of order just if another one is due. -/
theorem accept_eq_outOfOrder_iff {d y : UInt64} :
    (waitingFor n).accept x = .error (.outOfOrder d y) ↔ d.toNat = n ∧ y = x ∧ x ≠ d := by
  rw [accept_eq_error_iff, refusal?]
  constructor
  · intro h
    split at h
    · cases h
    split at h
    · next hx hn =>
      cases h
      refine ⟨UInt64.toNat_ofNat_of_lt' hn, rfl, ?_⟩
      rintro rfl
      exact hx (UInt64.toNat_ofNat_of_lt' hn)
    · cases h
  · rintro ⟨rfl, rfl, hne⟩
    rw [if_neg (mt UInt64.toNat_inj.1 hne), if_pos d.toNat_lt, UInt64.ofNat_toNat]

/-- The sequence is exhausted, whatever arrives, just if it waits for a number beyond 64 bits. -/
theorem accept_eq_exhausted_iff {y : UInt64} :
    (waitingFor n).accept x = .error (.exhausted y) ↔ y = x ∧ 2 ^ 64 ≤ n := by
  have hx := x.toNat_lt
  rw [accept_eq_error_iff, refusal?]
  constructor
  · intro h
    split at h
    · cases h
    split at h
    · cases h
    · next hn =>
      cases h
      exact ⟨rfl, Nat.not_lt.1 hn⟩
  · rintro ⟨rfl, hn⟩
    rw [if_neg (by omega), if_neg (by omega)]

/-- The indices that a sequence accepts count up from the number it waits for, and behind them it
waits for the next. -/
theorem after_waitingFor (n : Nat) (xs : List UInt64) :
    ((waitingFor n).taken xs).map UInt64.toNat =
        List.range' n ((waitingFor n).taken xs).length ∧
      (waitingFor n).after xs = waitingFor (n + ((waitingFor n).taken xs).length) := by
  induction xs generalizing n with
  | nil => exact ⟨rfl, rfl⟩
  | cons x xs ih =>
    rw [after, List.foldl_cons, ← after, taken, offer, accept_waitingFor]
    cases h : refusal? n x with
    | none =>
      obtain ⟨htaken, hafter⟩ := ih (n + 1)
      have hx := refusal?_eq_none_iff.1 h
      refine ⟨?_, ?_⟩
      · simp only [List.map_cons, List.length_cons, List.range'_succ, hx, htaken]
      · simp only [List.length_cons, hafter]
        congr 1
        omega
    | some e => exact ih n

/-- A sequence accepts all of the numbers that count up from the one it waits for. -/
theorem taken_eq_self {xs : List UInt64} (h : xs.map UInt64.toNat = List.range' n xs.length) :
    (waitingFor n).taken xs = xs := by
  induction xs generalizing n with
  | nil => rfl
  | cons x xs ih =>
    rw [List.map_cons, List.length_cons, List.range'_succ, List.cons.injEq] at h
    rw [taken, accept_eq_ok_iff.2 ⟨h.1, rfl⟩]
    simp only [ih h.2]

end

section
variable {n : UInt64} {xs : List UInt64}

/-- All indices are accepted just if they count up from the start. -/
theorem taken_ofStart_eq_self_iff :
    (ofStart n).taken xs = xs ↔ xs.map UInt64.toNat = List.range' n.toNat xs.length := by
  rw [ofStart_eq_waitingFor]
  constructor
  · intro h
    have htaken := (after_waitingFor n.toNat xs).1
    rwa [h] at htaken
  · exact taken_eq_self

/-- No number is due just if the greatest index has been accepted. -/
theorem le_due_iff :
    2 ^ 64 ≤ n.toNat + ((ofStart n).taken xs).length ↔
      ∃ x ∈ (ofStart n).taken xs, x.toNat = 2 ^ 64 - 1 := by
  have htaken := (after_waitingFor n.toNat xs).1
  rw [← ofStart_eq_waitingFor] at htaken
  have hmem : ∀ k, (∃ x ∈ (ofStart n).taken xs, x.toNat = k) ↔
      n.toNat ≤ k ∧ k < n.toNat + ((ofStart n).taken xs).length := by
    intro k
    rw [← List.mem_map, htaken, List.mem_range'_1]
  have hn := n.toNat_lt
  constructor
  · intro h
    obtain ⟨x, hx, hlast⟩ := (hmem (n.toNat + ((ofStart n).taken xs).length - 1)).2 (by omega)
    have hlt := x.toNat_lt
    exact ⟨x, hx, by omega⟩
  · intro h
    obtain ⟨-, hlt⟩ := (hmem _).1 h
    omega

/-- Whatever indices have been offered: those accepted count up from the start, and they are all of
them just if all count up from the start. The number due is the next one and is never taken round to
zero. The index with this number is accepted, also behind indices that were refused; any other is
refused with the index due and its own, or, just if the greatest index has been accepted, as one too
many, and leaves the sequence as it was. -/
theorem accepts_consecutive (n : UInt64) (xs : List UInt64) :
    let s : Sequence := ofStart n
    let due := n.toNat + (s.taken xs).length
    (s.taken xs).map UInt64.toNat = List.range' n.toNat (s.taken xs).length ∧
    (s.taken xs = xs ↔ xs.map UInt64.toNat = List.range' n.toNat xs.length) ∧
    (∀ d, (s.after xs).due = some d ↔ d.toNat = due) ∧
    ∀ x,
      ((∃ next, (s.after xs).accept x = .ok next) ↔ x.toNat = due) ∧
      (∀ d y, (s.after xs).accept x = .error (.outOfOrder d y) ↔
        d.toNat = due ∧ y = x ∧ x ≠ d) ∧
      (∀ y, (s.after xs).accept x = .error (.exhausted y) ↔
        y = x ∧ ∃ z ∈ s.taken xs, z.toNat = 2 ^ 64 - 1) ∧
      ∀ e, (s.after xs).accept x = .error e → s.after (xs ++ [x]) = s.after xs := by
  intro s due
  obtain ⟨htaken, hafter⟩ := after_waitingFor n.toNat xs
  rw [← ofStart_eq_waitingFor] at htaken hafter
  have hwaits : s.after xs = waitingFor due := hafter
  refine ⟨htaken, taken_ofStart_eq_self_iff, fun d => by rw [hwaits, due_waitingFor_iff], ?_⟩
  refine fun x => ⟨?_, fun d y => ?_, fun y => ?_, fun e he => ?_⟩
  · simp only [hwaits, accept_eq_ok_iff, exists_and_left, exists_eq, and_true]
  · rw [hwaits, accept_eq_outOfOrder_iff]
  · rw [hwaits, accept_eq_exhausted_iff, le_due_iff]
  · have hoffer : (s.after xs).offer x = s.after xs := by rw [offer, he]
    rw [after, List.foldl_append]
    exact hoffer

/-- Up to the greatest index, with a refusal on the way, and beyond it. -/
theorem accepts_consecutive_to_greatest :
    let s := ofStart 18446744073709551614
    let xs : List UInt64 := [18446744073709551614, 7, 18446744073709551615]
    s.taken xs = [18446744073709551614, 18446744073709551615] ∧
      (s.after xs).accept 0 = .error (.exhausted 0) ∧ s.after (xs ++ [0]) = s.after xs := by
  intro s xs
  have htaken : s.taken xs = [18446744073709551614, 18446744073709551615] := by decide
  obtain ⟨-, -, -, hanswers⟩ := accepts_consecutive 18446744073709551614 xs
  obtain ⟨-, -, hexhausted, hkept⟩ := hanswers 0
  have hlast : (18446744073709551615 : UInt64) ∈ s.taken xs := by
    rw [htaken]
    decide
  have hzero := (hexhausted 0).2 ⟨rfl, _, hlast, rfl⟩
  exact ⟨htaken, hzero, hkept _ hzero⟩

end

end LedgerFeed.Sequence
