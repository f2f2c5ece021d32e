import LedgerFeed.Proofs.Session.Cancellation

/-!
# Subscriptions are isolated

The subscriptions of a session have nothing in common but what cancels all of them and the transport
that opens them: `isolated`. What is seen of one of them in a run is what is seen of it when the
uses of all others are left out. Two sessions `Agree` on a subscription if they differ in nothing
but the others; every turn keeps this, and a use of another one in one of the two sessions does so
too.
-/

namespace LedgerFeed.Session

section
variable (n : Nat)

/-- What comes of a turn that is a use of the subscription with a number. -/
def seenBy (s : Session) : Turn → List ActionResult
  | .perform (.use name u) =>
    if s.names.lookup name = some n then [(s.perform (.use name u)).1] else []
  | _ => []

/-- What comes of the uses of a subscription in a run: its records, faults and stats. -/
def seen : Session → List Turn → List ActionResult
  | _, [] => []
  | s, t :: ts => s.seenBy n t ++ seen (s.turn t) ts

/-- A turn is a use of another subscription. -/
def isOnOther (s : Session) : Turn → Bool
  | .perform (.use name _) => (s.names.lookup name).any (· != n)
  | _ => false

/-- A run without the uses of other subscriptions. They are still opened. -/
def without : Session → List Turn → List Turn
  | _, [] => []
  | s, t :: ts =>
    if s.isOnOther n t then without (s.turn t) ts else t :: without (s.turn t) ts

end

/-- Two sessions with the same subscriptions, of which the one with a number is the same in both. -/
structure Agree (n : Nat) (s s' : Session) : Prop where
  settings : s'.settings = s.settings
  transport : s'.transport = s.transport
  cancelled : s'.cancelled = s.cancelled
  names : s'.names = s.names
  length : s'.subscriptions.length = s.subscriptions.length
  held : s'.subscriptions[n]? = s.subscriptions[n]?

variable {n : Nat} {s s' : Session}

/-- A session agrees with itself on every subscription. -/
theorem Agree.refl (n : Nat) (s : Session) : Agree n s s :=
  ⟨rfl, rfl, rfl, rfl, rfl, rfl⟩

/-- A turn comes down to the same in sessions that agree. -/
theorem Agree.same_deed (h : Agree n s s') (t : Turn) :
    s'.deed t = s.deed t ∧ s'.settingsAfter t = s.settingsAfter t ∧
      s'.transportAfter t = s.transportAfter t := by
  obtain ⟨settings, transport, cancelled, subscriptions, names⟩ := s
  obtain ⟨settings', transport', cancelled', subscriptions', names'⟩ := s'
  obtain ⟨hsettings, htransport, hcancelled, hnames, -, -⟩ := h
  dsimp only at hsettings htransport hcancelled hnames
  subst hsettings htransport hcancelled hnames
  exact ⟨rfl, rfl, rfl⟩

/-- What is seen of a subscription is the same in sessions that agree on it. -/
theorem Agree.seenBy_eq (h : Agree n s s') (t : Turn) : s'.seenBy n t = s.seenBy n t := by
  unfold seenBy
  split
  · next name u =>
    rw [h.names]
    split
    · next hl =>
      have hfind : s'.find? name = s.find? name := by
        simp only [find?, h.names, hl, Option.bind_eq_bind, Option.bind_some, h.held]
      simp only [perform, use, hfind]
      rcases s.find? name with _ | ⟨m, x⟩ <;> rfl
    · rfl
  · rfl

/-- The same turn keeps sessions in agreement. -/
theorem Agree.turn (hs : s.IsCalm) (hs' : s'.IsCalm) (h : Agree n s s') (t : Turn) :
    Agree n (s.turn t) (s'.turn t) := by
  obtain ⟨hdeed, hsettings, htransport⟩ := h.same_deed t
  have hturn := turnsInto hs t
  have hturn' := turnsInto hs' t
  rw [hdeed] at hturn'
  refine ⟨?_, ?_, ?_, ?_, ?_, ?_⟩
  · rw [hturn.settings, hturn'.settings, hsettings]
  · rw [hturn.transport, hturn'.transport, htransport]
  · rw [hturn.cancelled, hturn'.cancelled, h.cancelled]
  · rw [hturn.names, hturn'.names, h.names, h.length]
  · rw [hturn.subscriptions, hturn'.subscriptions]
    simp only [List.length_append, List.length_mapIdx, h.length]
  · rw [hturn.subscriptions, hturn'.subscriptions]
    simp only [List.getElem?_append, List.length_mapIdx, List.getElem?_mapIdx, h.held, h.length]

/-- A use of one subscription leaves all else as it is. -/
theorem agree_use (hs : s.IsCalm) {name : String} (hn : s.names.lookup name ≠ some n) (u : Use) :
    Agree n s (s.turn (.perform (.use name u))) := by
  have hturn := turnsInto hs (.perform (.use name u))
  have hdeed : s.deed (.perform (.use name u)) = .use (s.names.lookup name) u := rfl
  rw [hdeed] at hturn
  refine ⟨hturn.settings, hturn.transport, hturn.cancelled.trans (Bool.or_false _), hturn.names,
    ?_, ?_⟩
  · rw [hturn.subscriptions]
    simp only [Deed.opened?, Option.toList_none, List.append_nil, List.length_mapIdx]
  · have heffect : (Deed.use (s.names.lookup name) u).effect n = id := by
      funext h
      exact if_neg hn
    rw [hturn.subscriptions]
    simp only [Deed.opened?, Option.toList_none, List.append_nil, List.getElem?_mapIdx, heffect,
      Option.map_id, id]

/-- Two sessions agree on a subscription either way round. -/
theorem Agree.symm (h : Agree n s s') : Agree n s' s :=
  ⟨h.settings.symm, h.transport.symm, h.cancelled.symm, h.names.symm, h.length.symm, h.held.symm⟩

/-- Agreement on a subscription goes from session to session. -/
theorem Agree.trans {s'' : Session} (h : Agree n s s') (h' : Agree n s' s'') : Agree n s s'' :=
  ⟨h'.settings.trans h.settings, h'.transport.trans h.transport, h'.cancelled.trans h.cancelled,
    h'.names.trans h.names, h'.length.trans h.length, h'.held.trans h.held⟩

/-- A use of another subscription is not seen, and keeps sessions in agreement. -/
theorem Agree.turn_other (hs : s.IsCalm) (h : Agree n s s') {t : Turn}
    (ht : s.isOnOther n t = true) : s.seenBy n t = [] ∧ Agree n (s.turn t) s' := by
  unfold isOnOther at ht
  split at ht
  · next name u =>
    have hn : s.names.lookup name ≠ some n := by
      intro hl
      simp [hl] at ht
    exact ⟨if_neg hn, (agree_use hs hn u).symm.trans h⟩
  · cases ht

/-- Sessions that agree on a subscription still do at the end of a run and of the run without the
uses of the others, and the same is seen of the subscription in both runs. -/
theorem Agree.after (hs : s.IsCalm) (hs' : s'.IsCalm) (h : Agree n s s') (ts : List Turn) :
    seen n s' (without n s ts) = seen n s ts ∧
      Agree n (s.after ts) (s'.after (without n s ts)) := by
  induction ts generalizing s s' with
  | nil => exact ⟨rfl, h⟩
  | cons t ts ih =>
    have hcalm := turn_isCalm hs t
    by_cases ht : s.isOnOther n t = true
    · obtain ⟨hseen, hagree⟩ := h.turn_other hs ht
      rw [without, if_pos ht, seen, hseen, List.nil_append]
      exact ih hcalm hs' hagree
    · rw [without, if_neg ht, seen, seen, h.seenBy_eq t]
      obtain ⟨hseen, hagree⟩ := ih hcalm (turn_isCalm hs' t) (h.turn hs hs' t)
      exact ⟨by rw [hseen], hagree⟩

/-- Only a use comes down to a use. -/
theorem deed_eq_use {t : Turn} {m : Option Nat} {u : Use} (h : s.deed t = .use m u) :
    ∃ name, t = .perform (.use name u) ∧ s.names.lookup name = m := by
  unfold deed at h
  split at h
  · next name u =>
    cases h
    exact ⟨name, rfl, rfl⟩
  · split at h
    · cases h
    · cases h
    · split at h <;> cases h
  · cases h
  · cases h
  · cases h
  · cases h

/-- What has been taken apart is cancelled by no turn that does not say so, whatever is dropped. -/
theorem turn_isCancelled_of_parts (hs : s.IsCalm) {h : Held} {records faults : Bool}
    (hn : s.subscriptions[n]? = some h) (hparts : h.holding = .parts records faults) {t : Turn}
    (hparent : s.cancelsParent t = false)
    (hcancel : ∀ name, t = .perform (.use name .cancel) → s.names.lookup name ≠ some n) :
    (s.turn t).isCancelled n = h.subscription.cancelled := by
  have hlt := (List.getElem?_eq_some_iff.1 hn).1
  have hcancels : s.cancels n t = false := by
    rw [cancels, hn, Option.any_some, hparts]
    cases hdeed : s.deed t with
    | use m u =>
      obtain ⟨name, rfl, hl⟩ := deed_eq_use hdeed
      cases u with
      | cancel =>
        have hm : m ≠ some n := by
          rw [← hl]
          exact hcancel name rfl
        simp [Deed.cancels, hm]
      | next | recv | error | closed | isCancelled | topic | stats | describe | drop | takeApart
      | collect | dropRecords | dropFaults | makeToken | isTokenCancelled | cancelToken =>
        exact Bool.and_false _
    | «open» name m sub => exact Bool.and_false _
    | idle | work | settle | cancelAll => rfl
  rw [turn_isCancelled hs t hlt, hcancels, hparent, Bool.or_false, Bool.or_false,
    isCancelled_of_getElem? hn]

/-- The subscriptions of a session are isolated, whatever is done in it and however its workers
take their turns, if no feed cancels all subscriptions.

All subscriptions have been cancelled just if a turn did so, and one of them is cancelled just if
all are or a turn has cancelled it alone. A use of one of them cancels neither all nor another one;
it leaves the others as they are. One that has been taken apart is not cancelled by dropping the
parts. And what is seen of one of them in a run, and what becomes of it, is what it is in the run
without the uses of the others. -/
theorem isolated (settings : SubscribeSettings) {p : Playback} (hp : p.IsCalm) (ts : List Turn) :
    let start := opening settings p
    let s := start.after ts
    (s.cancelled = happens cancelsParent start ts) ∧
    (∀ n h, s.subscriptions[n]? = some h →
      (h.subscription.cancelled = true ↔
        s.cancelled = true ∨ happens (·.cancels n) start ts = true)) ∧
    (∀ name u,
      (s.turn (.perform (.use name u))).cancelled = s.cancelled ∧
      ∀ n, s.names.lookup name ≠ some n →
        (s.turn (.perform (.use name u))).subscriptions[n]? = s.subscriptions[n]?) ∧
    (∀ n h records faults t, s.subscriptions[n]? = some h → h.holding = .parts records faults →
      s.cancelsParent t = false →
      (∀ name, t = .perform (.use name .cancel) → s.names.lookup name ≠ some n) →
      (s.turn t).isCancelled n = h.subscription.cancelled) ∧
    (∀ n, seen n start (without n start ts) = seen n start ts ∧
      (start.after (without n start ts)).subscriptions[n]? = s.subscriptions[n]?) := by
  intro start s
  have hstart : start.IsCalm := isCalm_opening hp
  have hs : s.IsCalm := after_isCalm hstart ts
  refine ⟨?_, ?_, ?_, ?_, ?_⟩
  · exact after_cancelled hstart ts
  · intro n h hn
    have hlt := (List.getElem?_eq_some_iff.1 hn).1
    have hreaches : start.ReachesAll := nofun
    have hnone : start.isCancelled n = false := isCancelled_of_le (Nat.zero_le n)
    have hcancelled := after_isCancelled hstart hreaches ts hlt
    rw [isCancelled_of_getElem? hn, hnone, Bool.false_or] at hcancelled
    rw [hcancelled, Bool.or_eq_true]
  · intro name u
    have hparent : (s.turn (.perform (.use name u))).cancelled = s.cancelled :=
      (turn_cancelled hs _).trans (Bool.or_false _)
    exact ⟨hparent, fun n hn => (agree_use hs hn u).held⟩
  · intro n h records faults t hn hparts hparent hcancel
    exact turn_isCancelled_of_parts hs hn hparts hparent hcancel
  · intro n
    obtain ⟨hseen, hagree⟩ := (Agree.refl n start).after hstart hstart ts
    exact ⟨hseen, hagree.held⟩

/-- Two subscriptions to digests of blocks, of which the first is dropped before the second is
read. -/
theorem isolated_two_digests :
    let time : Timestamp := ⟨⟨2024, 1, 1⟩, ⟨0, 0, 0, 0⟩, by decide, by decide⟩
    let digest : DigestMessage := ⟨List.replicate 32 7, 1, time⟩
    let feed : Feed (Topic.Message .blockDigests) := .message digest false .silent
    let p : Playback :=
      { feeds := fun
          | .blockDigests => [feed, feed]
          | _ => []
        mode := .ready
        requests := [] }
    let subscribe (name : String) : Turn :=
      .perform (.subscribe name .blockDigests (.ofPoint .latest) BlockStatus.sealed false)
    let start := opening .default p
    let ts : List Turn := [subscribe "a", subscribe "b", .settle, .perform (.use "a" .drop),
      .perform (.use "b" .next)]
    p.IsCalm ∧ (start.after ts).isCancelled 0 = true ∧ (start.after ts).isCancelled 1 = false ∧
      (without 1 start ts).length = 4 ∧ (seen 1 start ts).length = 1 ∧
      seen 1 start (without 1 start ts) = seen 1 start ts := by
  intro time digest feed p subscribe start ts
  have hp : p.IsCalm := by
    intro t f hf
    cases t with
    | blockDigests =>
      have hfeed : f = feed := by simpa [p] using hf
      rw [hfeed]
      exact ⟨rfl, trivial⟩
    | blocks | blockHeaders | events | executionData | accountStatuses => cases hf
  obtain ⟨-, -, -, -, hseen⟩ := isolated .default hp ts
  exact ⟨hp, by decide +kernel, by decide +kernel, by decide +kernel, by decide +kernel,
    (hseen 1).1⟩

end LedgerFeed.Session
