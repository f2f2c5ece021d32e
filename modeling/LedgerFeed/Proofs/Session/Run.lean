import LedgerFeed.Proofs.Session.Held
import LedgerFeed.Session

/-!
# Runs of a session

A run of a session interleaves what is done in it with turns of the workers of its subscriptions;
what a session does by itself after an action is one way to give them their turns (`act_eq_after`).

With the names looked up and the transport asked, a turn comes down to a `Deed`, which says what
happens to each subscription on its own. If no feed cancels all subscriptions, this is all that
happens to them (`turnsInto`), and it stays so (`turn_isCalm`).
-/

namespace LedgerFeed

/-- The worker takes its next step if it has one. -/
def Held.work (h : Held) : Held :=
  { h with subscription := h.subscription.step.getD h.subscription }

/-- A step of the worker does not cancel the subscription in hand. -/
theorem Held.becomes_work {h : Held} (hs : h.subscription.CancelsNone) :
    h.Becomes false h.work := by
  refine Held.becomes_of_harmless ?_ _ _
  cases hstep : h.subscription.step with
  | none => exact .refl hs
  | some s => exact (Subscription.Step.of_step hstep).harmless hs

/-- Nothing in the feeds cancels all subscriptions. -/
def Playback.IsCalm (p : Playback) : Prop :=
  ∀ t, ∀ feed ∈ p.feeds t, feed.IsCalm

namespace Session

/-- What can happen next in a session. -/
inductive Turn
  | perform (a : Action)
  /-- The worker of the subscription with a number takes its next step if it has one. -/
  | work (n : Nat)
  /-- All workers go on as far as they can. -/
  | settle

/-- The session after a step of one worker, in which its feed may cancel all subscriptions. -/
def work (s : Session) (n : Nat) : Session :=
  match s.subscriptions[n]? with
  | some h =>
    let s' := s.set n h.work
    if s'.hasCancelling then s'.cancelAll else s'
  | none => s

/-- The session after a turn. -/
def turn (s : Session) : Turn → Session
  | .perform a => (s.perform a).2
  | .work n => s.work n
  | .settle => s.settle

/-- The session after a run. -/
def after (s : Session) : List Turn → Session
  | [] => s
  | t :: ts => (s.turn t).after ts

/-- An action and what the workers do then are two turns. -/
theorem act_eq_after (s : Session) (a : Action) : (s.act a).2 = s.after [.perform a, .settle] := rfl

/-! ## What a turn comes down to -/

/-- What a turn means for the subscriptions, which are given by their numbers. -/
inductive Deed
  | idle
  /-- The one with a number, if a number is given, is used. -/
  | use (n : Option Nat) (u : Use)
  | work (n : Nat)
  | settle
  | cancelAll
  /-- One is opened under a name, and what the name stood for is dropped. -/
  | open (name : String) (replaced : Option Nat) (h : Held)

namespace Deed

/-- What happens to the subscription with a number. -/
def effect : Deed → Nat → Held → Held
  | .idle, _, h => h
  | .use m u, n, h => if m = some n then (h.use u).2 else h
  | .work m, n, h => if some m = some n then h.work else h
  | .settle, _, h => h.settle
  | .cancelAll, _, h => h.cancel
  | .open _ m _, n, h => if m = some n then h.drop else h

/-- The subscription that is opened. -/
def opened? : Deed → Option Held
  | .open _ _ h => some h
  | _ => none

/-- All subscriptions are cancelled. -/
def cancelsParent : Deed → Bool
  | .cancelAll => true
  | _ => false

/-- The subscription with a number, of which something is left in hand, is cancelled alone: by a use
that cancels it, or because another one takes its name while it is whole. -/
def cancels (d : Deed) (n : Nat) (holding : Holding) : Bool :=
  match d with
  | .use m u => m = some n && holding.isCancelledBy u
  | .open _ m _ => m = some n && holding.isWhole
  | _ => false

/-- The names after a turn, where a new subscription has a given number. -/
def names (d : Deed) (number : Nat) (before : List (String × Nat)) : List (String × Nat) :=
  match d with
  | .open name _ _ => (name, number) :: before
  | _ => before

end Deed

section
variable (s : Session)

/-- What comes of asking for a subscription now, and the transport then. -/
def ask {t : Topic} (start : StartOptions) (selection : t.Selection) : Subscribing t × Playback :=
  Client.subscribe Playback.transport s.settings s.cancelled start selection s.transport

/-- What a turn comes down to. -/
def deed : Turn → Deed
  | .perform (.use name u) => .use (s.names.lookup name) u
  | .perform (.subscribe name _ start selection cancelWhileWaiting) =>
    match (s.ask start selection).1 with
    | .subscribed sub => .open name (s.names.lookup name) (.ofSubscription sub)
    | .refused _ => .idle
    | .waiting => if cancelWhileWaiting then .cancelAll else .idle
  | .perform .cancelAll => .cancelAll
  | .perform _ => .idle
  | .work n => .work n
  | .settle => .settle

/-- The settings after a turn. -/
def settingsAfter : Turn → SubscribeSettings
  | .perform (.configure settings) => settings
  | _ => s.settings

/-- The transport after a turn. -/
def transportAfter : Turn → Playback
  | .perform (.subscribe _ _ start selection _) => (s.ask start selection).2
  | .perform (.setMode mode) => { s.transport with mode }
  | _ => s.transport

end

/-- What a turn that comes down to a deed does to a session. -/
structure TurnsInto (s : Session) (t : Turn) (d : Deed) (s' : Session) : Prop where
  settings : s'.settings = s.settingsAfter t
  transport : s'.transport = s.transportAfter t
  cancelled : s'.cancelled = (s.cancelled || d.cancelsParent)
  subscriptions : s'.subscriptions = s.subscriptions.mapIdx d.effect ++ d.opened?.toList
  names : s'.names = d.names s.subscriptions.length s.names

/-- Nothing in the session cancels all subscriptions by itself. -/
structure IsCalm (s : Session) : Prop where
  transport : s.transport.IsCalm
  subscriptions : ∀ h ∈ s.subscriptions, h.subscription.CancelsNone

/-- A session is calm at its opening if its transport is. -/
theorem isCalm_opening {settings : SubscribeSettings} {p : Playback} (hp : p.IsCalm) :
    (opening settings p).IsCalm :=
  ⟨hp, List.forall_mem_nil _⟩

/-- In a calm session, no feed is about to cancel all subscriptions. -/
theorem IsCalm.hasCancelling {s : Session} (hs : s.IsCalm) : s.hasCancelling = false := by
  refine List.any_eq_false.2 ?_
  intro h hh
  simp [(hs.subscriptions h hh).cancelsAll]

/-! ## Changes of one subscription -/

/-- The subscription with a number, if one is given and there is one, is changed. -/
def change (s : Session) (n : Option Nat) (f : Held → Held) : Session :=
  { s with subscriptions := s.subscriptions.mapIdx fun i h => if n = some i then f h else h }

section
variable {s : Session} {f : Held → Held}

/-- A change of a subscription that there is not changes nothing. -/
theorem change_of_not_mem {n : Option Nat} (h : ∀ i ∈ n, s.subscriptions[i]? = none) :
    s.change n f = s := by
  have hsubs : (s.subscriptions.mapIdx fun i h => if n = some i then f h else h) =
      s.subscriptions := by
    refine List.ext_getElem? ?_
    intro i
    rw [List.getElem?_mapIdx]
    by_cases hi : n = some i
    · rw [h i hi]
      rfl
    · simp [hi]
  rw [change, hsubs]

/-- To put a changed subscription in its place is to change it there. -/
theorem set_eq_change {n : Nat} {h : Held} (hn : s.subscriptions[n]? = some h) :
    s.set n (f h) = s.change (some n) f := by
  have hsubs : s.subscriptions.set n (f h) =
      s.subscriptions.mapIdx fun i h => if some n = some i then f h else h := by
    refine List.ext_getElem? ?_
    intro i
    rw [List.getElem?_set, List.getElem?_mapIdx]
    by_cases hi : n = i
    · subst hi
      obtain ⟨hlt, rfl⟩ := List.getElem?_eq_some_iff.1 hn
      simp [hlt]
    · simp [hi]
  rw [set, change, hsubs]

/-- A name stands for a subscription, or changing what it stands for changes nothing. -/
theorem find?_cases (s : Session) (name : String) :
    (∃ n h, s.find? name = some (n, h) ∧ s.names.lookup name = some n ∧
      s.subscriptions[n]? = some h) ∨
    (s.find? name = none ∧ ∀ f, s.change (s.names.lookup name) f = s) := by
  cases hl : s.names.lookup name with
  | none => exact .inr ⟨by simp [find?, hl], fun f => change_of_not_mem nofun⟩
  | some n =>
    cases hn : s.subscriptions[n]? with
    | none =>
      refine .inr ⟨by simp [find?, hl, hn], fun f => change_of_not_mem ?_⟩
      rintro _ ⟨⟩
      exact hn
    | some h => exact .inl ⟨n, h, by simp [find?, hl, hn], rfl, hn⟩

/-- A use by name changes the subscription of that name, if there is one. -/
theorem use_eq (s : Session) (name : String) (u : Use) :
    (s.use name u).2 = s.change (s.names.lookup name) fun h => (h.use u).2 := by
  rcases s.find?_cases name with ⟨n, h, hfind, hl, hn⟩ | ⟨hfind, hchange⟩
  · rw [use, hfind, hl]
    exact set_eq_change (f := fun h => (h.use u).2) hn
  · rw [use, hfind, hchange]

/-- To drop a name is to drop the subscription of that name, if there is one. -/
theorem dropName_eq (s : Session) (name : String) :
    s.dropName name = s.change (s.names.lookup name) Held.drop := by
  rcases s.find?_cases name with ⟨n, h, hfind, hl, hn⟩ | ⟨hfind, hchange⟩
  · rw [dropName, hfind, hl]
    exact set_eq_change hn
  · rw [dropName, hfind, hchange]

/-- A step of one worker changes its subscription alone. -/
theorem work_eq (hs : s.IsCalm) (n : Nat) : s.work n = s.change (some n) Held.work := by
  have hcalm : (s.change (some n) Held.work).IsCalm := by
    refine ⟨hs.transport, ?_⟩
    intro h hh
    obtain ⟨i, hi, rfl⟩ := List.mem_mapIdx.1 hh
    have hold := hs.subscriptions _ (List.getElem_mem hi)
    by_cases hin : some n = some i
    · rw [if_pos hin]
      exact (Held.becomes_work hold).cancelsNone
    · rw [if_neg hin]
      exact hold
  unfold work
  split
  · next h hn =>
    have hset := set_eq_change (f := Held.work) hn
    simp only [hset, hcalm.hasCancelling, Bool.false_eq_true, if_false]
  · next hn =>
    refine (change_of_not_mem ?_).symm
    rintro _ ⟨⟩
    exact hn

/-- Calm workers go on each for itself until all wait. -/
theorem settle_eq (hs : s.IsCalm) : s.settle = s.settleAll := by
  have hcalm : s.settleAll.IsCalm := by
    refine ⟨hs.transport, ?_⟩
    intro h hh
    obtain ⟨before, hbefore, rfl⟩ := List.mem_map.1 hh
    exact (Held.becomes_settle (hs.subscriptions before hbefore)).cancelsNone
  simp only [settle, hcalm.hasCancelling, Bool.false_eq_true, if_false]

end

/-! ## Turns -/

section
variable {s : Session}

/-- What comes of asking decides what becomes of the session. -/
theorem subscribe_eq (s : Session) (name : String) (t : Topic) (start : StartOptions)
    (selection : t.Selection) (cancelWhileWaiting : Bool) :
    s.subscribe name t start selection cancelWhileWaiting =
      let s' := { s with transport := (s.ask start selection).2 }
      match (s.ask start selection).1 with
      | .subscribed sub => (.subscribed, s'.add name sub)
      | .refused e => (.refused e, s')
      | .waiting =>
        if cancelWhileWaiting then (.refused (.opening .cancelled), s'.cancelAll)
        else (.used .pending, s') := rfl

/-- A turn does what it comes down to, and that is all, if nothing cancels all subscriptions by
itself. -/
theorem turnsInto (hs : s.IsCalm) (t : Turn) : s.TurnsInto t (s.deed t) (s.turn t) := by
  have hall : ∀ f : Held → Held,
      s.subscriptions.map f = (s.subscriptions.mapIdx fun _ h => f h) ++ [] := by
    intro f
    refine List.ext_getElem? ?_
    intro i
    rw [List.append_nil, List.getElem?_mapIdx, List.getElem?_map]
  have hnone : s.subscriptions = (s.subscriptions.mapIdx fun _ h => h) ++ [] := by
    rw [← hall, List.map_id']
  have hchange : ∀ n f, (s.change n f).subscriptions =
      (s.subscriptions.mapIdx fun i h => if n = some i then f h else h) ++ [] :=
    fun n f => (List.append_nil _).symm
  have hkept : s.cancelled = (s.cancelled || false) := (Bool.or_false _).symm
  have hfired : true = (s.cancelled || true) := (Bool.or_true _).symm
  cases t with
  | work n =>
    rw [turn, work_eq hs]
    exact ⟨rfl, rfl, hkept, hchange _ _, rfl⟩
  | settle =>
    rw [turn, settle_eq hs]
    exact ⟨rfl, rfl, hkept, hall _, rfl⟩
  | perform a =>
    cases a with
    | subscribe name t start selection cancelWhileWaiting =>
      rw [turn, perform, subscribe_eq, deed]
      cases hask : (s.ask start selection).1 with
      | subscribed sub =>
        dsimp only [add]
        rw [dropName_eq]
        refine ⟨rfl, rfl, hkept, rfl, ?_⟩
        simp only [change, List.length_mapIdx]
        rfl
      | refused e => exact ⟨rfl, rfl, hkept, hnone, rfl⟩
      | waiting =>
        cases cancelWhileWaiting with
        | true => exact ⟨rfl, rfl, hfired, hall _, rfl⟩
        | false => exact ⟨rfl, rfl, hkept, hnone, rfl⟩
    | use name u =>
      rw [turn, perform, use_eq]
      exact ⟨rfl, rfl, hkept, hchange _ _, rfl⟩
    | cancelAll => exact ⟨rfl, rfl, hfired, hall _, rfl⟩
    | configure | setMode | isAllCancelled | countLive | lastRequest =>
      exact ⟨rfl, rfl, hkept, hnone, rfl⟩

/-- A subscription after a turn is one from before with what the turn does to it, or the one that
the turn has opened. -/
theorem TurnsInto.getElem?_eq_some {t : Turn} {d : Deed} {s' : Session} (h : s.TurnsInto t d s')
    {n : Nat} {after : Held} :
    s'.subscriptions[n]? = some after ↔
      (∃ before, s.subscriptions[n]? = some before ∧ d.effect n before = after) ∨
      (n = s.subscriptions.length ∧ d.opened? = some after) := by
  rw [h.subscriptions, List.getElem?_append, List.length_mapIdx]
  by_cases hn : n < s.subscriptions.length
  · rw [if_pos hn, List.getElem?_mapIdx]
    simp [Nat.ne_of_lt hn]
  · rw [if_neg hn]
    have hold : s.subscriptions[n]? = none := List.getElem?_eq_none (Nat.le_of_not_lt hn)
    cases d.opened? with
    | none => simp [hold]
    | some h =>
      rw [Option.toList_some, List.getElem?_singleton]
      by_cases heq : n = s.subscriptions.length
      · subst heq
        simp
      · have hsub : n - s.subscriptions.length ≠ 0 := by omega
        simp [hold, heq, hsub]

/-- What a deed does to a subscription: it is cancelled by what cancels all of them, or alone. -/
theorem Deed.effect_becomes (d : Deed) (n : Nat) {h : Held} (hh : h.subscription.CancelsNone) :
    h.Becomes (d.cancels n h.holding || d.cancelsParent) (d.effect n h) := by
  cases d with
  | idle => exact Held.becomes_self hh
  | settle => exact Held.becomes_settle hh
  | cancelAll => exact Held.becomes_cancel hh
  | work m =>
    by_cases hm : some m = some n
    · rw [effect, if_pos hm]
      exact Held.becomes_work hh
    · rw [effect, if_neg hm]
      exact Held.becomes_self hh
  | use m u =>
    by_cases hm : m = some n
    · simpa [effect, cancels, cancelsParent, hm] using Held.becomes_use u hh
    · simpa [effect, cancels, cancelsParent, hm] using Held.becomes_self hh
  | «open» name m h =>
    by_cases hm : m = some n
    · simpa [effect, cancels, cancelsParent, hm] using Held.becomes_drop hh
    · simpa [effect, cancels, cancelsParent, hm] using Held.becomes_self hh

/-- Asking for a subscription leaves the feeds but for the one that it takes. -/
theorem ask_feeds {t : Topic} {start : StartOptions} {selection : t.Selection} :
    ∀ u, ∀ feed ∈ (s.ask start selection).2.feeds u, feed ∈ s.transport.feeds u := by
  intro u feed hfeed
  unfold ask Client.subscribe at hfeed
  split at hfeed
  · exact hfeed
  split at hfeed
  · exact hfeed
  simp only [Playback.transport, Playback.play, Playback.remember] at hfeed
  split at hfeed
  · exact hfeed
  · exact hfeed
  split at hfeed
  · exact hfeed
  simp only [Playback.take] at hfeed
  split at hfeed
  · exact List.mem_of_mem_tail hfeed
  · exact hfeed

/-- Who gets a subscription has not cancelled all of them, and gets it with a feed of the
transport. -/
theorem ask_subscribed {t : Topic} {start : StartOptions} {selection : t.Selection}
    {sub : Subscription t} (h : (s.ask start selection).1 = .subscribed sub) :
    s.cancelled = false ∧ ∃ feed ∈ s.transport.feeds t, sub = .ofFeed s.settings feed := by
  unfold ask Client.subscribe at h
  split at h
  · cases h
  split at h
  · cases h
  next hc =>
  refine ⟨Bool.eq_false_iff.2 hc, ?_⟩
  simp only [Playback.transport, Playback.play, Playback.remember] at h
  split at h
  · cases h
  · cases h
  split at h
  · cases h
  next feed rest hfeeds =>
    cases h
    exact ⟨feed, by rw [hfeeds]; exact List.mem_cons_self, rfl⟩

/-- A subscription that is opened is not cancelled, and nor are all of them. -/
theorem deed_opened {t : Turn} {h : Held} (ho : (s.deed t).opened? = some h) :
    s.cancelled = false ∧ (s.deed t).cancelsParent = false ∧ h.subscription.cancelled = false ∧
      (s.transport.IsCalm → h.subscription.CancelsNone) := by
  unfold deed at ho ⊢
  split at ho
  · cases ho
  · split at ho
    · next sub hask =>
      cases ho
      obtain ⟨hc, feed, hfeed, rfl⟩ := ask_subscribed hask
      exact ⟨hc, rfl, rfl, fun hcalm => ⟨hcalm _ _ hfeed, rfl⟩⟩
    · cases ho
    · split at ho <;> cases ho
  · cases ho
  · cases ho
  · cases ho
  · cases ho

/-- The transport stays calm over a turn. -/
theorem transportAfter_isCalm (hs : s.transport.IsCalm) (t : Turn) :
    (s.transportAfter t).IsCalm := by
  unfold transportAfter
  split
  · exact fun u feed hfeed => hs u feed (ask_feeds u feed hfeed)
  · exact hs
  · exact hs

/-- A turn leaves a calm session calm. -/
theorem turn_isCalm (hs : s.IsCalm) (t : Turn) : (s.turn t).IsCalm := by
  have hturn := turnsInto hs t
  constructor
  · rw [hturn.transport]
    exact transportAfter_isCalm hs.transport t
  · intro h hh
    obtain ⟨n, hn⟩ := List.getElem?_of_mem hh
    rcases hturn.getElem?_eq_some.1 hn with ⟨before, hbefore, rfl⟩ | ⟨-, ho⟩
    · have hcalm := hs.subscriptions _ (List.mem_of_getElem? hbefore)
      exact ((s.deed t).effect_becomes n hcalm).cancelsNone
    · exact (deed_opened ho).2.2.2 hs.transport

/-- A run leaves a calm session calm. -/
theorem after_isCalm (hs : s.IsCalm) (ts : List Turn) : (s.after ts).IsCalm := by
  induction ts generalizing s with
  | nil => exact hs
  | cons t ts ih => exact ih (turn_isCalm hs t)

end

end Session

end LedgerFeed
