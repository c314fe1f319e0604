import FleetManagement.Library.Runs
import Mathlib.Tactic.SplitIfs

/-!
# Polling on the fleet map

`static/js/views/map.js`: the timer, the pending positions requests and the three things that are to stop
them (the live switch, the hidden tab and the end of the page). Handlers run to their end, and `refresh`
suspends at its request.
-/

namespace FleetManagement

/-- `POLL_MS` -/
def pollMs : Nat := 3000

/-- What holds when a positions request is issued. -/
structure PollContext where
  live : Bool
  hidden : Bool
  left : Bool
  deriving DecidableEq, Repr

structure MapView where
  live : Bool
  /-- `document.hidden` -/
  hidden : Bool
  /-- The cleanup of `ctx.onLeave` has run. -/
  left : Bool
  /-- The delay of the armed timer. -/
  timer : Option Nat
  failures : Nat
  /-- The calls of `refresh` that wait for their response. -/
  pending : Nat
  /-- The requests issued after the one of `onMount`. -/
  requests : List PollContext
  deriving DecidableEq, Repr

inductive Refreshed where
  | shown
  /-- The positions have come, and showing them throws. -/
  | notShown
  | failed
  deriving DecidableEq, Repr

inductive MapEvent where
  | timerFires
  | response (r : Refreshed)
  | hide
  | unhide
  /-- A click on the live button. -/
  | click
  | leave
  deriving DecidableEq, Repr

namespace MapView

/-- The view with the request of `onMount` under way. -/
def mounted (hidden : Bool) : MapView := ⟨true, hidden, false, none, 0, 1, []⟩

/-- `refresh` up to its request. -/
def refresh (s : MapView) : MapView :=
  { s with pending := s.pending + 1, requests := s.requests ++ [⟨s.live, s.hidden, s.left⟩] }

/-- `refresh` from its response on. -/
def refreshed (s : MapView) (r : Refreshed) : MapView :=
  { s with
    pending := s.pending - 1
    failures := match r with
      | .shown => 0
      | .notShown => 1
      | .failed => s.failures + 1 }

def clearTimer (s : MapView) : MapView := { s with timer := none }

def schedule (s : MapView) : MapView :=
  if s.live ∧ ¬s.hidden then { s with timer := some (pollMs * min 4 (1 + s.failures)) } else s.clearTimer

/-- `tick` up to its request; `schedule` follows the response. -/
def tick (s : MapView) : MapView := s.refresh

def onVisibility (s : MapView) : MapView := if s.hidden then s.clearTimer else s.tick

def onClick (s : MapView) : MapView :=
  let s := { s with live := !s.live }
  if s.live then s.tick else s.clearTimer

/-- The cleanup, which also takes the visibility listener away. -/
def onLeave (s : MapView) : MapView := { s.clearTimer with left := true }

def onTimer (s : MapView) : MapView := if s.timer = none then s else s.clearTimer.tick

def onResponse (s : MapView) (r : Refreshed) : MapView :=
  if s.pending = 0 then s else (s.refreshed r).schedule

/-- The tab becomes hidden or visible, and the listener runs while it is there. -/
def setHidden (s : MapView) (hidden : Bool) : MapView :=
  if s.hidden = hidden then s
  else if s.left then { s with hidden }
  else { s with hidden }.onVisibility

def step (s : MapView) : MapEvent → MapView
  | .timerFires => s.onTimer
  | .response r => s.onResponse r
  | .hide => s.setHidden true
  | .unhide => s.setHidden false
  | .click => s.onClick
  | .leave => if s.left then s else s.onLeave

end MapView

/-! ## When requests are issued -/

def PollContext.Allowed (c : PollContext) : Prop := c.left = false ∧ c.live = true ∧ c.hidden = false

def MapView.OnlyAllowed (s : MapView) : Prop := ∀ c ∈ s.requests, c.Allowed

/-- All requests so far were allowed, and so is the one that an armed timer would issue. -/
structure MapView.PollsRightly (s : MapView) : Prop where
  issued : s.OnlyAllowed
  armed : s.onTimer.OnlyAllowed

/-- No response comes while it would start the timer of a page that has been left; the tab is not shown
again while paused; and the live mode is not switched on while the tab is hidden or the page has been left. -/
def MapView.Meets (s : MapView) : MapEvent → Prop
  | .response _ => 0 < s.pending → s.live = true → s.hidden = false → s.left = false
  | .unhide => s.hidden = true → s.left = false → s.live = true
  | .click => s.live = false → s.hidden = false ∧ s.left = false
  | _ => True

section Polling
variable {s : MapView}

structure MapView.Inv (s : MapView) : Prop where
  issued : s.OnlyAllowed
  armed : s.timer ≠ none → s.left = false ∧ s.live = true ∧ s.hidden = false

theorem MapView.OnlyAllowed.refresh (h : s.OnlyAllowed)
    (hs : s.left = false ∧ s.live = true ∧ s.hidden = false) : s.refresh.OnlyAllowed := by
  intro c hc
  rcases List.mem_append.mp hc with hc | hc
  · exact h c hc
  · rw [List.mem_singleton.mp hc]
    exact hs

/-- A request is among those that have been issued. -/
theorem MapView.OnlyAllowed.of_refresh (h : s.refresh.OnlyAllowed) :
    s.left = false ∧ s.live = true ∧ s.hidden = false :=
  h ⟨s.live, s.hidden, s.left⟩ (List.mem_append_right _ (List.mem_singleton_self _))

theorem MapView.Inv.pollsRightly (h : s.Inv) : s.PollsRightly := by
  refine ⟨h.issued, ?_⟩
  unfold MapView.onTimer
  split_ifs with ht
  · exact h.issued
  · exact MapView.OnlyAllowed.refresh (s := s.clearTimer) h.issued (h.armed ht)

/-! ## Handler by handler -/

theorem inv_clearTimer (h : s.OnlyAllowed) : s.clearTimer.Inv := ⟨h, fun ht => absurd rfl ht⟩

theorem inv_tick (h : s.Inv) (hs : s.left = false ∧ s.live = true ∧ s.hidden = false) : s.tick.Inv :=
  ⟨h.issued.refresh hs, fun _ => hs⟩

theorem inv_schedule (h : s.OnlyAllowed) (hleft : s.live = true → s.hidden = false → s.left = false) :
    s.schedule.Inv := by
  unfold MapView.schedule
  split_ifs with hs
  · obtain ⟨hlive, hhidden⟩ := hs
    have hvisible : s.hidden = false := Bool.eq_false_iff.mpr hhidden
    exact ⟨h, fun _ => ⟨hleft hlive hvisible, hlive, hvisible⟩⟩
  · exact inv_clearTimer h

theorem inv_onTimer (h : s.Inv) : s.onTimer.Inv := by
  unfold MapView.onTimer
  split_ifs with ht
  · exact h
  · exact inv_tick (inv_clearTimer h.issued) (h.armed ht)

theorem inv_onResponse (h : s.Inv) {r : Refreshed} (hmeets : s.Meets (.response r)) :
    (s.onResponse r).Inv := by
  unfold MapView.onResponse
  split_ifs with hpending
  · exact h
  · exact inv_schedule (s := s.refreshed r) h.issued (hmeets (Nat.pos_of_ne_zero hpending))

theorem inv_hide (h : s.Inv) : (s.setHidden true).Inv := by
  unfold MapView.setHidden
  split_ifs with hhidden hleft
  · exact h
  · -- no timer of a page that has been left
    refine ⟨h.issued, fun ht => ?_⟩
    obtain ⟨hstays, -⟩ := h.armed ht
    rw [hleft] at hstays
    cases hstays
  · exact inv_clearTimer (s := { s with hidden := true }) h.issued

theorem inv_unhide (h : s.Inv) (hmeets : s.Meets .unhide) : (s.setHidden false).Inv := by
  unfold MapView.setHidden
  split_ifs with hvisible hleft
  · exact h
  · refine ⟨h.issued, fun ht => ?_⟩
    obtain ⟨hstays, -⟩ := h.armed ht
    rw [hleft] at hstays
    cases hstays
  · have hstays : s.left = false := Bool.eq_false_iff.mpr hleft
    have hlive : s.live = true := hmeets (Bool.not_eq_false _ ▸ hvisible) hstays
    exact inv_tick (s := { s with hidden := false }) ⟨h.issued, fun _ => ⟨hstays, hlive, rfl⟩⟩
      ⟨hstays, hlive, rfl⟩

theorem inv_onClick (h : s.Inv) (hmeets : s.Meets .click) : s.onClick.Inv := by
  unfold MapView.onClick
  cases hlive : s.live with
  | true => exact inv_clearTimer (s := { s with live := false }) h.issued
  | false =>
      obtain ⟨hvisible, hstays⟩ := hmeets hlive
      exact inv_tick (s := { s with live := true }) ⟨h.issued, fun _ => ⟨hstays, rfl, hvisible⟩⟩
        ⟨hstays, rfl, hvisible⟩

theorem inv_step (h : s.Inv) {e : MapEvent} (hmeets : s.Meets e) : (s.step e).Inv := by
  cases e with
  | timerFires => exact inv_onTimer h
  | response r => exact inv_onResponse h hmeets
  | hide => exact inv_hide h
  | unhide => exact inv_unhide h hmeets
  | click => exact inv_onClick h hmeets
  | leave =>
      show (if s.left then s else s.onLeave).Inv
      split_ifs
      · exact h
      · exact ⟨h.issued, fun ht => absurd rfl ht⟩

/-! ## Steps that must meet the condition -/

/-- A response that must not come arms the timer, which issues a request for a page that has been left. -/
theorem meets_of_response {r : Refreshed} (h : (s.onResponse r).PollsRightly) : s.Meets (.response r) := by
  intro hpending hlive hvisible
  have harmed := h.armed
  unfold MapView.onResponse MapView.schedule at harmed
  rw [if_neg (Nat.pos_iff_ne_zero.mp hpending), if_pos ⟨hlive, by
    show ¬s.hidden = true
    rw [hvisible]
    decide⟩] at harmed
  exact harmed.of_refresh.1

theorem meets_of_unhide (h : (s.setHidden false).OnlyAllowed) : s.Meets .unhide := by
  intro hhidden hstays
  unfold MapView.setHidden at h
  rw [if_neg (by rw [hhidden]; decide), if_neg (by rw [hstays]; decide)] at h
  exact h.of_refresh.2.1

theorem meets_of_click (h : s.onClick.OnlyAllowed) : s.Meets .click := by
  intro hpaused
  unfold MapView.onClick at h
  rw [hpaused] at h
  obtain ⟨hstays, -, hvisible⟩ := h.of_refresh
  exact ⟨hvisible, hstays⟩

theorem meets_of_pollsRightly {e : MapEvent} (h : (s.step e).PollsRightly) : s.Meets e := by
  cases e with
  | timerFires => trivial
  | hide => trivial
  | leave => trivial
  | response r => exact meets_of_response h
  | unhide => exact meets_of_unhide h.issued
  | click => exact meets_of_click h.issued

end Polling

/-! ## Runs -/

/-- In a run of the view, all requests are allowed and no armed timer would issue another one, exactly if
every event of the run meets the condition. -/
theorem polls_rightly_iff (hidden : Bool) (es : List MapEvent) :
    (∀ s, Runs.Visits MapView.step (MapView.mounted hidden) es s → s.PollsRightly) ↔
      ∀ s e, Runs.Takes MapView.step (MapView.mounted hidden) es s e → s.Meets e :=
  Runs.invariant_iff_guarded (J := MapView.Inv) (fun _ h => h.pollsRightly) (fun _ _ h => inv_step h)
    (fun _ _ _ h => meets_of_pollsRightly h) ⟨fun _ hc => (by cases hc), fun ht => absurd rfl ht⟩

/-- The page is left while its first request is under way. -/
theorem late_response_polls_on : ∃ c ∈ (Runs.run MapView.step (MapView.mounted false)
    [.leave, .response .shown, .timerFires]).requests, ¬c.Allowed := by
  refine ⟨⟨true, false, true⟩, by decide, ?_⟩
  rintro ⟨hleft, -⟩
  cases hleft

end FleetManagement
