import Mathlib
import Swinx.LTS.Basic
import Swinx.Window.Clip

/-!
# Repainting a window

`InvalidateRect` adds a rectangle to `invalid.hRgn` and asks the X server for an expose event, at
most one in 16 ms; a later request waits for the timer `TM_DELAY`.  The event becomes a `WM_PAINT`,
or is merged into the one that is queued.  `CallWindowProcPriv` selects the region as the clip,
calls the handler of `WM_ERASEBKGND`, a `WH_CALLWNDPROC` hook, the handlers of `WM_PAINT`, if the
hook does not skip it, and of `WM_NCPAINT`, and only then clears the region.

The model has one visible window.  `pending` records the points that were invalidated and have not
been inside the clip of a `WM_PAINT` handler that started afterwards.

* `noneLost_iff` — no invalidation is lost exactly as long as the region is cleared with no point
  pending.
* `noneLost_of_quiet` — it suffices that nothing is invalidated from the start of a `WM_PAINT`
  handler to the end of `WM_NCPAINT` or where the handler is clipped, no `WM_PAINT` is dispatched by
  `WM_ERASEBKGND`, and no hook skips a handler.
-/

namespace Swinx

namespace Paint

open Region (RECT)
open Clip (isRectEmpty)

/-- A region, as the set of its points. -/
abbrev Region := Finset (ℤ × ℤ)

/-- The coordinates from `a` to `b - 1`. -/
def coords (a b : ℤ) : Finset ℤ := (Finset.range (b - a).toNat).image fun i : ℕ => a + i

/-- `CreateRectRgnIndirect`, which puts the sides in order. -/
def rectRgn (rc : RECT) : Region :=
  coords (min rc.left rc.right) (max rc.left rc.right) ×ˢ
    coords (min rc.top rc.bottom) (max rc.top rc.bottom)

/-- `OffsetRgn` -/
def offsetRgn (rgn : Region) (x y : ℤ) : Region := rgn.image fun p => (p.1 + x, p.2 + y)

/-- What does not change about the window. -/
structure Wnd where
  width : ℤ
  height : ℤ
  /-- `WS_BORDER` -/
  border : Bool
  /-- `GetSystemMetrics(SM_CXEDGE)` -/
  cxEdge : ℤ
  /-- `GetSystemMetrics(SM_CYEDGE)` -/
  cyEdge : ℤ
  /-- What `GetDCEx` clips the DC of a handler to: the client area if `SaveDC` has returned 0, which
  it does for no DC of `HDC__::SaveState`. -/
  handlerClip : Option Region

/-- The whole window, from its corner. -/
def Wnd.rect (w : Wnd) : RECT := ⟨0, 0, w.width, w.height⟩

/-- The region of an expose event in client coordinates. -/
def Wnd.toClient (w : Wnd) (rgn : Region) : Region :=
  if w.border then offsetRgn rgn (-w.cxEdge) (-w.cyEdge) else rgn

/-- Least time between two expose events, in ms. -/
def kMinInterval : ℕ := 16

/-- A `WM_PAINT` in progress: which of its handlers is running. -/
inductive Phase
  /-- `WM_ERASEBKGND`; `saved` is the clip that `ReleaseDC` restores. -/
  | erase (saved : Option Region)
  /-- The `WH_CALLWNDPROC` hook. -/
  | hook
  | paint
  | ncpaint
  deriving DecidableEq

/-- Its `WM_PAINT` handler is still to be called. -/
def Phase.starting : Phase → Bool
  | .erase _ | .hook => true
  | .paint | .ncpaint => false

/-- The window, its repaint requests and the clock. -/
structure State where
  now : ℕ
  /-- `invalid.hRgn` -/
  invalid : Region
  /-- `invalid.bErase` -/
  bErase : Bool
  nSizing : ℕ
  /-- `bDelayPaint` -/
  bDelayPaint : Bool
  /-- `tsPaint`, `none` for -1. -/
  tsPaint : Option ℕ
  /-- The timer `TM_DELAY` is in the timer list. -/
  timer : Bool
  /-- How many `WM_TIMER` of it are queued. -/
  timerMsgs : ℕ
  /-- The expose events on their way. -/
  exposes : List Region
  /-- The queued `WM_PAINT` and its region. -/
  paintMsg : Option Region
  /-- The clip of the window's DC, `none` for no clip. -/
  clip : Option Region
  /-- The `WM_PAINT`s in progress, the innermost first. -/
  phases : List Phase
  /-- Invalidated, and not since inside the clip of a `WM_PAINT` handler when it started. -/
  pending : Region

/-- What can happen to the window. -/
inductive Act
  | tick (ms : ℕ)
  | invalidateRect (lpRect : Option RECT) (bErase : Bool)
  /-- The X server exposes a part of the window. -/
  | xExpose (rgn : Region)
  /-- `pushEvent` of the next expose event. -/
  | pushExpose
  | timerFires
  /-- `peekMsg` meets a `WM_TIMER` of `TM_DELAY`. -/
  | peekDelay
  | dispatchPaint
  /-- `SendMessage(WM_PAINT)`, as `UpdateWindow` does. -/
  | sendPaint
  /-- The handler of `WM_ERASEBKGND` returns. -/
  | eraseDone
  /-- The hook returns; is the handler skipped? -/
  | hookDone (bSkipMsg : Bool)
  /-- The handler of `WM_PAINT` returns. -/
  | paintDone
  /-- The handler of `WM_NCPAINT` returns. -/
  | ncpaintDone
  | beginSize
  | endSize
  deriving DecidableEq

/-- A new window. -/
def init : State :=
  ⟨0, ∅, true, 0, false, none, false, 0, [], none, none, [], ∅⟩

namespace State

/-- `SendExposeEvent` -/
def sendExposeEvent (s : State) (bForce : Bool) : State :=
  let sent : State :=
    { s with bDelayPaint := false, tsPaint := some s.now, exposes := s.exposes ++ [∅] }
  match s.tsPaint with
  | none => sent
  | some ts =>
    if bForce = false ∧ s.now - ts < kMinInterval then
      if s.bDelayPaint then s else { s with bDelayPaint := true, timer := true }
    else sent

/-- `InvalidateRect` -/
def invalidateRect (s : State) (w : Wnd) (lpRect : Option RECT) (bErase : Bool) : State :=
  if s.nSizing > 0 then s
  else
    let rc := lpRect.getD w.rect
    if isRectEmpty rc then s
    else
      { s with
        invalid := s.invalid ∪ rectRgn rc
        bErase := s.bErase || bErase
        pending := s.pending ∪ rectRgn rc }.sendExposeEvent false

/-- `pushEvent` for an expose event. -/
def pushExpose (s : State) (rgn : Region) : State :=
  match s.paintMsg with
  | some old => { s with paintMsg := some (old ∪ rgn) }
  | none => { s with paintMsg := some rgn }

/-- The handler of `WM_PAINT` is called, which paints inside the clip that its DC has: the one that
has been selected, or that of a DC that was not saved. -/
def startHandler (s : State) (w : Wnd) (phases : List Phase) : State :=
  { s with
    phases := .paint :: phases
    pending :=
      match s.clip.or w.handlerClip with
      | none => ∅
      | some clip => s.pending \ clip }

/-- `CallWindowProcPriv` of `WM_PAINT` up to the first handler, or to the hook. -/
def beginPaint (s : State) (w : Wnd) (lp : Option Region) : State :=
  let s := { s with invalid := s.invalid ∪ (lp.map w.toClient).getD ∅ }
  if s.bErase = true ∨ lp.isSome = true then
    -- `GetDC` saves the clip, `SelectClipRgn` replaces it
    { s with clip := some s.invalid, phases := .erase s.clip :: s.phases }
  else { s with phases := .hook :: s.phases }

end State

/-- One step of the window `w`. -/
def next (w : Wnd) (s : State) : Act → Option State
  | .tick ms => some { s with now := s.now + ms }
  | .invalidateRect lpRect bErase => some (s.invalidateRect w lpRect bErase)
  | .xExpose rgn => some { s with exposes := s.exposes ++ [rgn] }
  | .pushExpose =>
    match s.exposes with
    | rgn :: exposes => some ({ s with exposes }.pushExpose rgn)
    | [] => none
  | .timerFires => if s.timer then some { s with timerMsgs := s.timerMsgs + 1 } else none
  | .peekDelay =>
    if s.timerMsgs = 0 then none
    else
      -- `KillTimer` removes the other messages of the timer as well
      let timerMsgs := if s.timer then 0 else s.timerMsgs - 1
      some ({ s with timer := false, timerMsgs }.sendExposeEvent true)
  | .dispatchPaint =>
    s.paintMsg.map fun rgn => { s with paintMsg := none }.beginPaint w (some rgn)
  | .sendPaint => some (s.beginPaint w none)
  | .eraseDone =>
    match s.phases with
    | .erase saved :: phases =>
      some { s with bErase := false, clip := saved, phases := .hook :: phases }
    | _ => none
  | .hookDone bSkipMsg =>
    match s.phases with
    | .hook :: phases =>
      some (if bSkipMsg then { s with phases := .ncpaint :: phases } else s.startHandler w phases)
    | _ => none
  | .paintDone =>
    match s.phases with
    | .paint :: phases => some { s with phases := .ncpaint :: phases }
    | _ => none
  | .ncpaintDone =>
    match s.phases with
    | .ncpaint :: phases => some { s with invalid := ∅, phases }
    | _ => none
  | .beginSize => some { s with nSizing := s.nSizing + 1 }
  | .endSize => some { s with nSizing := s.nSizing - 1 }

/-- The window as a transition system. -/
def lts (w : Wnd) : LTS State Act := ⟨next w⟩

/-- A repaint is outstanding: an expose event, the timer, a queued `WM_PAINT`, or one that has been
dispatched and whose handler has not started. -/
def State.Outstanding (s : State) : Prop :=
  s.exposes ≠ [] ∨ s.timer = true ∨ s.paintMsg.isSome = true ∨ ∃ ph ∈ s.phases, ph.starting = true

/-- **No invalidation is lost**: a point that is pending is still in `invalid.hRgn`, and a repaint
is outstanding. -/
structure NoneLost (s : State) : Prop where
  kept : s.pending ⊆ s.invalid
  outstanding : s.pending.Nonempty → s.Outstanding

/-- A repaint is outstanding apart from the innermost `WM_PAINT`. -/
def State.OtherRepaint (s : State) : Prop :=
  s.exposes ≠ [] ∨ s.timer = true ∨ s.paintMsg.isSome = true ∨
    ∃ ph ∈ s.phases.tail, ph.starting = true

/-- The region is cleared with no point pending, and a point that the handler does not paint when
the hook returns has another repaint. -/
def ClearsPainted (w : Wnd) (s : State) : Act → Prop
  | .ncpaintDone => s.pending = ∅
  | .hookDone bSkipMsg =>
    (if bSkipMsg then s.pending else (s.startHandler w s.phases.tail).pending).Nonempty →
      s.OtherRepaint
  | _ => True

/-- What is known in every run that only clears painted points. -/
structure Inv (s : State) : Prop extends NoneLost s where
  /-- A delayed expose event is the timer's. -/
  delay : s.bDelayPaint = true → s.timer = true

theorem inv_init : Inv init := ⟨⟨Finset.Subset.refl _, by simp [init]⟩, by simp [init]⟩

section Requests

variable {s : State}

theorem outstanding_sendExposeEvent (bForce : Bool)
    (hd : bForce = false → s.bDelayPaint = true → s.timer = true) :
    (s.sendExposeEvent bForce).Outstanding := by
  unfold State.sendExposeEvent
  split
  · exact .inl (by simp)
  · split_ifs with hthrottle hdelay
    · exact .inr (.inl (hd hthrottle.1 hdelay))
    · exact .inr (.inl rfl)
    · exact .inl (by simp)

theorem sendExposeEvent_eq (bForce : Bool) :
    s.sendExposeEvent bForce = { s with
      bDelayPaint := (s.sendExposeEvent bForce).bDelayPaint
      tsPaint := (s.sendExposeEvent bForce).tsPaint
      timer := (s.sendExposeEvent bForce).timer
      exposes := (s.sendExposeEvent bForce).exposes } := by
  unfold State.sendExposeEvent
  split
  · rfl
  · split_ifs <;> rfl

theorem delay_sendExposeEvent (bForce : Bool)
    (hd : bForce = false → s.bDelayPaint = true → s.timer = true) :
    (s.sendExposeEvent bForce).bDelayPaint = true → (s.sendExposeEvent bForce).timer = true := by
  unfold State.sendExposeEvent
  split
  · simp
  · split_ifs with hthrottle
    · exact hd hthrottle.1
    · simp
    · simp

theorem inv_sendExposeEvent (bForce : Bool) (hk : s.pending ⊆ s.invalid)
    (hd : bForce = false → s.bDelayPaint = true → s.timer = true) :
    Inv (s.sendExposeEvent bForce) := by
  refine ⟨⟨?_, fun _ => outstanding_sendExposeEvent bForce hd⟩, delay_sendExposeEvent bForce hd⟩
  rw [sendExposeEvent_eq]
  exact hk

theorem inv_beginPaint (w : Wnd) (lp : Option Region) (hk : s.pending ⊆ s.invalid)
    (hd : s.bDelayPaint = true → s.timer = true) : Inv (s.beginPaint w lp) := by
  unfold State.beginPaint
  simp only
  split_ifs
  all_goals exact ⟨⟨hk.trans Finset.subset_union_left,
    fun _ => .inr (.inr (.inr ⟨_, List.mem_cons_self, rfl⟩))⟩, hd⟩

theorem pending_startHandler_subset (w : Wnd) (phases : List Phase) :
    (s.startHandler w phases).pending ⊆ s.pending := by
  unfold State.startHandler
  simp only
  split
  · exact Finset.empty_subset _
  · exact Finset.sdiff_subset

theorem State.OtherRepaint.outstanding {ph : Phase} {phases : List Phase} (h : s.OtherRepaint)
    (hph : s.phases.tail = phases) :
    { s with phases := ph :: phases }.Outstanding := by
  subst hph
  exact h.imp_right (Or.imp_right (Or.imp_right fun ⟨q, hq, hs⟩ =>
    ⟨q, List.mem_cons_of_mem _ hq, hs⟩))

end Requests

theorem Inv.next {w : Wnd} {s s' : State} {act : Act} (hI : Inv s) (hp : ClearsPainted w s act)
    (h : Paint.next w s act = some s') : Inv s' := by
  obtain ⟨⟨hk, ho⟩, hd⟩ := hI
  cases act with
  | tick ms | beginSize | endSize =>
    obtain rfl := Option.some.inj h
    exact ⟨⟨hk, ho⟩, hd⟩
  | invalidateRect lpRect bErase =>
    obtain rfl := Option.some.inj h
    unfold State.invalidateRect
    split_ifs
    · exact ⟨⟨hk, ho⟩, hd⟩
    · simp only
      split_ifs
      · exact ⟨⟨hk, ho⟩, hd⟩
      · exact inv_sendExposeEvent false (Finset.union_subset_union_left hk) fun _ => hd
  | xExpose rgn =>
    obtain rfl := Option.some.inj h
    exact ⟨⟨hk, fun _ => .inl (by simp)⟩, hd⟩
  | pushExpose =>
    simp only [Paint.next] at h
    split at h
    case h_2 => cases h
    case h_1 rgn exposes hx =>
      obtain rfl := Option.some.inj h
      unfold State.pushExpose
      split
      all_goals exact ⟨⟨hk, fun _ => .inr (.inr (.inl rfl))⟩, hd⟩
  | timerFires =>
    simp only [Paint.next, Option.ite_none_right_eq_some, Option.some.injEq] at h
    obtain ⟨-, rfl⟩ := h
    exact ⟨⟨hk, ho⟩, hd⟩
  | peekDelay =>
    simp only [Paint.next, Option.ite_none_left_eq_some, Option.some.injEq] at h
    obtain ⟨-, rfl⟩ := h
    exact inv_sendExposeEvent true hk fun hf => by cases hf
  | dispatchPaint =>
    obtain ⟨rgn, -, rfl⟩ := Option.map_eq_some_iff.1 h
    exact inv_beginPaint w (some rgn) hk hd
  | sendPaint =>
    obtain rfl := Option.some.inj h
    exact inv_beginPaint w none hk hd
  | eraseDone =>
    simp only [Paint.next] at h
    split at h
    case h_2 => cases h
    case h_1 saved phases hph =>
      obtain rfl := Option.some.inj h
      exact ⟨⟨hk, fun _ => .inr (.inr (.inr ⟨_, List.mem_cons_self, rfl⟩))⟩, hd⟩
  | hookDone bSkipMsg =>
    simp only [Paint.next] at h
    split at h
    case h_2 => cases h
    case h_1 phases hph =>
      have htail : s.phases.tail = phases := by rw [hph]; rfl
      rw [ClearsPainted, htail] at hp
      obtain rfl := Option.some.inj h
      cases bSkipMsg with
      | true => exact ⟨⟨hk, fun hne => (hp hne).outstanding htail⟩, hd⟩
      | false =>
        exact ⟨⟨(pending_startHandler_subset w phases).trans hk,
          fun hne => (hp hne).outstanding htail⟩, hd⟩
  | paintDone =>
    simp only [Paint.next] at h
    split at h
    case h_2 => cases h
    case h_1 phases hph =>
      obtain rfl := Option.some.inj h
      refine ⟨⟨hk, fun hne => ?_⟩, hd⟩
      simpa [State.Outstanding, hph, Phase.starting] using ho hne
  | ncpaintDone =>
    simp only [Paint.next] at h
    split at h
    case h_2 => cases h
    case h_1 phases hph =>
      obtain rfl := Option.some.inj h
      have hpending : s.pending = ∅ := hp
      exact ⟨⟨by simp [hpending], by simp [hpending]⟩, hd⟩

/-- **No invalidation is lost, exactly**: it is so in every state of a run if and only if every
`WM_PAINT` of the run clears the region with no point pending, and what its handler does not paint
has another repaint. -/
theorem noneLost_iff (w : Wnd) (acts : List Act) :
    (lts w).AllStates NoneLost init acts ↔ (lts w).AllSteps (ClearsPainted w) init acts := by
  refine LTS.allStates_iff_allSteps (I := Inv) (fun _ h => h.toNoneLost)
    (fun _ _ _ hI hp hn => hI.next hp hn) ?_ inv_init
  intro s act s' hI hn hl
  cases act with
  | ncpaintDone =>
    simp only [lts, Paint.next] at hn
    split at hn
    case h_2 => cases hn
    case h_1 phases hph =>
      obtain rfl := Option.some.inj hn
      exact Finset.subset_empty.1 hl.kept
  | hookDone bSkipMsg =>
    simp only [lts, Paint.next] at hn
    split at hn
    case h_2 => cases hn
    case h_1 phases hph =>
      obtain rfl := Option.some.inj hn
      rw [ClearsPainted, State.OtherRepaint, show s.phases.tail = phases by rw [hph]; rfl]
      cases bSkipMsg <;>
        exact fun hne => by
          simpa [State.Outstanding, State.startHandler, Phase.starting] using hl.outstanding hne
  | _ => trivial

/-! ### Quiet handlers -/

/-- The innermost `WM_PAINT` has started its handler. -/
def State.painting (s : State) : Bool :=
  match s.phases with
  | .paint :: _ | .ncpaint :: _ => true
  | _ => false

/-- The innermost `WM_PAINT` is in `WM_ERASEBKGND`. -/
def State.erasing (s : State) : Bool :=
  match s.phases with
  | .erase _ :: _ => true
  | _ => false

/-- The points are inside the clip of a handler, if it has one. -/
def Wnd.Paints (w : Wnd) (rgn : Region) : Prop :=
  match w.handlerClip with
  | none => True
  | some clip => rgn ⊆ clip

instance decidablePaints (w : Wnd) (rgn : Region) : Decidable (w.Paints rgn) := by
  unfold Wnd.Paints
  split <;> infer_instance

/-- **Quiet handlers**: from the start of a `WM_PAINT` handler to the end of `WM_NCPAINT` nothing is
invalidated, and nothing ever that is outside the clip of a handler; no `WM_PAINT` is dispatched by
`WM_ERASEBKGND`, and no hook skips a handler. -/
def Quiet (w : Wnd) (s : State) : Act → Prop
  | .invalidateRect lpRect _ =>
    0 < s.nSizing ∨ s.painting = false ∧ w.Paints (rectRgn (lpRect.getD w.rect))
  | .dispatchPaint | .sendPaint => s.erasing = false
  | .hookDone bSkipMsg => bSkipMsg = false
  | _ => True

instance decidableQuiet (w : Wnd) (s : State) : ∀ act, Decidable (Quiet w s act)
  | .invalidateRect .. => inferInstanceAs (Decidable (_ ∨ _))
  | .dispatchPaint | .sendPaint => inferInstanceAs (Decidable (s.erasing = false))
  | .hookDone bSkipMsg => inferInstanceAs (Decidable (bSkipMsg = false))
  | .tick _ | .xExpose _ | .pushExpose | .timerFires | .peekDelay | .eraseDone | .paintDone
  | .ncpaintDone | .beginSize | .endSize => .isTrue trivial

/-- Outside `WM_ERASEBKGND` the DC has no clip: every handler of it restores the one before. -/
def Clips : Option Region → List Phase → Prop
  | clip, [] => clip = none
  | _, .erase saved :: phases => Clips saved phases
  | clip, .hook :: phases | clip, .paint :: phases | clip, .ncpaint :: phases => Clips clip phases

theorem Clips.eq_none {clip : Option Region} {phases : List Phase} (h : Clips clip phases)
    (he : ∀ saved, .erase saved ∉ phases) : clip = none := by
  induction phases with
  | nil => exact h
  | cons ph phases ih =>
    have ih' := fun h => ih h fun saved hs => he saved (List.mem_cons_of_mem _ hs)
    cases ph with
    | erase saved => exact absurd List.mem_cons_self (he saved)
    | hook | paint | ncpaint => exact ih' h

theorem Wnd.Paints.union {w : Wnd} {rgn rgn' : Region} (h : w.Paints rgn) (h' : w.Paints rgn') :
    w.Paints (rgn ∪ rgn') := by
  unfold Wnd.Paints at *
  cases hc : w.handlerClip with
  | none => trivial
  | some clip =>
    rw [hc] at h h'
    exact Finset.union_subset h h'

/-- With quiet handlers only the innermost `WM_PAINT` can be erasing, and once its handler has
started nothing is pending. -/
structure Settled (w : Wnd) (s : State) : Prop where
  erase (saved : Option Region) : .erase saved ∉ s.phases.tail
  painted : s.painting = true → s.pending = ∅
  /-- A handler without another clip paints all that is pending. -/
  inside : w.Paints s.pending
  clips : Clips s.clip s.phases

theorem settled_init (w : Wnd) : Settled w init := by
  refine ⟨by simp [init], fun _ => rfl, ?_, rfl⟩
  unfold Wnd.Paints
  split
  · trivial
  · exact Finset.empty_subset _

namespace Settled

variable {w : Wnd} {s s' : State}

theorem not_mem (hS : Settled w s) (he : s.erasing = false) (saved : Option Region) :
    .erase saved ∉ s.phases := by
  intro hm
  cases hph : s.phases with
  | nil => simp [hph] at hm
  | cons ph phases =>
    rw [hph] at hm
    rcases List.mem_cons.1 hm with rfl | hm
    · simp [State.erasing, hph] at he
    · exact hS.erase saved (by rw [hph]; exact hm)

/-- A handler that starts outside every `WM_ERASEBKGND` paints everything. -/
theorem pending_startHandler (hin : w.Paints s.pending) (hclip : s.clip = none)
    (phases : List Phase) : (s.startHandler w phases).pending = ∅ := by
  unfold State.startHandler Wnd.Paints at *
  rw [hclip]
  cases hc : w.handlerClip with
  | none => rfl
  | some clip =>
    rw [hc] at hin
    exact Finset.sdiff_eq_empty_iff_subset.2 hin

theorem beginPaint (hS : Settled w s) (he : s.erasing = false) (lp : Option Region) :
    Settled w (s.beginPaint w lp) := by
  unfold State.beginPaint
  simp only
  split_ifs
  all_goals exact ⟨hS.not_mem he, fun h => by simp [State.painting] at h, hS.inside, hS.clips⟩

theorem sendExposeEvent (hS : Settled w s) (bForce : Bool) :
    Settled w (s.sendExposeEvent bForce) := by
  rw [sendExposeEvent_eq]
  exact ⟨hS.erase, hS.painted, hS.inside, hS.clips⟩

/-- The DC has no clip where the hook runs. -/
theorem clip_eq_none (hS : Settled w s) {phases : List Phase} (hph : s.phases = .hook :: phases) :
    s.clip = none := by
  have hc := hS.clips
  have he := hS.erase
  rw [hph] at hc he
  exact Clips.eq_none (show Clips s.clip phases from hc) he

theorem clearsPainted (hS : Settled w s) {act : Act} (hq : Quiet w s act)
    (hn : Paint.next w s act = some s') : ClearsPainted w s act := by
  cases act with
  | ncpaintDone =>
    simp only [Paint.next] at hn
    split at hn
    case h_2 => cases hn
    case h_1 phases hph => exact hS.painted (by simp [State.painting, hph])
  | hookDone bSkipMsg =>
    simp only [Paint.next] at hn
    split at hn
    case h_2 => cases hn
    case h_1 phases hph =>
      obtain rfl : bSkipMsg = false := hq
      intro hne
      rw [if_neg Bool.false_ne_true, pending_startHandler hS.inside (hS.clip_eq_none hph)] at hne
      exact absurd hne (by simp)
  | _ => trivial

theorem next (hS : Settled w s) {act : Act} (hq : Quiet w s act)
    (hn : Paint.next w s act = some s') : Settled w s' := by
  obtain ⟨he, hp, hin, hc⟩ := hS
  cases act with
  | tick ms | beginSize | endSize | xExpose rgn =>
    obtain rfl := Option.some.inj hn
    exact ⟨he, hp, hin, hc⟩
  | invalidateRect lpRect bErase =>
    obtain rfl := Option.some.inj hn
    unfold State.invalidateRect
    simp only
    split_ifs with hsize
    · exact ⟨he, hp, hin, hc⟩
    · exact ⟨he, hp, hin, hc⟩
    · obtain ⟨hpaint, hrect⟩ := hq.resolve_left hsize
      refine sendExposeEvent ?_ false
      exact ⟨he, fun h => absurd (Eq.trans h.symm hpaint) (by simp), hin.union hrect, hc⟩
  | pushExpose =>
    simp only [Paint.next] at hn
    split at hn
    case h_2 => cases hn
    case h_1 rgn exposes hx =>
      obtain rfl := Option.some.inj hn
      unfold State.pushExpose
      split <;> exact ⟨he, hp, hin, hc⟩
  | timerFires =>
    simp only [Paint.next, Option.ite_none_right_eq_some, Option.some.injEq] at hn
    obtain ⟨-, rfl⟩ := hn
    exact ⟨he, hp, hin, hc⟩
  | peekDelay =>
    simp only [Paint.next, Option.ite_none_left_eq_some, Option.some.injEq] at hn
    obtain ⟨-, rfl⟩ := hn
    refine sendExposeEvent ?_ true
    exact ⟨he, hp, hin, hc⟩
  | dispatchPaint =>
    obtain ⟨rgn, -, rfl⟩ := Option.map_eq_some_iff.1 hn
    exact beginPaint (s := { s with paintMsg := none }) ⟨he, hp, hin, hc⟩ hq _
  | sendPaint =>
    obtain rfl := Option.some.inj hn
    exact beginPaint ⟨he, hp, hin, hc⟩ hq none
  | eraseDone =>
    simp only [Paint.next] at hn
    split at hn
    case h_2 => cases hn
    case h_1 saved phases hph =>
      obtain rfl := Option.some.inj hn
      rw [hph] at hc he
      exact ⟨he, fun h => by simp [State.painting] at h, hin, hc⟩
  | hookDone bSkipMsg =>
    have hS : Settled w s := ⟨he, hp, hin, hc⟩
    simp only [Paint.next] at hn
    split at hn
    case h_2 => cases hn
    case h_1 phases hph =>
      obtain rfl : bSkipMsg = false := hq
      obtain rfl := Option.some.inj hn
      have hpending := pending_startHandler hin (hS.clip_eq_none hph) phases
      rw [hph] at hc he
      rw [if_neg Bool.false_ne_true]
      refine ⟨he, fun _ => hpending, ?_, hc⟩
      rw [hpending]
      exact (settled_init w).inside
  | paintDone =>
    simp only [Paint.next] at hn
    split at hn
    case h_2 => cases hn
    case h_1 phases hph =>
      obtain rfl := Option.some.inj hn
      have hp' := hp (by simp [State.painting, hph])
      rw [hph] at he hc
      exact ⟨he, fun _ => hp', hin, hc⟩
  | ncpaintDone =>
    simp only [Paint.next] at hn
    split at hn
    case h_2 => cases hn
    case h_1 phases hph =>
      obtain rfl := Option.some.inj hn
      have hp' := hp (by simp [State.painting, hph])
      rw [hph] at he hc
      exact ⟨fun saved hm => he saved (List.mem_of_mem_tail hm), fun _ => hp', hin, hc⟩

end Settled

/-- **No invalidation is lost by quiet handlers**: in every state of every run in which nothing is
invalidated between the start of a `WM_PAINT` handler and the end of `WM_NCPAINT`, or where no
handler paints, no `WM_PAINT` is dispatched by `WM_ERASEBKGND` and no hook skips a handler, each
pending point is in the region and has a repaint. -/
theorem noneLost_of_quiet (w : Wnd) {acts : List Act} (h : (lts w).AllSteps (Quiet w) init acts) :
    (lts w).AllStates NoneLost init acts :=
  LTS.allStates_of_allSteps (I := fun s => Inv s ∧ Settled w s) (fun _ h => h.1.toNoneLost)
    (fun _ _ _ h hq hn => ⟨h.1.next (h.2.clearsPainted hq hn) hn, h.2.next hq hn⟩)
    ⟨inv_init, settled_init w⟩ h

/-- A window of one point. -/
def onePoint : Wnd := ⟨1, 1, false, 2, 2, none⟩

theorem noneLost_painted : (lts onePoint).AllStates NoneLost init
    [.invalidateRect none true, .pushExpose, .dispatchPaint, .invalidateRect none true, .eraseDone,
      .hookDone false, .paintDone, .ncpaintDone, .invalidateRect (some ⟨1, 1, 0, 0⟩) false] :=
  noneLost_of_quiet onePoint (by decide +kernel)

/-- The `WM_PAINT` handler invalidates its window; the region is cleared behind it. -/
theorem invalidated_in_handler : ∃ s,
    (lts onePoint).run init [.invalidateRect none true, .pushExpose, .dispatchPaint, .eraseDone,
      .hookDone false, .invalidateRect none true, .paintDone, .ncpaintDone] = some s ∧
    (0, 0) ∈ s.pending ∧ s.invalid = ∅ ∧ ¬ NoneLost s := by
  refine ⟨_, rfl, by decide +kernel, by decide +kernel, fun h => ?_⟩
  have hmem := Finset.mem_of_subset h.kept (a := ((0, 0) : ℤ × ℤ)) (by decide +kernel)
  exact absurd hmem (by decide +kernel)

end Paint

end Swinx
