import Mathlib

/-!
# Motion events

A motion event becomes a `WM_MOUSEMOVE` at the end of the queue.  Before that, the first queued
`WM_MOUSEMOVE` that is near enough is taken out.  With the mouse captured by another window the new
message goes there, with the mapped position.

A queued message is looked for at the window of the event, the distance is computed with the new
`x` in place of `y`, and it is kept in 16 bits.  Buttons in between are passed over.

* `safe_iff` — an event is handled safely if and only if what is found may be taken out.
* `motion_removes` — it is not in general.
-/

namespace Swinx

namespace Motion

structure POINT where
  x : Int32
  y : Int32
  deriving DecidableEq

/-- `GET_X_LPARAM` -/
def getXLparam (lp : Int64) : Int32 := lp.toUInt64.toUInt16.toInt16.toInt32

/-- `GET_Y_LPARAM` -/
def getYLparam (lp : Int64) : Int32 := (lp.toUInt64 >>> (16 : UInt64)).toUInt16.toInt16.toInt32

/-- `MAKELPARAM` -/
def makelparam (low high : Int32) : Int64 :=
  (low.toUInt32.toUInt16.toUInt64 ||| (high.toUInt32.toUInt16.toUInt64 <<< (16 : UInt64))).toInt64

abbrev HWND := ℕ

def WM_MOUSEMOVE : UInt32 := 0x0200

/-- A message of the queue. -/
structure Msg where
  hwnd : HWND
  message : UInt32
  wParam : UInt64
  lParam : Int64
  time : UInt32
  pt : POINT
  deriving DecidableEq

/-- `xcb_motion_notify_event_t` -/
structure MotionEvent where
  event : HWND
  eventX : Int16
  eventY : Int16
  state : UInt16
  time : UInt32
  deriving DecidableEq

/-- `ButtonState2Mask` -/
def buttonState2Mask (state : UInt16) : UInt64 :=
  (if state &&& (0x0001 : UInt16) ≠ 0 then 0x0004 else 0) |||
  (if state &&& (0x0004 : UInt16) ≠ 0 then 0x0008 else 0) |||
  (if state &&& (0x0008 : UInt16) ≠ 0 then 0x0020 else 0) |||
  (if state &&& (0x0040 : UInt16) ≠ 0 then 0x0040 else 0) |||
  (if state &&& (0x0100 : UInt16) ≠ 0 then 0x0001 else 0) |||
  (if state &&& (0x0200 : UInt16) ≠ 0 then 0x0010 else 0) |||
  (if state &&& (0x0400 : UInt16) ≠ 0 then 0x0002 else 0)

def kMinPosDiff : Int16 := 5

/-- The connection, as far as the event is about it. -/
structure Connection where
  /-- `m_hWndCapture`, 0 for none -/
  hWndCapture : HWND
  /-- `MapWindowPoints` of one point -/
  mapWindowPoints : HWND → HWND → POINT → POINT
  /-- `GetCursorPos` -/
  cursorPos : POINT

section Code

variable (c : Connection) (e : MotionEvent)

/-- The mouse is captured by another window. -/
def captured : Bool := c.hWndCapture ≠ 0 ∧ e.event ≠ c.hWndCapture

/-- Where the event is, in the window that gets the message. -/
def position : POINT :=
  if captured c e then
    c.mapWindowPoints e.event c.hWndCapture ⟨e.eventX.toInt32, e.eventY.toInt32⟩
  else ⟨e.eventX.toInt32, e.eventY.toInt32⟩

/-- The window that gets the message. -/
def target : HWND := if captured c e then c.hWndCapture else e.event

/-- `diff` -/
def posDiff (m : Msg) : Int16 :=
  let pt := position c e
  ((getXLparam m.lParam - pt.x).abs + (getYLparam m.lParam - pt.x).abs).toInt16

/-- The tests of a queued message. -/
def isOldMove (m : Msg) : Bool :=
  m.message = WM_MOUSEMOVE ∧ m.hwnd = e.event ∧ m.wParam = buttonState2Mask e.state ∧
    posDiff c e m ≤ kMinPosDiff

/-- The loop over the queue, and where it has erased a message. -/
def removeOld : List Msg → List Msg × Option ℕ
  | [] => ([], none)
  | m :: ms =>
    if isOldMove c e m then (ms, some 0)
    else
      let (ms, i) := removeOld ms
      (m :: ms, i.map (· + 1))

/-- The new message. -/
def newMove : Msg where
  hwnd := target c e
  message := WM_MOUSEMOVE
  wParam := buttonState2Mask e.state
  lParam := makelparam (position c e).x (position c e).y
  time := e.time
  pt := c.cursorPos

/-- `pushEvent` of `XCB_MOTION_NOTIFY`.  Other threads may post messages before the new one is
appended. -/
def motionNotify (queue posted : List Msg) : List Msg × Option ℕ :=
  ((removeOld c e queue).1 ++ posted ++ [newMove c e], (removeOld c e queue).2)

end Code

/-- The distance of two positions. -/
def distance (m m' : Msg) : ℤ :=
  |(getXLparam m.lParam).toInt - (getXLparam m'.lParam).toInt| +
    |(getYLparam m.lParam).toInt - (getYLparam m'.lParam).toInt|

/-- A message of a mouse button. -/
def Msg.isButton (m : Msg) : Prop :=
  WM_MOUSEMOVE < m.message ∧ m.message ≤ 0x020D ∧ m.message ≠ 0x020A

/-- **A queued message may be taken out** for a new one. -/
structure Rightly (queue : List Msg) (new : Msg) (i : ℕ) : Prop where
  bound : i < queue.length
  message : queue[i].message = WM_MOUSEMOVE
  hwnd : queue[i].hwnd = new.hwnd
  wParam : queue[i].wParam = new.wParam
  near : distance queue[i] new ≤ 5
  buttons : ∀ m ∈ queue.drop (i + 1), m.isButton → m.hwnd ≠ queue[i].hwnd

/-- **A motion event is handled safely**: at most one message is taken out, it may be, and the new
one comes last. -/
structure Safe (queue posted : List Msg) (new : Msg) (result : List Msg × Option ℕ) : Prop where
  kept : result.1 = (result.2.elim queue queue.eraseIdx) ++ posted ++ [new]
  rightly : ∀ i ∈ result.2, Rightly queue new i

/-! ### The message that is found -/

section Found

variable {c : Connection} {e : MotionEvent} {queue : List Msg}

theorem removeOld_eq (queue : List Msg) : removeOld c e queue =
    ((queue.findIdx? (isOldMove c e)).elim queue queue.eraseIdx,
      queue.findIdx? (isOldMove c e)) := by
  induction queue with
  | nil => rfl
  | cons m ms ih =>
    rw [removeOld, List.findIdx?_cons]
    by_cases hm : isOldMove c e m = true
    · rw [if_pos hm, if_pos hm]
      rfl
    · rw [if_neg hm, if_neg hm, ih]
      cases ms.findIdx? (isOldMove c e) with
      | none => rfl
      | some i => rfl

theorem isOldMove_iff {m : Msg} : isOldMove c e m = true ↔ m.message = WM_MOUSEMOVE ∧
    m.hwnd = e.event ∧ m.wParam = buttonState2Mask e.state ∧ posDiff c e m ≤ kMinPosDiff :=
  decide_eq_true_iff

theorem target_eq_iff : e.event = target c e ↔ captured c e = false := by
  unfold target
  cases hcap : captured c e with
  | false => simp
  | true =>
    have hne : e.event ≠ c.hWndCapture := (of_decide_eq_true hcap).2
    simpa using hne

theorem rightly_iff {i : ℕ} (h : queue.findIdx? (isOldMove c e) = some i) :
    Rightly queue (newMove c e) i ↔ captured c e = false ∧
      ∀ m ∈ queue[i]?, distance m (newMove c e) ≤ 5 ∧
        ∀ m' ∈ queue.drop (i + 1), m'.isButton → m'.hwnd ≠ e.event := by
  obtain ⟨hi, hpass, -⟩ := List.findIdx?_eq_some_iff_getElem.1 h
  obtain ⟨hmessage, hhwnd, hwParam, -⟩ := isOldMove_iff.1 hpass
  rw [List.getElem?_eq_getElem hi]
  constructor
  · intro hr
    refine ⟨target_eq_iff.1 (hhwnd.symm.trans hr.hwnd), ?_⟩
    rintro m ⟨⟩
    exact ⟨hr.near, fun m' hm' hb => hhwnd ▸ hr.buttons m' hm' hb⟩
  · rintro ⟨hcap, hnear⟩
    obtain ⟨hdist, hbuttons⟩ := hnear _ rfl
    exact ⟨hi, hmessage, hhwnd.trans (target_eq_iff.2 hcap), hwParam, hdist,
      fun m' hm' hb => hhwnd.symm ▸ hbuttons m' hm' hb⟩

end Found

/-- **A motion event is handled safely** if and only if nothing is found in the queue, or no other
window has captured the mouse, what is found first is really near, and no message of a button of
the window is behind it. -/
theorem safe_iff (c : Connection) (e : MotionEvent) (queue posted : List Msg) :
    Safe queue posted (newMove c e) (motionNotify c e queue posted) ↔
      ∀ i ∈ queue.findIdx? (isOldMove c e), captured c e = false ∧
        ∀ m ∈ queue[i]?, distance m (newMove c e) ≤ 5 ∧
          ∀ m' ∈ queue.drop (i + 1), m'.isButton → m'.hwnd ≠ e.event := by
  have hresult : motionNotify c e queue posted =
      ((queue.findIdx? (isOldMove c e)).elim queue queue.eraseIdx ++ posted ++ [newMove c e],
        queue.findIdx? (isOldMove c e)) := by
    rw [motionNotify, removeOld_eq]
  rw [hresult]
  constructor
  · intro h i hi
    exact (rightly_iff hi).1 (h.rightly i hi)
  · intro h
    exact ⟨rfl, fun i hi => (rightly_iff hi).2 (h i hi)⟩

/-- The mouse is not captured. -/
def free : Connection := ⟨0, fun _ _ pt => pt, ⟨0, 0⟩⟩

/-- The mouse is at (100, 300) in window 1. -/
def motion : MotionEvent := ⟨1, 100, 300, 0, 0⟩

/-- The mouse was somewhere in window 1. -/
def moved (x y : Int32) : Msg := ⟨1, WM_MOUSEMOVE, 0, makelparam x y, 0, ⟨0, 0⟩⟩

/-- **A message that is far away is removed**: the distance of its `y` is taken from `x`, so (100,
102) is near (100, 300), and (100, 300) itself is far. -/
theorem motion_removes :
    motionNotify free motion [moved 100 102] [] = ([newMove free motion], some 0) ∧
      (motionNotify free motion [moved 100 300] []).2 = none ∧
      ¬ Safe [moved 100 102] [] (newMove free motion)
        (motionNotify free motion [moved 100 102] []) := by
  refine ⟨by decide, by decide, fun h => ?_⟩
  have hfar : ¬ distance (moved 100 102) (newMove free motion) ≤ 5 := by decide
  exact hfar (h.rightly 0 (by decide)).near

end Motion

end Swinx
