import Swinx.Message.Motion

/-!
# Double clicks

A press of a button is a double click if it comes soon enough after the last press of the same
button.  The times are milliseconds of the server in 32 bits; all ones stand for no press.

* `tsSpan_le_iff` — when the measured span is short enough.
* `prevPress_run` — what is remembered of the presses.
* `detects_iff` — the double clicks are right if and only if each press is measured well enough.
-/

namespace Swinx

namespace DoubleClick

open Motion (POINT HWND makelparam buttonState2Mask)

/-- `-1u` -/
def noPress : UInt32 := 0xFFFFFFFF

def tsSpan (t1 t2 : UInt32) : UInt32 :=
  if t2 = noPress then noPress
  else if t1 > t2 then t1 - t2
  else t1 + (noPress - t2)

inductive Button
  | left
  | middle
  | right
  deriving DecidableEq, Repr

/-- `e2->detail` from `XCB_BUTTON_INDEX_1` to `XCB_BUTTON_INDEX_3` -/
def Button.ofDetail (detail : UInt8) : Option Button :=
  if detail = 1 then some .left
  else if detail = 2 then some .middle
  else if detail = 3 then some .right
  else none

/-- `WM_LBUTTONDOWN`, `WM_MBUTTONDOWN` and `WM_RBUTTONDOWN` -/
def Button.down : Button → UInt32
  | .left => 0x0201
  | .middle => 0x0207
  | .right => 0x0204

/-- `WM_LBUTTONDBLCLK`, `WM_MBUTTONDBLCLK` and `WM_RBUTTONDBLCLK` -/
def Button.dblClk : Button → UInt32
  | .left => 0x0203
  | .middle => 0x0209
  | .right => 0x0206

def WM_MOUSEWHEEL : UInt32 := 0x020A

/-- The message that is made of a press. -/
structure Msg where
  hwnd : HWND
  message : UInt32
  wParam : UInt64
  lParam : Int64
  pt : POINT
  deriving DecidableEq

/-- `xcb_button_press_event_t` -/
structure PressEvent where
  detail : UInt8
  event : HWND
  eventX : Int16
  eventY : Int16
  state : UInt16
  time : UInt32
  deriving DecidableEq

/-- The windows when a press comes. -/
structure Desktop where
  /-- `m_hWndCapture`, 0 for none -/
  hWndCapture : HWND
  /-- `MapWindowPoints` of one point -/
  mapWindowPoints : HWND → HWND → POINT → POINT
  /-- `ClientToScreen` -/
  clientToScreen : HWND → POINT → POINT
  /-- `bAutoDblClick` of the window, where there is one -/
  bAutoDblClick : HWND → Option Bool
  isWindowEnabled : HWND → Bool
  /-- The keys and buttons that are down, as the flags of a wheel message. -/
  vkFlag : UInt64

/-- `m_tsPrevPress` -/
abbrev PrevPress := Button → UInt32

/-- Another window has captured the mouse. -/
def captured (desk : Desktop) (e : PressEvent) : Prop :=
  desk.hWndCapture ≠ 0 ∧ e.event ≠ desk.hWndCapture

instance decidableCaptured (desk : Desktop) (e : PressEvent) : Decidable (captured desk e) :=
  inferInstanceAs (Decidable (_ ∧ _))

def autoDblClick (desk : Desktop) (e : PressEvent) : Bool := (desk.bAutoDblClick e.event).getD true

/-- The window that gets the message. -/
def target (desk : Desktop) (e : PressEvent) : HWND :=
  if captured desk e then desk.hWndCapture else e.event

/-- The press of a button. -/
def pressMsg (span : UInt32) (desk : Desktop) (prev : PrevPress) (e : PressEvent) (b : Button) :
    Msg :=
  let pt : POINT := ⟨e.eventX.toInt32, e.eventY.toInt32⟩
  let pt := if captured desk e then desk.mapWindowPoints e.event desk.hWndCapture pt else pt
  { hwnd := target desk e
    message := if !autoDblClick desk e || tsSpan e.time (prev b) > span then b.down else b.dblClk
    wParam := buttonState2Mask e.state
    lParam := makelparam pt.x pt.y
    pt := pt }

/-- A turn of the wheel. -/
def wheelMsg (desk : Desktop) (e : PressEvent) (delta : UInt16) : Msg :=
  let pt := desk.clientToScreen e.event ⟨e.eventX.toInt32, e.eventY.toInt32⟩
  { hwnd := e.event
    message := WM_MOUSEWHEEL
    wParam := desk.vkFlag ||| (delta.toUInt64 <<< (16 : UInt64))
    lParam := makelparam pt.x pt.y
    pt := pt }

/-- The message of a press event; a window that is not enabled gets none. -/
def buttonPress (span : UInt32) (desk : Desktop) (prev : PrevPress) (e : PressEvent) :
    Option Msg × PrevPress :=
  let enabled := fun m : Msg => if desk.isWindowEnabled m.hwnd then some m else none
  match Button.ofDetail e.detail with
  | some b => (enabled (pressMsg span desk prev e b), Function.update prev b e.time)
  | none =>
    if e.detail = 4 then (enabled (wheelMsg desk e 120), prev)
    else if e.detail = 5 then (enabled (wheelMsg desk e (-120)), prev)
    else (none, prev)

/-- What is remembered after some presses. -/
def run (span : UInt32) (presses : List (Desktop × PressEvent)) : PrevPress :=
  presses.foldl (fun prev p => (buttonPress span p.1 prev p.2).2) fun _ => noPress

/-! ### The double clicks that are due -/

/-- The time of the last press of the button. -/
def lastPress (b : Button) (presses : List (Desktop × PressEvent)) : Option UInt32 :=
  (presses.filter fun p => Button.ofDetail p.2.detail = some b).getLast?.map fun p => p.2.time

/-- There was a press, and it is not longer ago than the span. -/
def Due (span : UInt32) (last : Option UInt32) (time : UInt32) : Prop :=
  ∃ t, last = some t ∧ time - t ≤ span

/-- **The double clicks are the presses that are due**, on windows with automatic double clicks. -/
def Detects (span : UInt32) (presses : List (Desktop × PressEvent)) : Prop :=
  ∀ before desk e after b m, presses = before ++ (desk, e) :: after →
    Button.ofDetail e.detail = some b → autoDblClick desk e = true →
    (buttonPress span desk (run span before) e).1 = some m →
    (m.message = b.dblClk ↔ Due span (lastPress b before) e.time)

/-- The time since a press is measured well enough: the press was not at the time that stands for
none, the clock has not come around and shows another time; or else it does not matter. -/
def ExactSince (span t time : UInt32) : Prop :=
  if t = noPress then span = noPress ∨ ¬time - t ≤ span
  else if t < time then True
  else if t = time then span = noPress
  else time - t ≠ span + 1

/-- **The span is measured well enough.** -/
def Exact (span : UInt32) (last : Option UInt32) (time : UInt32) : Prop :=
  match last with
  | none => span ≠ noPress
  | some t => ExactSince span t time

/-- **Every span is measured well enough.** -/
def Measured (span : UInt32) (presses : List (Desktop × PressEvent)) : Prop :=
  ∀ before desk e after b, presses = before ++ (desk, e) :: after →
    Button.ofDetail e.detail = some b → autoDblClick desk e = true →
    desk.isWindowEnabled (target desk e) = true → Exact span (lastPress b before) e.time

/-! ### What the code measures -/

theorem tsSpan_since_iff (span t time : UInt32) :
    (tsSpan time t ≤ span ↔ time - t ≤ span) ↔ ExactSince span t time := by
  have hspan := span.toNat_lt
  have htime := time.toNat_lt
  have ht := t.toNat_lt
  unfold tsSpan ExactSince noPress
  -- all of it is arithmetic of the numbers
  split_ifs with hno hlt heq <;>
    simp only [UInt32.le_iff_toNat_le, UInt32.lt_iff_toNat_lt, ← UInt32.toNat_inj, ne_eq,
      UInt32.toNat_sub, UInt32.toNat_add, UInt32.reduceToNat, gt_iff_lt] at * <;>
    omega

/-- **When the measured span is short enough.** -/
theorem tsSpan_le_iff (span time : UInt32) (last : Option UInt32) :
    (tsSpan time (last.getD noPress) ≤ span ↔ Due span last time) ↔ Exact span last time := by
  cases last with
  | none =>
    have hno : ¬Due span none time := by
      rintro ⟨t, ht, -⟩
      cases ht
    have hspan := span.toNat_lt
    rw [Option.getD_none, tsSpan, if_pos rfl, Exact, iff_false_right hno]
    simp only [noPress, UInt32.le_iff_toNat_le, ← UInt32.toNat_inj, ne_eq, UInt32.reduceToNat]
    omega
  | some t =>
    have hdue : Due span (some t) time ↔ time - t ≤ span :=
      ⟨fun ⟨t', he, h⟩ => by cases he; exact h, fun h => ⟨t, rfl, h⟩⟩
    rw [hdue]
    exact tsSpan_since_iff span t time

/-! ### Sequences of presses -/

theorem prevPress_step (span : UInt32) (desk : Desktop) (prev : PrevPress) (e : PressEvent)
    (b : Button) :
    (buttonPress span desk prev e).2 b =
      if Button.ofDetail e.detail = some b then e.time else prev b := by
  unfold buttonPress
  cases hb : Button.ofDetail e.detail with
  | none => simp only [reduceCtorEq, if_false]; split_ifs <;> rfl
  | some b' =>
    by_cases hbb : b = b'
    · subst hbb
      simp
    · rw [if_neg (fun h => hbb (Option.some.inj h).symm)]
      exact Function.update_of_ne hbb _ _

/-- **What is remembered of the presses** is the time of the last of each button. -/
theorem prevPress_run (span : UInt32) (presses : List (Desktop × PressEvent)) (b : Button) :
    run span presses b = (lastPress b presses).getD noPress := by
  induction presses using List.reverseRecOn with
  | nil => rfl
  | append_singleton presses p ih =>
    rw [run, List.foldl_append, List.foldl_cons, List.foldl_nil, ← run, prevPress_step, ih]
    unfold lastPress
    rw [List.filter_append]
    by_cases hb : Button.ofDetail p.2.detail = some b
    · rw [if_pos hb, List.filter_cons_of_pos (by simpa using hb)]
      simp
    · rw [if_neg hb, List.filter_cons_of_neg (by simpa using hb), List.filter_nil,
        List.append_nil]

/-- A press of a button on a window with automatic double clicks. -/
theorem message_eq_dblClk_iff {span : UInt32} {desk : Desktop} {prev : PrevPress} {e : PressEvent}
    {b : Button} {m : Msg} (hb : Button.ofDetail e.detail = some b)
    (hauto : autoDblClick desk e = true) (hm : (buttonPress span desk prev e).1 = some m) :
    m.message = b.dblClk ↔ tsSpan e.time (prev b) ≤ span := by
  unfold buttonPress at hm
  rw [hb] at hm
  obtain ⟨-, hm⟩ := Option.ite_none_right_eq_some.1 hm
  obtain rfl := Option.some.inj hm
  have hne : b.down ≠ b.dblClk := by cases b <;> decide
  unfold pressMsg
  dsimp only
  by_cases hle : tsSpan e.time (prev b) ≤ span
  · rw [if_neg (by simpa [hauto] using hle)]
    exact iff_of_true rfl hle
  · rw [if_pos (by simpa [hauto] using hle)]
    exact iff_of_false hne hle

/-- **The double clicks are right** if and only if the span is measured well enough for each press
that makes a message on a window with automatic double clicks. -/
theorem detects_iff (span : UInt32) (presses : List (Desktop × PressEvent)) :
    Detects span presses ↔ Measured span presses := by
  constructor
  · intro h before desk e after b hsplit hb hauto hen
    have hm : (buttonPress span desk (run span before) e).1 =
        some (pressMsg span desk (run span before) e b) := by
      unfold buttonPress
      rw [hb]
      exact if_pos hen
    have hdue := h before desk e after b _ hsplit hb hauto hm
    rw [message_eq_dblClk_iff hb hauto hm, prevPress_run] at hdue
    exact (tsSpan_le_iff span e.time (lastPress b before)).1 hdue
  · intro h before desk e after b m hsplit hb hauto hm
    have hen : desk.isWindowEnabled (target desk e) = true := by
      unfold buttonPress at hm
      rw [hb] at hm
      exact (Option.ite_none_right_eq_some.1 hm).1
    have hexact := h before desk e after b hsplit hb hauto hen
    rw [message_eq_dblClk_iff hb hauto hm, prevPress_run]
    exact (tsSpan_le_iff span e.time (lastPress b before)).2 hexact

/-- Windows that are enabled and make double clicks. -/
def sampleDesk : Desktop where
  hWndCapture := 0
  mapWindowPoints _ _ pt := pt
  clientToScreen _ pt := pt
  bAutoDblClick _ := none
  isWindowEnabled _ := true
  vkFlag := 0

/-- The left button at a time. -/
def leftAt (time : UInt32) : Desktop × PressEvent := (sampleDesk, ⟨1, 7, 0, 0, 0, time⟩)

/-- **Two presses at one time are no double click**, and 401 milliseconds across the wrap are one
with a span of 400. -/
theorem same_time_missed :
    ¬Detects 400 [leftAt 1000, leftAt 1000] ∧ ¬Detects 400 [leftAt 4294967195, leftAt 300] := by
  constructor
  · intro h
    have hdbl := (h [leftAt 1000] sampleDesk ⟨1, 7, 0, 0, 0, 1000⟩ [] .left _ rfl rfl rfl rfl).2
      ⟨1000, rfl, by decide⟩
    exact absurd hdbl (by decide)
  · intro h
    have hdue := (h [leftAt 4294967195] sampleDesk ⟨1, 7, 0, 0, 0, 300⟩ [] .left _ rfl rfl rfl
      rfl).1 (by decide)
    obtain ⟨t, ht, hle⟩ := hdue
    cases ht
    exact absurd hle (by decide)

end DoubleClick

end Swinx
