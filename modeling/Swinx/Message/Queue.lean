import Mathlib

/-!
# The message queue of a UI thread

`SConnection::peekMsg` walks `m_msgQueue` from the front: it deletes the messages of windows that
are gone and stops at the first message that its filter accepts.

* `Fields` — the four fields by which the code recognises a message.
* `Filter.accepts` — what a call of `PeekMessage` asks for.
* `scan` — the loop of `peekMsg` over the queue.
-/

namespace Swinx

namespace Message

/-- `WM_SIZE` -/
def WM_SIZE : ℕ := 0x0005

/-- `WM_PAINT` -/
def WM_PAINT : ℕ := 0x000F

/-- `WM_QUIT` -/
def WM_QUIT : ℕ := 0x0012

/-- `WM_TIMER` -/
def WM_TIMER : ℕ := 0x0113

/-- `UM_STATE` -/
def UM_STATE : ℕ := 0x0351

/-- `UM_SETTINGS` -/
def UM_SETTINGS : ℕ := 0x0352

/-- `UM_CALLHOOK` -/
def UM_CALLHOOK : ℕ := 0x0354

/-- `UM_XDND_DRAG_ENTER` -/
def UM_XDND_DRAG_ENTER : ℕ := 0x0400

/-- `UM_XDND_DRAG_DROP`; the four messages of a drag lie next to each other. -/
def UM_XDND_DRAG_DROP : ℕ := 0x0403

/-- `TM_DELAY`, the timer of a delayed repaint: -102 as a `WPARAM`. -/
def TM_DELAY : ℕ := 2 ^ 64 - 102

/-- The fields by which a message is recognised. -/
structure Fields where
  hwnd : ℕ
  message : ℕ
  wParam : ℕ
  lParam : ℕ
  deriving DecidableEq, Repr

/-- A queued message.  Every message has its own reply; both go by the number `id`. -/
structure Msg extends Fields where
  id : ℕ
  deriving DecidableEq, Repr

/-- The arguments of `PeekMessage` that select a message. -/
structure Filter where
  hWnd : ℕ
  wMsgFilterMin : ℕ
  wMsgFilterMax : ℕ
  deriving DecidableEq, Repr

/-- `bMatch` -/
def Filter.accepts (f : Filter) (m : Fields) : Bool :=
  if m.message = WM_QUIT then true
  else if m.message = WM_TIMER ∧ m.lParam = 0 then true
  else if m.hwnd ≠ f.hWnd ∧ f.hWnd ≠ 0 then false
  else if f.wMsgFilterMin = 0 ∧ f.wMsgFilterMax = 0 then true
  else f.wMsgFilterMin ≤ m.message && m.message ≤ f.wMsgFilterMax

/-- The queue after the loop: the messages it has passed, the message it has stopped at, and the
messages behind. -/
structure Scan where
  passed : List Msg
  found : Option Msg
  rest : List Msg
  deriving Repr

/-- **The loop over the queue.**  `gone hwnd`: the window is destroyed or not registered. -/
def scan (gone : ℕ → Bool) (f : Filter) : List Msg → Scan
  | [] => ⟨[], none, []⟩
  | m :: q =>
    if m.hwnd ≠ 0 ∧ gone m.hwnd = true then scan gone f q
    else if f.accepts m.toFields then ⟨[], some m, q⟩
    else
      let r := scan gone f q
      { r with passed := m :: r.passed }

variable {gone : ℕ → Bool} {f : Filter}

theorem scan_sublist (q : List Msg) :
    ((scan gone f q).passed ++ (scan gone f q).found.toList ++ (scan gone f q).rest).Sublist q := by
  induction q with
  | nil => exact List.Sublist.refl _
  | cons m q ih =>
    unfold scan
    split_ifs
    · exact ih.cons m
    · exact List.Sublist.refl _
    · exact ih.cons_cons m

/-- What the loop stops at is accepted, and its window is there. -/
theorem scan_found {q : List Msg} {m : Msg} (h : (scan gone f q).found = some m) :
    f.accepts m.toFields = true ∧ (m.hwnd ≠ 0 → gone m.hwnd = false) := by
  induction q with
  | nil => cases h
  | cons a q ih =>
    unfold scan at h
    split_ifs at h with hg ha
    · exact ih h
    · obtain rfl := Option.some.inj h
      exact ⟨ha, fun h0 => by simpa [h0] using hg⟩
    · exact ih h

/-- When the loop comes to the end, the filter accepts nothing that is left. -/
theorem scan_none {q : List Msg} (h : (scan gone f q).found = none) :
    (scan gone f q).rest = [] ∧ ∀ m ∈ (scan gone f q).passed, f.accepts m.toFields = false := by
  induction q with
  | nil => exact ⟨rfl, fun _ h => absurd h List.not_mem_nil⟩
  | cons a q ih =>
    unfold scan at h ⊢
    split_ifs at h ⊢ with hg ha
    · exact ih h
    · refine ⟨(ih h).1, fun m hm => ?_⟩
      rcases List.mem_cons.1 hm with rfl | hm
      · simpa using ha
      · exact (ih h).2 m hm

theorem accepts_all (m : Fields) : Filter.accepts ⟨0, 0, 0⟩ m = true := by
  unfold Filter.accepts
  split_ifs with _ _ h
  · rfl
  · rfl
  · exact absurd rfl h.2
  · rfl
  · simp_all

end Message

end Swinx
