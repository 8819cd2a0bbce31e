import Mathlib
import Swinx.Region.Combine
import Swinx.Region.Moves

/-!
# The rule that clips a child

A child shows nothing outside the client area of its parent, of the parent's parent and so on up to
a window that is no child.  The code walks up with `IntersectRect`, which does not say when two
areas do not meet, and makes a region of what is left, whose sides `CreateRectRgn` puts in order.

* `clipWant_eq` — nothing is clipped if and only if the whole window is visible.
* `covers_clipRect` — the region has the visible points, and those between the areas besides.
-/

namespace Swinx

namespace Clip

open Region (RECT WINEREGION createRectRgn setRectRgn ordered)

/-- `IntersectRect`, which is `TRUE` also for rectangles that do not meet. -/
def intersectRect (src1 src2 : RECT) : Bool × RECT :=
  (true,
    ⟨max src1.left src2.left, max src1.top src2.top, min src1.right src2.right,
      min src1.bottom src2.bottom⟩)

/-- `SetRectEmpty` -/
def rectEmpty : RECT := ⟨0, 0, 0, 0⟩

/-- `IsRectEmpty` -/
def isRectEmpty (rc : RECT) : Bool := rc.left = rc.right ∨ rc.top = rc.bottom

/-- `PtInRect` -/
def ptInRect (rc : RECT) (x y : ℤ) : Prop :=
  (rc.left ≤ x ∧ x < rc.right) ∧ rc.top ≤ y ∧ y < rc.bottom

instance decidablePtInRect (rc : RECT) (x y : ℤ) : Decidable (ptInRect rc x y) := by
  unfold ptInRect
  infer_instance

/-- `SbCalcClipWant`; no rectangle is wanted where the code returns `FALSE`. -/
def calcClipWant (rcWnd : RECT) (bClipped : Bool) (rcClip : RECT) : Option RECT :=
  if isRectEmpty rcWnd then none
  else if bClipped = false then some ⟨0, 0, 0, 1⟩
  else if rcClip.left ≤ rcWnd.left ∧ rcClip.top ≤ rcWnd.top ∧ rcWnd.right ≤ rcClip.right ∧
      rcWnd.bottom ≤ rcClip.bottom then none
  else some rcClip

/-- `SbNeedPushClipRgn` -/
def needPushClipRgn (want : Option RECT) (bPushed : Bool) (pushed : RECT) (bForce : Bool) : Bool :=
  if bForce then true
  else
    match want with
    | none => bPushed
    | some rcWant => if bPushed = false then true else decide (rcWant ≠ pushed)

/-- The coordinate is right of one area and left of another one. -/
def Crossed (lefts rights : List ℤ) (x : ℤ) : Prop :=
  (∃ right ∈ rights, right ≤ x) ∧ ∃ left ∈ lefts, x < left

/-- The coordinate is in all areas. -/
def Inside (lefts rights : List ℤ) (x : ℤ) : Prop :=
  (∀ left ∈ lefts, left ≤ x) ∧ ∀ right ∈ rights, x < right

/-! ### Windows -/

abbrev HWND := ℕ

/-- What `GetSystemMetrics` tells. -/
structure Metrics where
  cxEdge : ℤ
  cyEdge : ℤ
  cxVScroll : ℤ
  cyHScroll : ℤ
  deriving DecidableEq, Repr

/-- What `_Window` says about where a window is and what its client area is. -/
structure Window where
  /-- `dwStyle & WS_CHILD` -/
  child : Bool
  /-- `dwStyle & WS_BORDER` -/
  border : Bool
  /-- `dwStyle & WS_VSCROLL` -/
  vscroll : Bool
  /-- `dwStyle & WS_HSCROLL` -/
  hscroll : Bool
  /-- `showSbFlags & SB_VERT` -/
  sbVert : Bool
  /-- `showSbFlags & SB_HORZ` -/
  sbHorz : Bool
  /-- In its parent, if it is a child. -/
  rc : RECT
  parent : Option HWND
  /-- There is a bitmap. -/
  bmp : Bool
  bDestroyed : Bool
  deriving DecidableEq, Repr

/-- The windows. -/
structure Desktop where
  metrics : Metrics
  /-- The size that the server tells of a window of another process. -/
  geometry : HWND → Option (ℤ × ℤ)
  /-- The windows that have been made. -/
  handles : List HWND
  /-- `WndMgr::fromHwnd` -/
  window : HWND → Option Window
  /-- The windows that the server has in a window. -/
  tree : HWND → List HWND

namespace Desktop

variable (d : Desktop)

/-- `_GetWndRect` -/
def wndRect (hWnd : HWND) : Option RECT :=
  match d.window hWnd with
  | some wnd => some wnd.rc
  | none => (d.geometry hWnd).map fun size => ⟨0, 0, size.1, size.2⟩

/-- `GetParent` of a window with `WS_CHILD` -/
def above (hWnd : HWND) : Option HWND :=
  (d.window hWnd).bind fun wnd => if wnd.child then wnd.parent else none

/-- There are not more windows one above the other. -/
def fuel : ℕ := d.handles.length + 1

/-- The loop of `GetWindowRect` -/
def windowRectLoop : ℕ → HWND → RECT → RECT
  | 0, _, rc => rc
  | n + 1, hWnd, rc =>
    match d.above hWnd with
    | none => rc
    | some hParent =>
      match d.wndRect hParent with
      | none => rc
      | some rcParent => windowRectLoop n hParent (rc.offset rcParent.left rcParent.top)

/-- `GetWindowRect` -/
def getWindowRect (hWnd : HWND) : Option RECT :=
  (d.wndRect hWnd).map (d.windowRectLoop d.fuel hWnd)

/-- `GetClientRect` -/
def getClientRect (hWnd : HWND) : Option RECT :=
  match d.window hWnd with
  | none => (d.geometry hWnd).map fun size => ⟨0, 0, size.1, size.2⟩
  | some wnd =>
    let edge := if wnd.border then 2 else 0
    some
      ⟨0, 0,
        max 0 (wnd.rc.right - wnd.rc.left - edge * d.metrics.cxEdge -
          if wnd.sbVert then d.metrics.cxVScroll else 0),
        max 0 (wnd.rc.bottom - wnd.rc.top - edge * d.metrics.cyEdge -
          if wnd.sbHorz then d.metrics.cyHScroll else 0)⟩

/-- The loop of `SbGetWindowClientClip` -/
def clientClipLoop : ℕ → HWND → RECT → Bool × RECT
  | 0, _, rcAllowed => (true, rcAllowed)
  | n + 1, hCur, rcAllowed =>
    match d.above hCur with
    | none => (true, rcAllowed)
    | some hParent =>
      match d.getWindowRect hParent, d.getClientRect hParent with
      | some rcParent, some rcClient =>
        match intersectRect rcAllowed (rcClient.offset rcParent.left rcParent.top) with
        | (true, rcNext) => clientClipLoop n hParent rcNext
        | (false, _) => (false, rectEmpty)
      | _, _ => (true, rcAllowed)

/-- `SbGetWindowClientClip` -/
def getWindowClientClip (hWnd : HWND) : Bool × RECT :=
  match d.getWindowRect hWnd with
  | none => (false, rectEmpty)
  | some rcWnd =>
    match d.clientClipLoop 64 hWnd rcWnd with
    | (true, rcAllowed) => (true, rcAllowed.offset (-rcWnd.left) (-rcWnd.top))
    | (false, _) => (false, rectEmpty)

/-! ### What the rule says -/

/-- The first `n` ancestors. -/
def ancestorsUpTo : ℕ → HWND → List HWND
  | 0, _ => []
  | n + 1, hWnd =>
    match d.above hWnd with
    | none => []
    | some hParent =>
      if (d.wndRect hParent).isSome then hParent :: ancestorsUpTo n hParent else []

/-- The windows above a child. -/
def ancestors (hWnd : HWND) : List HWND := d.ancestorsUpTo d.fuel hWnd

/-- The window is not above itself, and not below more windows than the code looks at. -/
def Shallow (hWnd : HWND) : Prop :=
  (d.ancestors hWnd).length < d.fuel ∧ (d.ancestors hWnd).length ≤ 64

/-- The client area of a window on the screen. -/
def area (hWnd : HWND) : Option RECT :=
  match d.getWindowRect hWnd, d.getClientRect hWnd with
  | some rcWnd, some rcClient => some (rcClient.offset rcWnd.left rcWnd.top)
  | _, _ => none

/-- A window and the client areas above it, on the screen. -/
def areas (hWnd : HWND) (rcWnd : RECT) : List RECT :=
  rcWnd :: (d.ancestors hWnd).filterMap d.area

/-- **The point of the window is visible**: it is in the window and in the client areas of all the
windows above. -/
def Visible (hWnd : HWND) (x y : ℤ) : Prop :=
  ∃ rcWnd ∈ d.getWindowRect hWnd,
    ∀ rc ∈ d.areas hWnd rcWnd, ptInRect rc (x + rcWnd.left) (y + rcWnd.top)

/-- All of the window is visible. -/
def Whole (hWnd : HWND) : Prop :=
  ∃ rcWnd ∈ d.getWindowRect hWnd,
    ∀ x y, ptInRect (rcWnd.offset (-rcWnd.left) (-rcWnd.top)) x y → d.Visible hWnd x y

/-- **The point is between areas that do not meet.** -/
def Between (hWnd : HWND) (x y : ℤ) : Prop :=
  ∃ rcWnd ∈ d.getWindowRect hWnd,
    let l := d.areas hWnd rcWnd
    let crossedX := Crossed (l.map RECT.left) (l.map RECT.right) (x + rcWnd.left)
    let crossedY := Crossed (l.map RECT.top) (l.map RECT.bottom) (y + rcWnd.top)
    (Inside (l.map RECT.left) (l.map RECT.right) (x + rcWnd.left) ∨ crossedX) ∧
      (Inside (l.map RECT.top) (l.map RECT.bottom) (y + rcWnd.top) ∨ crossedY) ∧
        (crossedX ∨ crossedY)

end Desktop

/-! ### What is left of a rectangle -/

/-- What the loop leaves of a rectangle. -/
def meet (rc : RECT) (l : List RECT) : RECT := l.foldl (fun a b => (intersectRect a b).2) rc

section Meet

variable (rc : RECT) (l : List RECT) (x : ℤ)

theorem meet_le_iff {f : RECT → ℤ} (hf : ∀ a b, f (intersectRect a b).2 = max (f a) (f b)) :
    f (meet rc l) ≤ x ↔ ∀ a ∈ (rc :: l).map f, a ≤ x := by
  induction l generalizing rc with
  | nil => simp [meet]
  | cons b l ih =>
    rw [meet, List.foldl_cons, ← meet, ih]
    simp only [List.map_cons, List.forall_mem_cons, hf, max_le_iff, and_assoc]

theorem lt_meet_iff {f : RECT → ℤ} (hf : ∀ a b, f (intersectRect a b).2 = min (f a) (f b)) :
    x < f (meet rc l) ↔ ∀ a ∈ (rc :: l).map f, x < a := by
  induction l generalizing rc with
  | nil => simp [meet]
  | cons b l ih =>
    rw [meet, List.foldl_cons, ← meet, ih]
    simp only [List.map_cons, List.forall_mem_cons, hf, lt_min_iff, and_assoc]

/-- A coordinate is in all areas if it is between the sides that are left. -/
theorem inside_iff {f g : RECT → ℤ} (hf : ∀ a b, f (intersectRect a b).2 = max (f a) (f b))
    (hg : ∀ a b, g (intersectRect a b).2 = min (g a) (g b)) :
    Inside ((rc :: l).map f) ((rc :: l).map g) x ↔ f (meet rc l) ≤ x ∧ x < g (meet rc l) :=
  and_congr (meet_le_iff rc l x hf).symm (lt_meet_iff rc l x hg).symm

theorem crossed_iff {f g : RECT → ℤ} (hf : ∀ a b, f (intersectRect a b).2 = max (f a) (f b))
    (hg : ∀ a b, g (intersectRect a b).2 = min (g a) (g b)) :
    Crossed ((rc :: l).map f) ((rc :: l).map g) x ↔ g (meet rc l) ≤ x ∧ x < f (meet rc l) := by
  rw [← not_lt, lt_meet_iff rc l x hg, ← not_le, meet_le_iff rc l x hf]
  simp only [Crossed, not_forall, exists_prop, not_lt, not_le]

end Meet

namespace Desktop

variable {d : Desktop} {hWnd : HWND}

theorem getWindowRect_isSome_iff :
    (d.getWindowRect hWnd).isSome = true ↔ (d.wndRect hWnd).isSome = true := by
  rw [getWindowRect, Option.isSome_map]

theorem getClientRect_isSome_iff :
    (d.getClientRect hWnd).isSome = true ↔ (d.wndRect hWnd).isSome = true := by
  unfold getClientRect wndRect
  cases d.window hWnd with
  | none => simp
  | some wnd => simp

theorem clientClipLoop_eq (n : ℕ) (rc : RECT) :
    d.clientClipLoop n hWnd rc = (true, meet rc ((d.ancestorsUpTo n hWnd).filterMap d.area)) := by
  induction n generalizing hWnd rc with
  | zero => rfl
  | succ n ih =>
    rw [clientClipLoop, ancestorsUpTo]
    cases d.above hWnd with
    | none => rfl
    | some hParent =>
      by_cases hsome : (d.wndRect hParent).isSome = true
      · obtain ⟨rcParent, hrect⟩ := Option.isSome_iff_exists.1 (getWindowRect_isSome_iff.2 hsome)
        obtain ⟨rcClient, hclient⟩ := Option.isSome_iff_exists.1 (getClientRect_isSome_iff.2 hsome)
        have harea : d.area hParent = some (rcClient.offset rcParent.left rcParent.top) := by
          rw [area, hrect, hclient]
        simp only [hrect, hclient, intersectRect, if_pos hsome, List.filterMap_cons, harea]
        exact ih _
      · have hnone : d.getWindowRect hParent = none := by
          rw [← Option.not_isSome_iff_eq_none, getWindowRect_isSome_iff]
          exact hsome
        simp only [hnone, if_neg hsome]
        rfl

/-- A chain that ends is found with any number of steps that it needs. -/
theorem ancestorsUpTo_eq {n m : ℕ} (hend : (d.ancestorsUpTo n hWnd).length < n)
    (hm : (d.ancestorsUpTo n hWnd).length ≤ m) :
    d.ancestorsUpTo m hWnd = d.ancestorsUpTo n hWnd := by
  induction n generalizing hWnd m with
  | zero => exact absurd hend (Nat.not_lt_zero _)
  | succ n ih =>
    rw [ancestorsUpTo] at hend hm ⊢
    cases habove : d.above hWnd with
    | none => cases m <;> simp [ancestorsUpTo, habove]
    | some hParent =>
      rw [habove] at hend hm
      by_cases hsome : (d.wndRect hParent).isSome = true
      · simp only [if_pos hsome, List.length_cons] at hend hm
        obtain ⟨m, rfl⟩ : ∃ k, m = k + 1 := ⟨m - 1, by omega⟩
        simp only [ancestorsUpTo, habove, if_pos hsome]
        rw [ih (by omega) (by omega)]
      · cases m <;> simp [ancestorsUpTo, habove, hsome]

/-- The rectangle that the code finds. -/
def clipRect (d : Desktop) (hWnd : HWND) (rcWnd : RECT) : RECT :=
  (meet rcWnd ((d.ancestors hWnd).filterMap d.area)).offset (-rcWnd.left) (-rcWnd.top)

theorem getWindowClientClip_eq {rcWnd : RECT} (hrect : d.getWindowRect hWnd = some rcWnd)
    (hend : (d.ancestors hWnd).length < d.fuel) (hdepth : (d.ancestors hWnd).length ≤ 64) :
    d.getWindowClientClip hWnd = (true, d.clipRect hWnd rcWnd) := by
  rw [getWindowClientClip, hrect]
  simp only [clientClipLoop_eq, ancestorsUpTo_eq hend hdepth]
  rfl

/-! ### The points -/

section Points

variable {rcWnd : RECT}

/-- The areas are around the point if it is between the sides that are left. -/
theorem inside_areas_iff (d : Desktop) (hWnd : HWND) (rcWnd : RECT) (x y : ℤ) :
    (Inside ((d.areas hWnd rcWnd).map RECT.left) ((d.areas hWnd rcWnd).map RECT.right)
        (x + rcWnd.left) ↔
      (d.clipRect hWnd rcWnd).left ≤ x ∧ x < (d.clipRect hWnd rcWnd).right) ∧
    (Inside ((d.areas hWnd rcWnd).map RECT.top) ((d.areas hWnd rcWnd).map RECT.bottom)
        (y + rcWnd.top) ↔
      (d.clipRect hWnd rcWnd).top ≤ y ∧ y < (d.clipRect hWnd rcWnd).bottom) := by
  have hX := inside_iff rcWnd ((d.ancestors hWnd).filterMap d.area) (x + rcWnd.left)
    (show ∀ a b, RECT.left (intersectRect a b).2 = max (RECT.left a) (RECT.left b) from
      fun _ _ => rfl)
    (show ∀ a b, RECT.right (intersectRect a b).2 = min (RECT.right a) (RECT.right b) from
      fun _ _ => rfl)
  have hY := inside_iff rcWnd ((d.ancestors hWnd).filterMap d.area) (y + rcWnd.top)
    (show ∀ a b, RECT.top (intersectRect a b).2 = max (RECT.top a) (RECT.top b) from
      fun _ _ => rfl)
    (show ∀ a b, RECT.bottom (intersectRect a b).2 = min (RECT.bottom a) (RECT.bottom b) from
      fun _ _ => rfl)
  rw [areas, hX, hY]
  simp only [clipRect, RECT.offset]
  constructor <;> constructor <;> intro h <;> omega

theorem crossed_areas_iff (d : Desktop) (hWnd : HWND) (rcWnd : RECT) (x y : ℤ) :
    (Crossed ((d.areas hWnd rcWnd).map RECT.left) ((d.areas hWnd rcWnd).map RECT.right)
        (x + rcWnd.left) ↔
      (d.clipRect hWnd rcWnd).right ≤ x ∧ x < (d.clipRect hWnd rcWnd).left) ∧
    (Crossed ((d.areas hWnd rcWnd).map RECT.top) ((d.areas hWnd rcWnd).map RECT.bottom)
        (y + rcWnd.top) ↔
      (d.clipRect hWnd rcWnd).bottom ≤ y ∧ y < (d.clipRect hWnd rcWnd).top) := by
  have hX := crossed_iff rcWnd ((d.ancestors hWnd).filterMap d.area) (x + rcWnd.left)
    (show ∀ a b, RECT.left (intersectRect a b).2 = max (RECT.left a) (RECT.left b) from
      fun _ _ => rfl)
    (show ∀ a b, RECT.right (intersectRect a b).2 = min (RECT.right a) (RECT.right b) from
      fun _ _ => rfl)
  have hY := crossed_iff rcWnd ((d.ancestors hWnd).filterMap d.area) (y + rcWnd.top)
    (show ∀ a b, RECT.top (intersectRect a b).2 = max (RECT.top a) (RECT.top b) from
      fun _ _ => rfl)
    (show ∀ a b, RECT.bottom (intersectRect a b).2 = min (RECT.bottom a) (RECT.bottom b) from
      fun _ _ => rfl)
  rw [areas, hX, hY]
  simp only [clipRect, RECT.offset]
  constructor <;> constructor <;> intro h <;> omega

theorem exists_getWindowRect_iff (hrect : d.getWindowRect hWnd = some rcWnd) (P : RECT → Prop) :
    (∃ rc ∈ d.getWindowRect hWnd, P rc) ↔ P rcWnd := by
  rw [hrect]
  simp only [Option.mem_some_iff, exists_eq_left']

/-- **The rectangle has the visible points.** -/
theorem ptInRect_clipRect (hrect : d.getWindowRect hWnd = some rcWnd) (x y : ℤ) :
    ptInRect (d.clipRect hWnd rcWnd) x y ↔ d.Visible hWnd x y := by
  obtain ⟨hX, hY⟩ := inside_areas_iff d hWnd rcWnd x y
  rw [Visible, exists_getWindowRect_iff hrect]
  have hall : (∀ rc ∈ d.areas hWnd rcWnd, ptInRect rc (x + rcWnd.left) (y + rcWnd.top)) ↔
      Inside ((d.areas hWnd rcWnd).map RECT.left) ((d.areas hWnd rcWnd).map RECT.right)
          (x + rcWnd.left) ∧
        Inside ((d.areas hWnd rcWnd).map RECT.top) ((d.areas hWnd rcWnd).map RECT.bottom)
          (y + rcWnd.top) := by
    simp only [Inside, List.forall_mem_map, ptInRect, forall_and]
  rw [hall, hX, hY]
  exact Iff.rfl

/-- **The region of a rectangle**, whose sides are put in order. -/
theorem covers_createRectRgn (rc : RECT) (x y : ℤ) :
    (createRectRgn rc.left rc.top rc.right rc.bottom).Covers x y ↔
      ((rc.left ≤ x ∧ x < rc.right) ∨ rc.right ≤ x ∧ x < rc.left) ∧
        ((rc.top ≤ y ∧ y < rc.bottom) ∨ rc.bottom ≤ y ∧ y < rc.top) := by
  have hord : ∀ a b c : ℤ, ((ordered a b).1 ≤ c ∧ c < (ordered a b).2) ↔
      (a ≤ c ∧ c < b) ∨ b ≤ c ∧ c < a := by
    intro a b c
    unfold ordered
    split_ifs <;> simp only <;> omega
  rw [← hord, ← hord]
  unfold createRectRgn setRectRgn
  simp only
  split_ifs with hne
  · simp [Region.WINEREGION.Covers]
  · refine iff_of_false (Region.not_covers_of_rects rfl x y) ?_
    omega

/-- **The region has the visible points, and those between areas that do not meet.** -/
theorem covers_clipRect (hrect : d.getWindowRect hWnd = some rcWnd) (x y : ℤ) :
    (createRectRgn (d.clipRect hWnd rcWnd).left (d.clipRect hWnd rcWnd).top
        (d.clipRect hWnd rcWnd).right (d.clipRect hWnd rcWnd).bottom).Covers x y ↔
      d.Visible hWnd x y ∨ d.Between hWnd x y := by
  obtain ⟨hX, hY⟩ := inside_areas_iff d hWnd rcWnd x y
  obtain ⟨hcX, hcY⟩ := crossed_areas_iff d hWnd rcWnd x y
  rw [covers_createRectRgn, ← ptInRect_clipRect hrect, Between, exists_getWindowRect_iff hrect]
  simp only [hX, hY, hcX, hcY, ptInRect]
  constructor
  · rintro ⟨hx | hx, hy⟩
    · rcases hy with hy | hy
      · exact .inl ⟨hx, hy⟩
      · exact .inr ⟨.inl hx, .inr hy, .inr hy⟩
    · exact .inr ⟨.inr hx, hy, .inl hx⟩
  · rintro (⟨hx, hy⟩ | ⟨hx, hy, -⟩)
    · exact ⟨.inl hx, .inl hy⟩
    · exact ⟨hx, hy⟩

end Points

/-! ### What is wanted -/

/-- What `SbRefreshWindowClip` wants for a window. -/
def clipWant (d : Desktop) (hWnd : HWND) (rcWnd : RECT) : Option RECT :=
  calcClipWant (rcWnd.offset (-rcWnd.left) (-rcWnd.top)) (d.getWindowClientClip hWnd).1
    (d.getWindowClientClip hWnd).2

theorem calcClipWant_eq {rcWnd rcClip : RECT} (hne : isRectEmpty rcWnd = false) :
    calcClipWant rcWnd true rcClip =
      if rcClip.left ≤ rcWnd.left ∧ rcClip.top ≤ rcWnd.top ∧ rcWnd.right ≤ rcClip.right ∧
        rcWnd.bottom ≤ rcClip.bottom then none else some rcClip := by
  simp only [calcClipWant, hne, Bool.false_eq_true, if_false, Bool.true_eq_false]

/-- **Nothing is clipped if and only if the whole window is visible.** -/
theorem clipWant_eq {rcWnd : RECT} (hrect : d.getWindowRect hWnd = some rcWnd)
    (hshallow : d.Shallow hWnd) (hwidth : rcWnd.left < rcWnd.right)
    (hheight : rcWnd.top < rcWnd.bottom) :
    (d.Whole hWnd ∧ d.clipWant hWnd rcWnd = none) ∨
      (¬ d.Whole hWnd ∧ d.clipWant hWnd rcWnd = some (d.clipRect hWnd rcWnd)) := by
  obtain ⟨own, hown⟩ : ∃ own, own = rcWnd.offset (-rcWnd.left) (-rcWnd.top) := ⟨_, rfl⟩
  have hsides : own.left = 0 ∧ own.top = 0 ∧ own.right = rcWnd.right - rcWnd.left ∧
      own.bottom = rcWnd.bottom - rcWnd.top := by
    rw [hown]
    simp only [RECT.offset]
    omega
  have hwhole : d.Whole hWnd ↔ (d.clipRect hWnd rcWnd).left ≤ own.left ∧
      (d.clipRect hWnd rcWnd).top ≤ own.top ∧ own.right ≤ (d.clipRect hWnd rcWnd).right ∧
      own.bottom ≤ (d.clipRect hWnd rcWnd).bottom := by
    rw [Whole, exists_getWindowRect_iff hrect, ← hown]
    simp only [← ptInRect_clipRect hrect, ptInRect]
    constructor
    · intro h
      -- The corners of the window are visible.
      have hfirst := h 0 0 (by omega)
      have hlast := h (rcWnd.right - rcWnd.left - 1) (rcWnd.bottom - rcWnd.top - 1) (by omega)
      omega
    · intro h x y hxy
      omega
  have hne : isRectEmpty own = false := by
    simp only [isRectEmpty, decide_eq_false_iff_not]
    omega
  rw [clipWant, getWindowClientClip_eq hrect hshallow.1 hshallow.2, ← hown, calcClipWant_eq hne]
  by_cases h : d.Whole hWnd
  · rw [if_pos (hwhole.1 h)]
    exact .inl ⟨h, rfl⟩
  · rw [if_neg (fun hc => h (hwhole.2 hc))]
    exact .inr ⟨h, rfl⟩

end Desktop

end Clip

end Swinx
