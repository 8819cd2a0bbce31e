import Swinx.Region.Basic

/-!
# Rectangles, round rectangles and moves

The functions that make a region from the sides of a rectangle, and those that move all points of
a region.

Their arithmetic is that of `INT` and of `INT64`, whose overflow is undefined, as is a write behind
an array.  A call is a value of `Option (Option α)`: `none` where its behaviour is undefined,
`some none` if it fails.

* `setRectRgn`, `createRectRgn`, `unionRectWithRegion` — rectangles.
* `ellipseRows`, `createRoundRectRgn`, `createEllipticRgn` — round rectangles.
* `offsetRegion`, `mirrorRegion` — moves.
-/

namespace Swinx

namespace Region

/-- The value, if it is one of an integer type of which `max` is the greatest one. -/
def signed (max : ℕ) (n : ℤ) : Option ℤ := if -(max : ℤ) - 1 ≤ n ∧ n ≤ max then some n else none

/-- The value as an `INT`. -/
def int (n : ℤ) : Option ℤ := signed INT_MAX n

/-- The value as an `INT64`. -/
def int64 (n : ℤ) : Option ℤ := signed 0x7FFFFFFFFFFFFFFF n

/-- `abs` of an `INT` -/
def abs (n : ℤ) : Option ℤ := if n < 0 then int (-n) else some n

/-- What a function with a result for failure does. -/
def call {α : Type*} : Except Fail α → Option (Option α)
  | .ok a => some (some a)
  | .error .refused => some none
  | .error (.overflow _) => none

/-- The two sides in their order. -/
def ordered (a b : ℤ) : ℤ × ℤ := if a > b then (b, a) else (a, b)

/-- `empty_region` -/
def emptyRegion (reg : WINEREGION) : WINEREGION :=
  { reg with
    rects := []
    extents := ⟨0, 0, 0, 0⟩
    fits := Nat.zero_le _ }

/-- `SetRectRgn` on the region of the handle. -/
def setRectRgn (obj : WINEREGION) (left top right bottom : ℤ) : WINEREGION :=
  let x := ordered left right
  let y := ordered top bottom
  if x.1 ≠ x.2 ∧ y.1 ≠ y.2 then
    { obj with
      rects := [⟨x.1, y.1, x.2, y.2⟩]
      extents := ⟨x.1, y.1, x.2, y.2⟩
      fits := (show 1 ≤ RGN_DEFAULT_RECTS by decide).trans obj.default_le }
  else emptyRegion obj

/-- `alloc_region(RGN_DEFAULT_RECTS)` -/
def defaultRegion : WINEREGION := ⟨RGN_DEFAULT_RECTS, [], ⟨0, 0, 0, 0⟩, le_rfl, Nat.zero_le _⟩

/-- `CreateRectRgn` -/
def createRectRgn (left top right bottom : ℤ) : WINEREGION :=
  setRectRgn defaultRegion left top right bottom

/-- The local region of `REGION_UnionRectWithRegion`. -/
def rectRegion (rect : RECT) : WINEREGION :=
  ⟨RGN_DEFAULT_RECTS, [rect], rect, le_rfl, show 1 ≤ RGN_DEFAULT_RECTS by decide⟩

/-- `REGION_UnionRectWithRegion` -/
def unionRectWithRegion (rect : RECT) (rgn : WINEREGION) : Except Fail WINEREGION :=
  let m : Mem Unit := Function.update (fun _ => rgn) .tra (rectRegion rect)
  (unionRegion m (.obj ()) (.obj ()) .tra).map fun m => m (.obj ())

/-! ### Round rectangles -/

/-- The variables of the loop of `CreateRoundRectRgn`, with how far from the sides the rows that it
has written begin and end. -/
structure Outline where
  x : ℤ
  y : ℕ
  dx : ℤ
  dy : ℤ
  err : ℤ
  rows : ℕ → Option ℤ

/-- The first half of a pass of the loop. -/
def outlineX (bsq e2 : ℤ) (s : Outline) : Option Outline :=
  if e2 ≥ s.dx then do
    let dx ← int64 (s.dx + bsq)
    let err ← int64 (s.err + dx)
    some { s with
      x := s.x + 1
      dx := dx
      err := err }
  else some s

/-- The second half, which writes a row to an array of `size` rectangles. -/
def outlineY (size : ℕ) (asq e2 : ℤ) (s : Outline) : Option Outline :=
  if e2 ≤ s.dy then do
    let dy ← int64 (s.dy + asq)
    let err ← int64 (s.err + dy)
    if s.y + 1 < size then
      some { s with
        y := s.y + 1
        dy := dy
        err := err
        rows := Function.update s.rows (s.y + 1) (some s.x) }
    else none
  else some s

/-- One pass of the loop. -/
def outlineStep (size : ℕ) (asq bsq : ℤ) (s : Outline) : Option Outline := do
  let e2 ← int64 (2 * s.err)
  let s ← outlineX bsq e2 s
  outlineY size asq e2 s

/-- The loop of `CreateRoundRectRgn`.  A pass that goes on increases `x` or `y`, so that there are
at most as many passes as `ellipse_width / 2 + 1` and `size` together. -/
def outlineLoop (size : ℕ) (half asq bsq : ℤ) : ℕ → Outline → Option Outline
  | 0, _ => none
  | fuel + 1, s =>
    if s.x ≤ half then (outlineStep size asq bsq s).bind (outlineLoop size half asq bsq fuel)
    else some s

/-- The rows of the lower half of an ellipse, as far as `CreateRoundRectRgn` writes them. -/
def ellipseRows (ellipse_width ellipse_height : ℤ) : Option (ℕ → Option ℤ) := do
  let size := max ellipse_height.toNat RGN_DEFAULT_RECTS
  let a := ellipse_width - 1
  let b := ellipse_height - 1
  let asq ← int64 (8 * a * a)
  let bsq ← int64 (8 * b * b)
  let dx ← int64 (4 * b * b * (1 - a))
  let dy ← int64 (4 * a * a * (1 + b % 2))
  let odd ← int (a * a)
  let err ← int64 (dx + dy)
  let err ← int64 (err + odd * (b % 2))
  let y := (ellipse_height / 2).toNat
  let s ← outlineLoop size (ellipse_width / 2) asq bsq
    ((ellipse_width / 2).toNat + 1 + size + 1)
    ⟨0, y, dx, dy, err, Function.update (fun _ => none) y (some 0)⟩
  some s.rows

/-- A row of the round rectangle: what is written there, or what the memory held. -/
def roundRow (junk : ℕ → RECT) (rows : ℕ → Option ℤ) (left right : ℤ) (y : ℕ) : ℤ × ℤ :=
  match rows y with
  | some x => (left + x, right - x)
  | none => (junk y).sides

/-- The rectangle `i` of the round rectangle, of which the upper half is that of the lower half. -/
def roundRect (junk : ℕ → RECT) (rows : ℕ → Option ℤ) (left top right bottom : ℤ) (height : ℕ)
    (i : ℕ) : RECT :=
  if i < height / 2 then
    let s := roundRow junk rows left right (height - 1 - i)
    ⟨s.1, top + i, s.2, top + i + 1⟩
  else
    let s := roundRow junk rows left right i
    -- the row in the middle extends to the upper half
    ⟨s.1, if i = height / 2 then top + i else bottom - height + i, s.2, bottom - height + i + 1⟩

/-- The region of the round rectangle. -/
def roundRegion (junk : ℕ → RECT) (rows : ℕ → Option ℤ) (left top right bottom : ℤ)
    (height : ℕ) : WINEREGION :=
  { size := max height RGN_DEFAULT_RECTS
    rects := (List.range height).map (roundRect junk rows left top right bottom height)
    extents := ⟨left, top, right, bottom⟩
    default_le := le_max_right _ _
    fits := by simp }

/-- The sizes of the ellipse that fit in the rectangle. -/
def ellipseSize (left top right bottom ellipse_width ellipse_height : ℤ) : Option (ℤ × ℤ) := do
  let w ← int (right - left)
  let h ← int (bottom - top)
  let ew ← abs ellipse_width
  let eh ← abs ellipse_height
  some (min w ew, min h eh)

/-- `CreateRoundRectRgn`, where `junk` is what the memory of a new array holds. -/
def createRoundRectRgn (junk : ℕ → RECT)
    (left top right bottom ellipse_width ellipse_height : ℤ) : Option (Option WINEREGION) := do
  let x := ordered left right
  let y := ordered top bottom
  let right ← int (x.2 - 1)
  let bottom ← int (y.2 - 1)
  let size ← ellipseSize x.1 y.1 right bottom ellipse_width ellipse_height
  if size.1 < 2 ∨ size.2 < 2 then some (some (createRectRgn x.1 y.1 right bottom))
  else
    match initRegion size.2.toNat with
    | .ok _ => do
      let rows ← ellipseRows size.1 size.2
      some (some (roundRegion junk rows x.1 y.1 right bottom size.2.toNat))
    | .error _ => some none

/-- `CreateEllipticRgn` -/
def createEllipticRgn (junk : ℕ → RECT) (left top right bottom : ℤ) :
    Option (Option WINEREGION) := do
  let width ← int (right - left)
  let height ← int (bottom - top)
  createRoundRectRgn junk left top right bottom width height

/-- All sides are numbers of type `INT`. -/
def RECT.IsInt (r : RECT) : Prop :=
  (int r.left).isSome ∧ (int r.top).isSome ∧ (int r.right).isSome ∧ (int r.bottom).isSome

instance decidableIsInt (r : RECT) : Decidable r.IsInt := inferInstanceAs (Decidable (_ ∧ _))

/-- The rectangle at another place. -/
def RECT.offset (r : RECT) (x y : ℤ) : RECT := ⟨r.left + x, r.top + y, r.right + x, r.bottom + y⟩

/-- `REGION_OffsetRegion`, where source and destination are the same. -/
def offsetRegion (rgn : WINEREGION) (x y : ℤ) : Option WINEREGION :=
  if (x = 0 ∧ y = 0) ∨ rgn.rects = [] then some rgn
  else if (∀ r ∈ rgn.rects, (r.offset x y).IsInt) ∧ (rgn.extents.offset x y).IsInt then
    some { rgn with
      rects := rgn.rects.map fun r => r.offset x y
      extents := rgn.extents.offset x y
      fits := by simpa using rgn.fits }
  else none

/-- The rectangle as seen in a mirror between `0` and `width`. -/
def RECT.mirror (r : RECT) (width : ℤ) : RECT :=
  ⟨width - r.right, r.top, width - r.left, r.bottom⟩

/-- The bands, each from right to left. -/
def reverseBands : List RECT → List RECT
  | [] => []
  | r :: rs => (topBand (r :: rs)).reverse ++ reverseBands (afterBand (r :: rs))
termination_by rects => rects.length
decreasing_by exact length_afterBand_lt (List.cons_ne_nil _ _)

theorem length_reverseBands (rects : List RECT) : (reverseBands rects).length = rects.length := by
  induction rects using reverseBands.induct with
  | case1 => simp [reverseBands]
  | case2 r rs ih =>
    rw [reverseBands, List.length_append, List.length_reverse, ih, ← List.length_append,
      topBand_append_afterBand]

/-- The array for the rectangles of a mirrored region: that of the destination, or a new one if
source and destination are the same. -/
def mirrorSize (dst : WINEREGION) (same : Bool) (n : ℕ) : Option WINEREGION :=
  if same then (initRegion n).toOption else some (growRegion dst n)

theorem le_initRegion_size {n : ℕ} {reg : WINEREGION} (h : initRegion n = .ok reg) :
    n ≤ reg.size := by
  simp only [initRegion] at h
  split_ifs at h
  obtain rfl := Except.ok.inj h
  exact le_max_left n RGN_DEFAULT_RECTS

theorem le_mirrorSize {dst tmp : WINEREGION} {same : Bool} {n : ℕ}
    (h : mirrorSize dst same n = some tmp) : n ≤ tmp.size := by
  unfold mirrorSize at h
  split_ifs at h
  · cases hinit : initRegion n with
    | ok reg =>
      rw [hinit] at h
      exact Option.some.inj h ▸ le_initRegion_size hinit
    | error e =>
      rw [hinit] at h
      cases h
  · exact Option.some.inj h ▸ le_growRegion_size _ _

/-- `REGION_MirrorRegion`, where `same` tells whether the destination is the source. -/
def mirrorRegion (dst src : WINEREGION) (same : Bool) (width : ℤ) : Option (Option WINEREGION) :=
  match h : mirrorSize dst same src.numRects with
  | none => some none
  | some tmp =>
    if (∀ r ∈ src.rects, (r.mirror width).IsInt) ∧ (src.extents.mirror width).IsInt then
      some (some
        { size := tmp.size
          rects := (reverseBands src.rects).map fun r => r.mirror width
          extents := src.extents.mirror width
          default_le := tmp.default_le
          fits := by
            rw [List.length_map, length_reverseBands]
            exact le_mirrorSize h })
    else none

end Region

end Swinx
