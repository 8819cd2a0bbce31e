import Mathlib.Data.Int.Notation
import Mathlib.Data.List.Basic
import Mathlib.Data.List.ModifyLast
import Mathlib.Logic.Function.Basic
import Mathlib.Order.MinMax

/-!
# Regions

A region is an array of rectangles with its bounding box.  `REGION_RegionOp` goes through the bands
of two regions from top to bottom and lets callbacks add the rectangles of the result to a new
region, which then takes the place of the destination.

The arrays are lists, of which the capacity is kept beside them.  `malloc` and `realloc` succeed,
but `init_region` refuses an array of more than `INT_MAX / sizeof(RECT)` rectangles, and the
numbers of rectangles are computed as `INT`, whose overflow is undefined.  A function that fails
has changed no region but its own local ones.

* `WINEREGION`, `Mem` — a region, and the regions behind the pointers.
* `coalesce`, `regionOp` — the sweep and the merging of bands.
* `intersectRegion`, `unionRegion`, `subtractRegion`, `xorRegion` — the operations.
* `combineRgn` — the call.
-/

namespace Swinx

namespace Region

/-! ### Regions -/

/-- `INT_MAX` -/
def INT_MAX : ℕ := 0x7FFFFFFF

/-- `sizeof(RECT)` -/
def SIZEOF_RECT : ℕ := 16

def RGN_DEFAULT_RECTS : ℕ := 4

structure RECT where
  left : ℤ
  top : ℤ
  right : ℤ
  bottom : ℤ
  deriving DecidableEq, Repr

/-- A region, whose array has room for `size` rectangles. -/
structure WINEREGION where
  size : ℕ
  rects : List RECT
  extents : RECT
  default_le : RGN_DEFAULT_RECTS ≤ size
  fits : rects.length ≤ size
  deriving DecidableEq

/-- `numRects` -/
def WINEREGION.numRects (rgn : WINEREGION) : ℕ := rgn.rects.length

/-- Why a function returns `FALSE`, or does not return as it should. -/
inductive Fail
  /-- `init_region` refuses an array as too long. -/
  | refused
  /-- A number computed from `n` rectangles is no `INT`. -/
  | overflow (n : ℕ)
  deriving DecidableEq, Repr

/-- What a call returns when it fails. -/
def ERROR : ℕ := 0

def NULLREGION : ℕ := 1

def SIMPLEREGION : ℕ := 2

def COMPLEXREGION : ℕ := 3

/-- `get_region_type` -/
def getRegionType (obj : WINEREGION) : ℕ :=
  match obj.numRects with
  | 0 => NULLREGION
  | 1 => SIMPLEREGION
  | _ => COMPLEXREGION

/-- `overlapping` -/
def overlapping (r1 r2 : RECT) : Bool :=
  r1.right > r2.left && r1.left < r2.right && r1.bottom > r2.top && r1.top < r2.bottom

/-- `init_region` -/
def initRegion (n : ℕ) : Except Fail WINEREGION :=
  let n' := max n RGN_DEFAULT_RECTS
  if n' > RGN_DEFAULT_RECTS ∧ n' > INT_MAX / SIZEOF_RECT then .error .refused
  else .ok ⟨n', [], ⟨0, 0, 0, 0⟩, le_max_right _ _, Nat.zero_le _⟩

/-- `grow_region` -/
def growRegion (rgn : WINEREGION) (size : ℕ) : WINEREGION :=
  if h : size ≤ rgn.size then rgn
  else { rgn with
    size := size
    default_le := rgn.default_le.trans (Nat.le_of_not_le h)
    fits := rgn.fits.trans (Nat.le_of_not_le h) }

theorem growRegion_rects (rgn : WINEREGION) (size : ℕ) :
    (growRegion rgn size).rects = rgn.rects := by
  unfold growRegion
  split_ifs <;> rfl

theorem le_growRegion_size (rgn : WINEREGION) (size : ℕ) : size ≤ (growRegion rgn size).size := by
  unfold growRegion
  split_ifs with h
  · exact h
  · exact le_rfl

/-- The region with one more rectangle, for which it has room. -/
def WINEREGION.append (reg : WINEREGION) (rect : RECT) (h : reg.rects.length < reg.size) :
    WINEREGION :=
  { reg with
    rects := reg.rects ++ [rect]
    fits := by simpa using Nat.succ_le_of_lt h }

/-- `add_rect` -/
def addRect (reg : WINEREGION) (left top right bottom : ℤ) : Except Fail WINEREGION :=
  if h : reg.rects.length ≥ reg.size then
    if 2 * reg.size ≤ INT_MAX then
      .ok ((growRegion reg (2 * reg.size)).append ⟨left, top, right, bottom⟩ (by
        have hsize := le_growRegion_size reg (2 * reg.size)
        have hfour := reg.default_le
        have hfits := reg.fits
        rw [growRegion_rects]
        unfold RGN_DEFAULT_RECTS at hfour
        omega))
    else .error (.overflow reg.size)
  else .ok (reg.append ⟨left, top, right, bottom⟩ (Nat.lt_of_not_le h))

/-- The region with other rectangles, not more than before. -/
def WINEREGION.setRects (reg : WINEREGION) (rects : List RECT)
    (h : rects.length ≤ reg.rects.length) : WINEREGION :=
  { reg with
    rects := rects
    fits := h.trans reg.fits }

/-- The rectangles of the first band: those with the top of the first one. -/
def topBand : List RECT → List RECT
  | [] => []
  | r :: rs => (r :: rs).takeWhile fun s => s.top == r.top

/-- The rectangles after the first band. -/
def afterBand : List RECT → List RECT
  | [] => []
  | r :: rs => (r :: rs).dropWhile fun s => s.top == r.top

theorem topBand_append_afterBand (r : List RECT) : topBand r ++ afterBand r = r := by
  cases r with
  | nil => rfl
  | cons r rs => exact List.takeWhile_append_dropWhile

theorem length_afterBand_lt {r : List RECT} (h : r ≠ []) : (afterBand r).length < r.length := by
  cases r with
  | nil => exact absurd rfl h
  | cons r rs =>
    simp only [afterBand, List.dropWhile_cons, beq_self_eq_true, if_true, List.length_cons]
    exact Nat.lt_succ_of_le (List.dropWhile_suffix _).length_le

/-- The sides of a rectangle. -/
def RECT.sides (r : RECT) : ℤ × ℤ := (r.left, r.right)

/-- The rectangles of `prev` down to the bottoms of those of `cur`. -/
def setBottoms (prev cur : List RECT) : List RECT :=
  List.zipWith (fun p c => { p with bottom := c.bottom }) prev cur

/-- The band `cur` begins where `prev` ends, with the same sides. -/
def LinesUp (prev cur : List RECT) : Prop :=
  (cur.length = prev.length ∧ cur.length ≠ 0) ∧
    prev.head?.map RECT.bottom = cur.head?.map RECT.top ∧
    prev.map RECT.sides = cur.map RECT.sides

instance decidableLinesUp (prev cur : List RECT) : Decidable (LinesUp prev cur) :=
  inferInstanceAs (Decidable (_ ∧ _))

/-- The array with the first band from `curStart` merged into the one from `prevStart`. -/
def mergedRects (rects : List RECT) (prevStart curStart : ℕ) : List RECT :=
  (rects.take curStart).take prevStart ++
    setBottoms ((rects.take curStart).drop prevStart) (topBand (rects.drop curStart)) ++
    afterBand (rects.drop curStart)

theorem length_mergedRects_le (rects : List RECT) (prevStart curStart : ℕ) :
    (mergedRects rects prevStart curStart).length ≤ rects.length := by
  have hcur := congrArg List.length (topBand_append_afterBand (rects.drop curStart))
  simp only [List.length_append, List.length_drop] at hcur
  simp only [mergedRects, setBottoms, List.length_append, List.length_zipWith, List.length_take,
    List.length_drop]
  omega

/-- `REGION_Coalesce` -/
def coalesce (pReg : WINEREGION) (prevStart curStart : ℕ) : WINEREGION × ℕ :=
  let prev := (pReg.rects.take curStart).drop prevStart
  let cur := topBand (pReg.rects.drop curStart)
  let others := afterBand (pReg.rects.drop curStart)
  -- the start of the last band, if more than one was added
  let curStart' :=
    if others = [] then curStart else pReg.numRects - (topBand pReg.rects.reverse).length
  if LinesUp prev cur then
    (pReg.setRects (mergedRects pReg.rects prevStart curStart) (length_mergedRects_le _ _ _),
      if others = [] then prevStart else curStart')
  else (pReg, curStart')

/-- `REGION_SetExtents` -/
def setExtents (pReg : WINEREGION) : WINEREGION :=
  match pReg.rects.head?, pReg.rects.getLast? with
  | some first, some last =>
    let sides := pReg.rects.foldl (fun e r => (min r.left e.1, max r.right e.2))
      (first.left, last.right)
    { pReg with extents := ⟨sides.1, first.top, sides.2, last.bottom⟩ }
  | _, _ => { pReg with extents := ⟨0, 0, 0, 0⟩ }

/-- `REGION_compact` -/
def compact (reg : WINEREGION) : WINEREGION :=
  if h : reg.rects.length < reg.size / 2 ∧ reg.rects.length > RGN_DEFAULT_RECTS then
    { reg with
      size := reg.rects.length
      default_le := h.2.le
      fits := le_rfl }
  else reg

/-- `overlapFunc` -/
abbrev OverlapFunc := WINEREGION → List RECT → List RECT → ℤ → ℤ → Except Fail WINEREGION

/-- `nonOverlap1Func` and `nonOverlap2Func` -/
abbrev NonOverlapFunc := WINEREGION → List RECT → ℤ → ℤ → Except Fail WINEREGION

/-- The callbacks of an operation. -/
structure Callbacks where
  overlapFunc : OverlapFunc
  /-- Or `NULL`. -/
  nonOverlap1Func : Option NonOverlapFunc
  /-- Or `NULL`. -/
  nonOverlap2Func : Option NonOverlapFunc

/-- Calls the callback on a band between two heights, if there are one and the other. -/
def callNonOverlap (f : Option NonOverlapFunc) (newReg : WINEREGION) (r : List RECT)
    (top bot : ℤ) : Except Fail WINEREGION :=
  match f with
  | some f => if top ≠ bot then f newReg r top bot else .ok newReg
  | none => .ok newReg

/-- Merges what was added since `curBand`; the start of the last band. -/
def coalesceAdded (newReg : WINEREGION) (prevBand curBand : ℕ) : WINEREGION × ℕ :=
  if newReg.numRects ≠ curBand then coalesce newReg prevBand curBand else (newReg, prevBand)

/-- One pass of the loop of `REGION_RegionOp`, where `r1` and `r2` begin with `a` and `b`. -/
def sweepBand (ops : Callbacks) (a : RECT) (r1 : List RECT) (b : RECT) (r2 : List RECT)
    (ybot : ℤ) (newReg : WINEREGION) (prevBand : ℕ) : Except Fail (WINEREGION × ℕ) :=
  let nonOverlap :=
    if a.top < b.top then
      callNonOverlap ops.nonOverlap1Func newReg (topBand r1) (max a.top ybot)
        (min a.bottom b.top)
    else if b.top < a.top then
      callNonOverlap ops.nonOverlap2Func newReg (topBand r2) (max b.top ybot)
        (min b.bottom a.top)
    else .ok newReg
  let ytop := if a.top < b.top then b.top else a.top
  nonOverlap.bind fun newReg' =>
    let p := coalesceAdded newReg' prevBand newReg.numRects
    let ybot := min a.bottom b.bottom
    let overlap :=
      if ybot > ytop then ops.overlapFunc p.1 (topBand r1) (topBand r2) ytop ybot else .ok p.1
    overlap.bind fun newReg' => .ok (coalesceAdded newReg' p.2 p.1.numRects)

/-- The region after the band that ends at `ybot`. -/
def skipBand (ybot : ℤ) (a : RECT) (r : List RECT) : List RECT :=
  if a.bottom = ybot then afterBand r else r

/-- Where the loop of `REGION_RegionOp` ends. -/
structure Swept where
  r1 : List RECT
  r2 : List RECT
  ybot : ℤ
  newReg : WINEREGION
  prevBand : ℕ

theorem length_skipBand_lt {ybot : ℤ} {a b : RECT} {r1 r2 : List RECT}
    (hy : ybot = min a.bottom b.bottom) :
    (skipBand ybot a (a :: r1)).length + (skipBand ybot b (b :: r2)).length <
      (a :: r1).length + (b :: r2).length := by
  have h1 := length_afterBand_lt (List.cons_ne_nil a r1)
  have h2 := length_afterBand_lt (List.cons_ne_nil b r2)
  unfold skipBand
  rcases min_choice a.bottom b.bottom with h | h <;> rw [h] at hy <;> subst hy <;> split_ifs <;>
    omega

/-- The loop of `REGION_RegionOp`. -/
def sweep (ops : Callbacks) : List RECT → List RECT → ℤ → WINEREGION → ℕ → Except Fail Swept
  | a :: r1, b :: r2, ybot, newReg, prevBand =>
    (sweepBand ops a (a :: r1) b (b :: r2) ybot newReg prevBand).bind fun p =>
      sweep ops (skipBand (min a.bottom b.bottom) a (a :: r1))
        (skipBand (min a.bottom b.bottom) b (b :: r2)) (min a.bottom b.bottom) p.1 p.2
  | r1, r2, ybot, newReg, prevBand => .ok ⟨r1, r2, ybot, newReg, prevBand⟩
termination_by r1 r2 => r1.length + r2.length
decreasing_by exact length_skipBand_lt rfl

/-- The loop over the bands that one of the regions has left. -/
def drain (f : NonOverlapFunc) : List RECT → ℤ → WINEREGION → Except Fail WINEREGION
  | [], _, newReg => .ok newReg
  | a :: r, ybot, newReg =>
    (f newReg (topBand (a :: r)) (max a.top ybot) a.bottom).bind fun newReg =>
      drain f (afterBand (a :: r)) ybot newReg
termination_by r => r.length
decreasing_by exact length_afterBand_lt (List.cons_ne_nil _ _)

/-- The same, if there is a callback for them. -/
def drainLeft (f : Option NonOverlapFunc) (r : List RECT) (ybot : ℤ) (newReg : WINEREGION) :
    Except Fail WINEREGION :=
  match f with
  | some f => drain f r ybot newReg
  | none => .ok newReg

/-- The end of `REGION_RegionOp`: the bands that are left, the last merging, and the array. -/
def finish (ops : Callbacks) (s : Swept) : Except Fail WINEREGION :=
  let drained :=
    if s.r1 ≠ [] then drainLeft ops.nonOverlap1Func s.r1 s.ybot s.newReg
    else drainLeft ops.nonOverlap2Func s.r2 s.ybot s.newReg
  drained.bind fun newReg =>
    .ok (compact (coalesceAdded newReg s.prevBand s.newReg.numRects).1)

/-- `2 * n` as an `INT`. -/
def twice (n : ℕ) : Except Fail ℕ :=
  if 2 * n ≤ INT_MAX then .ok (2 * n) else .error (.overflow n)

/-- What `REGION_RegionOp` makes of two regions that are not empty. -/
def opRegion (ops : Callbacks) (reg1 reg2 : WINEREGION) : Except Fail WINEREGION :=
  (twice (max reg1.numRects reg2.numRects)).bind fun n =>
    (initRegion n).bind fun newReg =>
      let ybot :=
        if reg1.extents.top < reg2.extents.top then reg1.extents.top else reg2.extents.top
      (sweep ops reg1.rects reg2.rects ybot newReg 0).bind (finish ops)

/-! ### Pointers -/

/-- A pointer to a region: an object, or a local variable of `REGION_XorRegion`. -/
inductive Ptr (ρ : Type*)
  | obj (rgn : ρ)
  | tra
  | trb
  deriving DecidableEq

/-- The regions behind the pointers. -/
abbrev Mem (ρ : Type*) := Ptr ρ → WINEREGION

variable {ρ η : Type*} [DecidableEq ρ]

/-- `move_rects` -/
def moveRects (dst src : WINEREGION) : WINEREGION := { src with extents := dst.extents }

/-- `REGION_RegionOp` -/
def regionOp (ops : Callbacks) (m : Mem ρ) (destReg reg1 reg2 : Ptr ρ) : Except Fail (Mem ρ) :=
  (opRegion ops (m reg1) (m reg2)).map fun newReg =>
    Function.update m destReg (moveRects (m destReg) newReg)

/-- `REGION_CopyRegion` -/
def copyRegion (m : Mem ρ) (dst src : Ptr ρ) : Mem ρ :=
  if dst = src then m
  else
    Function.update m dst
      { size := (growRegion (m dst) (m src).numRects).size
        rects := (m src).rects
        extents := (m src).extents
        default_le := (growRegion (m dst) (m src).numRects).default_le
        fits := le_growRegion_size _ _ }

/-- `REGION_IntersectO` -/
def intersectO : OverlapFunc
  | pReg, a :: r1, b :: r2, top, bottom =>
    let left := max a.left b.left
    let right := min a.right b.right
    let added := if left < right then addRect pReg left top right bottom else .ok pReg
    added.bind fun pReg =>
      if a.right < b.right then intersectO pReg r1 (b :: r2) top bottom
      else if b.right < a.right then intersectO pReg (a :: r1) r2 top bottom
      else intersectO pReg r1 r2 top bottom
  | pReg, _, _, _, _ => .ok pReg
termination_by _ r1 r2 => r1.length + r2.length

/-- `REGION_IntersectRegion` -/
def intersectRegion (m : Mem ρ) (newReg reg1 reg2 : Ptr ρ) : Except Fail (Mem ρ) :=
  let result :=
    if (m reg1).numRects = 0 ∨ (m reg2).numRects = 0 ∨
        overlapping (m reg1).extents (m reg2).extents = false then
      .ok (Function.update m newReg ((m newReg).setRects [] (Nat.zero_le _)))
    else regionOp ⟨intersectO, none, none⟩ m newReg reg1 reg2
  result.map fun m => Function.update m newReg (setExtents (m newReg))

/-- Adds the rectangles of a band between two heights. -/
def addRects : NonOverlapFunc
  | pReg, [], _, _ => .ok pReg
  | pReg, r :: rs, top, bottom =>
    (addRect pReg r.left top r.right bottom).bind fun pReg => addRects pReg rs top bottom

/-- `REGION_UnionNonO` -/
def unionNonO : NonOverlapFunc := addRects

/-- The array whose last rectangle ends at `right`. -/
def widenLast (rects : List RECT) (right : ℤ) : List RECT :=
  rects.modifyLast fun last => { last with right := right }

theorem widenLast_concat (rects : List RECT) (last : RECT) (right : ℤ) :
    widenLast (rects ++ [last]) right = rects ++ [{ last with right := right }] :=
  List.modifyLast_concat _ _ _

theorem length_widenLast (rects : List RECT) (right : ℤ) :
    (widenLast rects right).length = rects.length := by
  rcases List.eq_nil_or_concat' rects with rfl | ⟨rects, last, rfl⟩
  · rfl
  · rw [widenLast_concat, List.length_append, List.length_append]
    rfl

/-- `MERGERECT` -/
def mergeRect (pReg : WINEREGION) (r : RECT) (top bottom : ℤ) : Except Fail WINEREGION :=
  match pReg.rects.getLast? with
  | some last =>
    if last.top = top ∧ last.bottom = bottom ∧ last.right ≥ r.left then
      if last.right < r.right then
        .ok (pReg.setRects (widenLast pReg.rects r.right) (length_widenLast _ _).le)
      else .ok pReg
    else addRect pReg r.left top r.right bottom
  | none => addRect pReg r.left top r.right bottom

/-- `REGION_UnionO` -/
def unionO : OverlapFunc
  | pReg, a :: r1, b :: r2, top, bottom =>
    if a.left < b.left then
      (mergeRect pReg a top bottom).bind fun pReg => unionO pReg r1 (b :: r2) top bottom
    else (mergeRect pReg b top bottom).bind fun pReg => unionO pReg (a :: r1) r2 top bottom
  | pReg, a :: r1, [], top, bottom =>
    (mergeRect pReg a top bottom).bind fun pReg => unionO pReg r1 [] top bottom
  | pReg, [], b :: r2, top, bottom =>
    (mergeRect pReg b top bottom).bind fun pReg => unionO pReg [] r2 top bottom
  | pReg, [], [], _, _ => .ok pReg
termination_by _ r1 r2 => r1.length + r2.length

/-- The first region is one rectangle that contains the second one. -/
def subsumes (reg1 reg2 : WINEREGION) : Prop :=
  reg1.numRects = 1 ∧ reg1.extents.left ≤ reg2.extents.left ∧
    reg1.extents.top ≤ reg2.extents.top ∧ reg1.extents.right ≥ reg2.extents.right ∧
    reg1.extents.bottom ≥ reg2.extents.bottom

instance decidableSubsumes (reg1 reg2 : WINEREGION) : Decidable (subsumes reg1 reg2) :=
  inferInstanceAs (Decidable (_ ∧ _))

/-- `REGION_UnionRegion` -/
def unionRegion (m : Mem ρ) (newReg reg1 reg2 : Ptr ρ) : Except Fail (Mem ρ) :=
  if reg1 = reg2 ∨ (m reg1).numRects = 0 then .ok (copyRegion m newReg reg2)
  else if (m reg2).numRects = 0 then .ok (copyRegion m newReg reg1)
  else if subsumes (m reg1) (m reg2) then .ok (copyRegion m newReg reg1)
  else if subsumes (m reg2) (m reg1) then .ok (copyRegion m newReg reg2)
  else
    (regionOp ⟨unionO, some unionNonO, some unionNonO⟩ m newReg reg1 reg2).map fun m =>
      -- each side reads the same side of the sources, one of which may be `newReg`
      Function.update m newReg
        { m newReg with
          extents :=
            ⟨min (m reg1).extents.left (m reg2).extents.left,
              min (m reg1).extents.top (m reg2).extents.top,
              max (m reg1).extents.right (m reg2).extents.right,
              max (m reg1).extents.bottom (m reg2).extents.bottom⟩ }

/-- `REGION_SubtractNonO1` -/
def subtractNonO1 : NonOverlapFunc := addRects

/-- The left edge of the next minuend, if there is one. -/
def nextLeft (r1 : List RECT) (left : ℤ) : ℤ :=
  match r1 with
  | [] => left
  | a :: _ => a.left

/-- The loops of `REGION_SubtractO`, with what of the first rectangle of `r1` is left. -/
def subtractFrom (top bottom : ℤ) : WINEREGION → ℤ → List RECT → List RECT →
    Except Fail WINEREGION
  | pReg, left, a :: r1, b :: r2 =>
    if b.right ≤ left then subtractFrom top bottom pReg left (a :: r1) r2
    else if b.left ≤ left then
      if b.right ≥ a.right then
        subtractFrom top bottom pReg (nextLeft r1 b.right) r1 (b :: r2)
      else subtractFrom top bottom pReg b.right (a :: r1) r2
    else if b.left < a.right then
      (addRect pReg left top b.left bottom).bind fun pReg =>
        if b.right ≥ a.right then
          subtractFrom top bottom pReg (nextLeft r1 b.right) r1 (b :: r2)
        else subtractFrom top bottom pReg b.right (a :: r1) r2
    else
      let added :=
        if a.right > left then addRect pReg left top a.right bottom else .ok pReg
      added.bind fun pReg => subtractFrom top bottom pReg (nextLeft r1 left) r1 (b :: r2)
  | pReg, left, a :: r1, [] =>
    (addRect pReg left top a.right bottom).bind fun pReg =>
      subtractFrom top bottom pReg (nextLeft r1 left) r1 []
  | pReg, _, [], _ => .ok pReg
termination_by _ _ r1 r2 => r1.length + r2.length

/-- `REGION_SubtractO` -/
def subtractO : OverlapFunc := fun pReg r1 r2 top bottom =>
  subtractFrom top bottom pReg (nextLeft r1 0) r1 r2

/-- `REGION_SubtractRegion` -/
def subtractRegion (m : Mem ρ) (regD regM regS : Ptr ρ) : Except Fail (Mem ρ) :=
  if (m regM).numRects = 0 ∨ (m regS).numRects = 0 ∨
      overlapping (m regM).extents (m regS).extents = false then
    .ok (copyRegion m regD regM)
  else
    (regionOp ⟨subtractO, some subtractNonO1, none⟩ m regD regM regS).map fun m =>
      Function.update m regD (setExtents (m regD))

/-! ### Exclusive or -/

/-- `n + 1` as an `INT`. -/
def succ (n : ℕ) : Except Fail ℕ :=
  if n + 1 ≤ INT_MAX then .ok (n + 1) else .error (.overflow n)

/-- `REGION_XorRegion` -/
def xorRegion (m : Mem ρ) (dr sra srb : Ptr ρ) : Except Fail (Mem ρ) :=
  ((succ (m sra).numRects).bind initRegion).bind fun tra =>
    ((succ (m srb).numRects).bind initRegion).bind fun trb =>
      (subtractRegion (Function.update (Function.update m .tra tra) .trb trb) .tra sra srb).bind
        fun m => (subtractRegion m .trb srb sra).bind fun m => unionRegion m dr .tra .trb

def RGN_AND : ℕ := 1
def RGN_OR : ℕ := 2
def RGN_XOR : ℕ := 3
def RGN_DIFF : ℕ := 4
def RGN_COPY : ℕ := 5

/-- The operation of a mode, if it is one for two sources. -/
def operation (mode : ℕ) : Option (Mem ρ → Ptr ρ → Ptr ρ → Ptr ρ → Except Fail (Mem ρ)) :=
  if mode = RGN_AND then some intersectRegion
  else if mode = RGN_OR then some unionRegion
  else if mode = RGN_XOR then some xorRegion
  else if mode = RGN_DIFF then some subtractRegion
  else none

/-- What the call returns: the type of the destination, or an error with the regions as they
were. -/
def returnType (m : Mem ρ) (destObj : Ptr ρ) (result : Except Fail (Mem ρ)) :
    Except ℕ (Mem ρ × ℕ) :=
  match result with
  | .ok m' => .ok (m', getRegionType (m' destObj))
  | .error .refused => .ok (m, ERROR)
  | .error (.overflow n) => .error n

/-- `CombineRgn`, where `getObjPtr` finds the regions of the handles; an error is a number of
rectangles from which one was computed that is no `INT`. -/
def combineRgn (getObjPtr : η → Option ρ) (m : Mem ρ) (hDest hSrc1 hSrc2 : η) (mode : ℕ) :
    Except ℕ (Mem ρ × ℕ) :=
  match getObjPtr hDest, getObjPtr hSrc1 with
  | some destObj, some src1Obj =>
    if mode = RGN_COPY then
      returnType m (.obj destObj) (.ok (copyRegion m (.obj destObj) (.obj src1Obj)))
    else
      match getObjPtr hSrc2, operation mode with
      | some src2Obj, some op =>
        returnType m (.obj destObj) (op m (.obj destObj) (.obj src1Obj) (.obj src2Obj))
      | _, _ => .ok (m, ERROR)
  | _, _ => .ok (m, ERROR)

end Region

end Swinx
