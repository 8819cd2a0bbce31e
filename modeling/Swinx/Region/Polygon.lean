import Swinx.Region.Shapes

/-!
# Polygons

`create_polypolygon_region` converts a polygon to a region, one scanline after the other.  The edges
wait in a table for the scanline on which they begin; those that the scanline crosses are in the
active edge table, from left to right.  All callers give one polygon and no clipping rectangle.

The lists are Lean's, and an array of rectangles has room for those that the edges were counted
for: a write behind it is undefined.  The winding edges are computed for each scanline here, where
`scan_convert` computes them when the active edges or their order have changed.

* `createEdgeTable` — the table of edges.
* `nextScanline` — the active edges from one scanline to the next.
* `alternateEdge`, `windingEdge` — the rectangles of a scanline.
* `scanConvert`, `createPolypolygonRegion`, `createPolygonRgn`, `extCreateRegion`.
-/

namespace Swinx

namespace Region

/-! ### Edges -/

structure POINT where
  x : ℤ
  y : ℤ
  deriving DecidableEq, Repr

/-- `bres_info` -/
structure BresInfo where
  minor_axis : ℤ
  d : ℤ
  m : ℤ
  m1 : ℤ
  incr1 : ℤ
  incr2 : ℤ
  deriving DecidableEq, Repr

/-- `bres_init_polygon`, for an edge that is not horizontal. -/
def bresInitPolygon (dy x1 x2 : ℤ) : Option BresInfo := do
  let dx ← int (x2 - x1)
  let twice ← int (2 * dy)
  let m := dx.tdiv dy
  if dx < 0 then do
    let m1 ← int (m - 1)
    let a ← int (-2 * dx)
    let b ← int (twice * m1)
    let incr1 ← int (a + b)
    let c ← int (twice * m)
    let incr2 ← int (a + c)
    let e ← int (2 * m * dy - 2 * dx)
    let d ← int (e - twice)
    some ⟨x1, d, m, m1, incr1, incr2⟩
  else do
    let m1 ← int (m + 1)
    let a ← int (2 * dx)
    let b ← int (twice * m1)
    let incr1 ← int (a - b)
    let c ← int (twice * m)
    let incr2 ← int (a - c)
    let d ← int (-2 * m * dy + 2 * dx)
    some ⟨x1, d, m, m1, incr1, incr2⟩

/-- `bres_incr_polygon` -/
def bresIncrPolygon (bres : BresInfo) : Option BresInfo :=
  if (bres.m1 > 0 ∧ bres.d > 0) ∨ (¬ bres.m1 > 0 ∧ bres.d ≥ 0) then do
    let minor_axis ← int (bres.minor_axis + bres.m1)
    let d ← int (bres.d + bres.incr1)
    some { bres with
      minor_axis := minor_axis
      d := d }
  else do
    let minor_axis ← int (bres.minor_axis + bres.m)
    let d ← int (bres.d + bres.incr2)
    some { bres with
      minor_axis := minor_axis
      d := d }

/-- `EdgeTableEntry` -/
structure EdgeTableEntry where
  ymax : ℤ
  bres : BresInfo
  clockWise : Bool
  deriving DecidableEq, Repr

/-- `EdgeTable`, with a list of edges for each scanline on which some begin. -/
structure EdgeTable where
  ymax : ℤ
  ymin : ℤ
  scanlines : List (ℤ × List EdgeTableEntry)

/-- Inserts an edge before the first one that does not begin to the left of it. -/
def insertEdge : List EdgeTableEntry → EdgeTableEntry → List EdgeTableEntry
  | [], e => [e]
  | entry :: l, e =>
    if entry.bres.minor_axis ≥ e.bres.minor_axis then e :: entry :: l
    else entry :: insertEdge l e

/-- `REGION_InsertEdgeInET` -/
def insertEdgeInET (e : EdgeTableEntry) (scanline : ℤ) :
    List (ℤ × List EdgeTableEntry) → List (ℤ × List EdgeTableEntry)
  | [] => [(scanline, [e])]
  | (s, edgelist) :: l =>
    if s < scanline then (s, edgelist) :: insertEdgeInET e scanline l
    else if s > scanline then (scanline, [e]) :: (s, edgelist) :: l
    else (s, insertEdge edgelist e) :: l

/-- The upper and the lower end of the edge between two corners. -/
def edgeEnds (prevPt currPt : POINT) : POINT × POINT :=
  if prevPt.y > currPt.y then (currPt, prevPt) else (prevPt, currPt)

/-- The edge between two corners. -/
def edgeEntry (prevPt currPt : POINT) : Option EdgeTableEntry := do
  let e := edgeEnds prevPt currPt
  let dy ← int (e.2.y - e.1.y)
  let bres ← bresInitPolygon dy e.1.x e.2.x
  some ⟨e.2.y - 1, bres, decide (prevPt.y ≤ currPt.y)⟩

/-- The table with one more edge. -/
def EdgeTable.insert (ET : EdgeTable) (prevPt currPt : POINT) (e : EdgeTableEntry) : EdgeTable :=
  let ends := edgeEnds prevPt currPt
  { ymax := if ends.2.y > ET.ymax then ends.2.y else ET.ymax
    ymin := if ends.1.y < ET.ymin then ends.1.y else ET.ymin
    scanlines := insertEdgeInET e ends.1.y ET.scanlines }

/-- The number of scanlines that an edge crosses. -/
def edgeHeight (prevPt currPt : POINT) : ℕ :=
  ((edgeEnds prevPt currPt).2.y - (edgeEnds prevPt currPt).1.y).toNat

/-- The loop of `REGION_CreateEdgeTable` over the corners of the polygon. -/
def addEdges : POINT → List POINT → EdgeTable → ℕ → Option (ℕ × EdgeTable)
  | _, [], ET, total => some (total, ET)
  | prevPt, currPt :: pts, ET, total =>
    -- horizontal edges are not added
    if prevPt.y = currPt.y then addEdges currPt pts ET total
    else
      (edgeEntry prevPt currPt).bind fun e =>
        if total + edgeHeight prevPt currPt ≥ 0x100000000 then some (0, ET)
        else addEdges currPt pts (ET.insert prevPt currPt e) (total + edgeHeight prevPt currPt)

/-- `REGION_CreateEdgeTable`: the sum of the heights of the edges, or 0 if it overflows, and the
table. -/
def createEdgeTable (pts : List POINT) : Option (ℕ × EdgeTable) :=
  let ET := ⟨-(INT_MAX : ℤ) - 1, INT_MAX, []⟩
  match pts.getLast? with
  | some last => if pts.length < 2 then some (0, ET) else addEdges last pts ET 0
  | none => some (0, ET)

/-! ### The active edges -/

/-- `REGION_loadAET` -/
def loadAET (AET ETEs : List EdgeTableEntry) : List EdgeTableEntry := ETEs.foldl insertEdge AET

/-- What `REGION_computeWAET` links: the edges at which the winding number becomes 0, or ceases to
be 0. -/
def computeWAET : Bool → ℤ → List EdgeTableEntry → List EdgeTableEntry
  | _, _, [] => []
  | inside, isInside, e :: AET =>
    let isInside := if e.clockWise then isInside + 1 else isInside - 1
    if (inside = false ∧ isInside = 0) ∨ (inside = true ∧ isInside ≠ 0) then
      e :: computeWAET (!inside) isInside AET
    else computeWAET inside isInside AET

/-- Moves an edge before the first one that is to the right of it. -/
def moveEdge : List EdgeTableEntry → EdgeTableEntry → List EdgeTableEntry
  | [], e => [e]
  | entry :: l, e =>
    if entry.bres.minor_axis > e.bres.minor_axis then e :: entry :: l
    else entry :: moveEdge l e

/-- An edge on the next scanline. -/
def incrEdge (e : EdgeTableEntry) : Option EdgeTableEntry :=
  (bresIncrPolygon e.bres).map fun bres => { e with bres := bres }

/-- `next_scanline`: the edges that go on, sorted again. -/
def nextScanline (AET : List EdgeTableEntry) (y : ℤ) : Option (List EdgeTableEntry) :=
  ((AET.filter fun e => e.ymax ≠ y).mapM incrEdge).map fun l => l.foldl moveEdge []

/-! ### Scanlines -/

/-- The region, with the left side and the top of the rectangle that has been begun, if one
has. -/
abbrev Row := WINEREGION × Option (ℤ × ℤ)

/-- Begins a rectangle, for which the array has room. -/
def beginRect (obj : WINEREGION) (left y : ℤ) : Option Row :=
  if obj.rects.length < obj.size then some (obj, some (left, y)) else none

/-- The region with one more rectangle. -/
def endRect (obj : WINEREGION) (r : RECT) : Option WINEREGION :=
  if h : obj.rects.length < obj.size then some (obj.append r h) else none

/-- The last rectangle is on the scanline, and does not end before `left`. -/
def touchesLast (obj : WINEREGION) (left y : ℤ) : Bool :=
  match obj.rects.getLast? with
  | some last => last.top == y && decide (last.right ≥ left)
  | none => false

/-- The body of the loop over the active edges, if the mode is not `WINDING`. -/
def alternateEdge (y : ℤ) (row : Row) (x : ℤ) : Option Row :=
  match row with
  | (obj, none) => beginRect obj x y
  | (obj, some (left, top)) =>
    if left ≠ x then
      if touchesLast obj left y then
        some (obj.setRects (widenLast obj.rects x) (length_widenLast _ _).le, none)
      else (endRect obj ⟨left, top, x, top + 1⟩).map fun obj => (obj, none)
    else some (obj, none)

/-- The body of the loop over the winding edges. -/
def windingEdge (y : ℤ) (row : Row) (x : ℤ) : Option Row :=
  match row with
  | (obj, none) => beginRect obj x y
  | (obj, some (left, top)) =>
    if left ≠ x then (endRect obj ⟨left, top, x, y + 1⟩).map fun obj => (obj, none)
    else some (obj, none)

/-- Where the edges cross the scanline. -/
def crossings (l : List EdgeTableEntry) : List ℤ := l.map fun e => e.bres.minor_axis

/-- The polygon filling modes. -/
inductive PolyFillMode
  | alternate
  | winding
  deriving DecidableEq, Repr

/-- The loop over the active edges of a scanline. -/
def scanRow (mode : PolyFillMode) (y : ℤ) (AET : List EdgeTableEntry) (row : Row) : Option Row :=
  match mode with
  | .alternate => (crossings AET).foldlM (alternateEdge y) row
  | .winding => (crossings (computeWAET true 0 AET)).foldlM (windingEdge y) row

/-- The edges that begin on the scanline are loaded. -/
def loadScanline (y : ℤ) (scanlines : List (ℤ × List EdgeTableEntry)) (AET : List EdgeTableEntry) :
    List (ℤ × List EdgeTableEntry) × List EdgeTableEntry :=
  match scanlines with
  | (s, edgelist) :: l => if y = s then (l, loadAET AET edgelist) else ((s, edgelist) :: l, AET)
  | [] => ([], AET)

/-- The variables of the loop of `scan_convert`. -/
structure Scan where
  y : ℤ
  scanlines : List (ℤ × List EdgeTableEntry)
  AET : List EdgeTableEntry
  row : Row
  prev_band : ℕ
  cur_band : ℕ

/-- The body of the loop of `scan_convert`. -/
def scanLine (mode : PolyFillMode) (s : Scan) : Option Scan :=
  let loaded := loadScanline s.y s.scanlines s.AET
  (scanRow mode s.y loaded.2 s.row).bind fun row =>
    (nextScanline loaded.2 s.y).map fun AET =>
      let c := coalesce row.1 s.prev_band s.cur_band
      if row.1.numRects ≠ 0 then
        ⟨s.y + 1, loaded.1, AET, (c.1, row.2), c.2, c.1.numRects⟩
      else ⟨s.y + 1, loaded.1, AET, row, s.prev_band, s.cur_band⟩

/-- The loop of `scan_convert`, over `n` scanlines. -/
def scanLines (mode : PolyFillMode) : ℕ → Scan → Option Scan
  | 0, s => some s
  | n + 1, s => (scanLine mode s).bind (scanLines mode n)

/-- `scan_convert` -/
def scanConvert (obj : WINEREGION) (ET : EdgeTable) (mode : PolyFillMode) : Option WINEREGION :=
  (scanLines mode (ET.ymax - ET.ymin).toNat ⟨ET.ymin, ET.scanlines, [], (obj, none), 0, 0⟩).map
    fun s => compact (if s.row.1.numRects ≠ 0 then setExtents s.row.1 else s.row.1)

/-- The polygon is a rectangle with horizontal and vertical sides, perhaps closed. -/
def rectangular : List POINT → Option (POINT × POINT)
  | p0 :: p1 :: p2 :: p3 :: pts =>
    if (pts = [] ∨ pts = [p0]) ∧
        ((p0.y = p1.y ∧ p1.x = p2.x ∧ p2.y = p3.y ∧ p3.x = p0.x) ∨
          (p0.x = p1.x ∧ p1.y = p2.y ∧ p2.x = p3.x ∧ p3.y = p0.y)) then some (p0, p2)
    else none
  | _ => none

/-- `create_polypolygon_region` -/
def createPolypolygonRegion (pts : List POINT) (mode : PolyFillMode) :
    Option (Option WINEREGION) :=
  match rectangular pts with
  | some (p0, p2) =>
    some (some (createRectRgn (min p0.x p2.x) (min p0.y p2.y) (max p0.x p2.x) (max p0.y p2.y)))
  | none =>
    (createEdgeTable pts).bind fun t =>
      match initRegion (t.1 / 2) with
      | .ok obj => if t.1 ≠ 0 then (scanConvert obj t.2 mode).map some else some (some obj)
      | .error _ => some none

/-- `CreatePolygonRgn` -/
def createPolygonRgn (pts : List POINT) (mode : PolyFillMode) : Option (Option WINEREGION) :=
  createPolypolygonRegion pts mode

/-- The corners of a rectangle, as `ExtCreateRegion` transforms them. -/
def corners (translate : POINT → POINT) (r : RECT) : List POINT :=
  [⟨r.left, r.top⟩, ⟨r.right, r.top⟩, ⟨r.right, r.bottom⟩, ⟨r.left, r.bottom⟩].map translate

/-- `CombineRgn(hrgn, hrgn, poly_hrgn, RGN_OR)`, of which the result is not looked at; without a
polygon it fails. -/
def combinePolygon (rgn : WINEREGION) (poly : Option WINEREGION) : Option WINEREGION :=
  let m : Mem Bool := Function.update (fun _ => rgn) (.obj true) (poly.getD rgn)
  match combineRgn (fun h => if h = true ∧ poly = none then none else some h) m false false true
    RGN_OR with
  | .ok (m, _) => some (m (.obj false))
  | .error _ => none

/-- The loop of `ExtCreateRegion` with a transformation, which may be any function. -/
def extCreateTransformed (translate : POINT → POINT) : List RECT → WINEREGION → Option WINEREGION
  | [], rgn => some rgn
  | r :: rects, rgn =>
    (createPolypolygonRegion (corners translate r) .winding).bind fun poly =>
      (combinePolygon rgn poly).bind (extCreateTransformed translate rects)

/-- The loop of `ExtCreateRegion` without a transformation. -/
def unionRects : List RECT → WINEREGION → Except Fail WINEREGION
  | [], obj => .ok obj
  | r :: rects, obj =>
    if r.left < r.right ∧ r.top < r.bottom then
      (unionRectWithRegion r obj).bind (unionRects rects)
    else unionRects rects obj

/-- `nCount` as an `INT`, of which `init_region` treats a negative one as `RGN_DEFAULT_RECTS`. -/
def allocCount (nCount : ℕ) : ℕ := if nCount ≤ INT_MAX then nCount else 0

/-- `ExtCreateRegion` on the rectangles of the data, of which the header has the right size. -/
def extCreateRegion (xform : Option (POINT → POINT)) (rects : List RECT) :
    Option (Option WINEREGION) :=
  match xform with
  | some translate => (extCreateTransformed translate rects (createRectRgn 0 0 0 0)).map some
  | none => call ((initRegion (allocCount rects.length)).bind (unionRects rects))

end Region

end Swinx
