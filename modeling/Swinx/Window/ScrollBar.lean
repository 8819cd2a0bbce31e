import Mathlib
import Swinx.Region.Shapes
import Swinx.Window.ScrollInfo

/-!
# The parts of a scroll bar

A bar is divided into two arrows, the thumb and the two pages beside it.  The size of the thumb and
its place are computed with the unsigned page, in 32 and in 64 bits, from the state of the bar.

A bar too short for the smallest thumb has none, and one too short for its arrows has arrows of half
its length each.

* `parts_tile` — the parts tile the bar, and the thumb reaches the ends of a rail that has room.
* `thumb_centred` — on a short bar whose page is the whole range it stays in the middle.
-/

namespace Swinx

namespace ScrollBar

open Region (RECT int)
open ScrollInfo (SCROLLINFO)

/-- `PtInRect` -/
def ptInRect (rc : RECT) (x y : ℤ) : Prop :=
  (rc.left ≤ x ∧ x < rc.right) ∧ rc.top ≤ y ∧ y < rc.bottom

instance decidablePtInRect (rc : RECT) (x y : ℤ) : Decidable (ptInRect rc x y) := by
  unfold ptInRect
  infer_instance

/-- Where a rectangle begins along the bar. -/
def start (bVert : Bool) (rc : RECT) : ℤ := if bVert then rc.top else rc.left

/-- Where it ends. -/
def stop (bVert : Bool) (rc : RECT) : ℤ := if bVert then rc.bottom else rc.right

/-- `GetSystemMetrics` of `SM_CXVSCROLL` and `SM_CYHSCROLL` -/
def cxScroll (scale : ℕ) : ℤ := 16 * scale / 100

/-- `GetSystemMetrics` of `SM_CXMINTRACK` and `SM_CYMINTRACK` -/
def minTrack (scale : ℕ) : ℤ := 6 * scale / 100

/-- A number that is stored as an `int`. -/
def asInt (n : ℤ) : ℤ := Int.bmod n 4294967296

/-- A number that is stored as an unsigned `int`. -/
def asUint (n : ℤ) : ℤ := n % 4294967296

inductive Part
  | lineUp
  | pageUp
  | thumb
  | pageDown
  | lineDown
  | rail
  deriving DecidableEq, Repr

/-- `nMax`, which is at least the end of the first page. -/
def widenedMax (si : SCROLLINFO) : Option ℤ := do
  let sum ← int (si.nMin.toInt + si.nPage.toInt32.toInt)
  let pageEnd ← int (sum - 1)
  some (if si.nMax.toInt < pageEnd then asInt (asUint (si.nMin.toInt + si.nPage.toNat - 1))
    else si.nMax.toInt)

/-- The lengths in a bar. -/
structure Measures where
  nLength : ℤ
  nArrowHei : ℤ
  nSlideHei : ℤ
  nEmptyHei : ℤ
  deriving DecidableEq, Repr

/-- The lengths in a bar of length `nLength`; a division by zero is undefined. -/
def measure (scale : ℕ) (si : SCROLLINFO) (nMax nLength : ℤ) : Option Measures := do
  let nInterHei := max 0 (nLength - 2 * cxScroll scale)
  let diff ← int (nMax - si.nMin.toInt)
  let count ← int (diff + 1)
  if count = 0 then none
  else
    let nSlideHei := asInt (asUint (si.nPage.toNat * nInterHei) / asUint count)
    let nSlideHei :=
      if nMax = asInt (asUint (si.nMin.toInt + si.nPage.toNat - 1)) then nInterHei else nSlideHei
    let nSlideHei := if nSlideHei < minTrack scale then minTrack scale else nSlideHei
    let nSlideHei := if nInterHei < minTrack scale then 0 else nSlideHei
    some
      { nLength
        nArrowHei := if nInterHei = 0 then nLength / 2 else cxScroll scale
        nSlideHei
        nEmptyHei := nInterHei - nSlideHei }

/-- The position that is shown. -/
def position (si : SCROLLINFO) : ℤ :=
  if si.nTrackPos = -1 then si.nPos.toInt else si.nTrackPos.toInt

/-- How far the thumb is from the beginning of the rail. -/
def thumbOffset (si : SCROLLINFO) (nEmptyHei : ℤ) : Option ℤ := do
  let diff ← int (si.nMax.toInt - si.nMin.toInt)
  let rest := asUint (diff - si.nPage.toNat + 1)
  some (if rest = 0 then nEmptyHei.tdiv 2
    else asInt ((nEmptyHei * (position si - si.nMin.toInt)).tdiv rest))

/-- Where a part begins and ends in the bar. -/
def span (si : SCROLLINFO) (m : Measures) : Part → Option (ℤ × ℤ)
  | .rail => some (m.nArrowHei, m.nLength - m.nArrowHei)
  | .lineUp => some (0, m.nArrowHei)
  | .pageUp => (thumbOffset si m.nEmptyHei).map fun offset =>
    (m.nArrowHei, m.nArrowHei + offset)
  | .thumb => (thumbOffset si m.nEmptyHei).map fun offset =>
    (m.nArrowHei + offset, m.nArrowHei + offset + m.nSlideHei)
  | .pageDown => (thumbOffset si m.nEmptyHei).map fun offset =>
    (m.nArrowHei + offset + m.nSlideHei, m.nLength - m.nArrowHei)
  | .lineDown => (thumbOffset si m.nEmptyHei).map fun _ =>
    (m.nLength - m.nArrowHei, m.nLength)

/-- The rectangle of a span, and `OffsetRect`. -/
def place (scale : ℕ) (bVert : Bool) (rcAll : RECT) (s : ℤ × ℤ) : RECT :=
  if bVert then
    (RECT.mk 0 s.1 (cxScroll scale) s.2).offset rcAll.left rcAll.top
  else (RECT.mk s.1 0 s.2 (cxScroll scale)).offset rcAll.left rcAll.top

/-- `GetScrollBarPartRect`, where its behaviour is defined. -/
def getScrollBarPartRect (scale : ℕ) (bVert : Bool) (si : SCROLLINFO) (iPart : Part)
    (rcAll : RECT) : Option RECT :=
  if si.nPage = 0 then some ⟨0, 0, cxScroll scale, 0⟩
  else do
    let nMax ← widenedMax si
    let nLength ← int (stop bVert rcAll - start bVert rcAll)
    if nLength ≤ 0 then some ⟨0, 0, cxScroll scale, 0⟩
    else
      let m ← measure scale si nMax nLength
      (span si m iPart).map (place scale bVert rcAll)

/-- The loop of `ScrollBarHitTest` -/
def hitTestLoop (scale : ℕ) (bVert : Bool) (si : SCROLLINFO) (rcAll : RECT) (x y : ℤ) :
    List Part → Option (Option Part)
  | [] => some none
  | part :: parts =>
    (getScrollBarPartRect scale bVert si part rcAll).bind fun rc =>
      if ptInRect rc x y then some (some part) else hitTestLoop scale bVert si rcAll x y parts

/-- `ScrollBarHitTest`, where its behaviour is defined; no part is `-1`. -/
def scrollBarHitTest (scale : ℕ) (bVert : Bool) (si : SCROLLINFO) (rcAll : RECT) (x y : ℤ) :
    Option (Option Part) :=
  hitTestLoop scale bVert si rcAll x y [.thumb, .lineUp, .lineDown, .pageUp, .pageDown]

/-- A bar of this length, as wide as bars are. -/
def bar (scale : ℕ) (bVert : Bool) (left top nLength : ℤ) : RECT :=
  if bVert then ⟨left, top, left + cxScroll scale, top + nLength⟩
  else ⟨left, top, left + nLength, top + cxScroll scale⟩

/-- A state of the bar that its calls leave. -/
structure Valid (si : SCROLLINFO) : Prop where
  inRange : si.InRange
  page : 1 ≤ si.nPage.toNat

/-- The page and the number of positions are of type `int`, and so is the end of the first page. -/
structure Fits (si : SCROLLINFO) : Prop where
  page : si.nPage.toNat ≤ 0x7FFFFFFF
  pageEnd : si.nMin.toInt + si.nPage.toNat ≤ 0x7FFFFFFF
  count : si.count ≤ 0x7FFFFFFF

/-- **The parts tile the bar**, and the thumb is in the rail. -/
structure Tiled (bVert : Bool) (rcAll : RECT) (rect : Part → RECT) : Prop where
  first : start bVert (rect .lineUp) = start bVert rcAll
  lineUp : stop bVert (rect .lineUp) = start bVert (rect .pageUp)
  pageUp : stop bVert (rect .pageUp) = start bVert (rect .thumb)
  thumb : stop bVert (rect .thumb) = start bVert (rect .pageDown)
  pageDown : stop bVert (rect .pageDown) = start bVert (rect .lineDown)
  last : stop bVert (rect .lineDown) = stop bVert rcAll
  nonneg : ∀ part, start bVert (rect part) ≤ stop bVert (rect part)
  cover : ∀ x y, ptInRect rcAll x y ↔
    ∃ part ∈ [Part.lineUp, .pageUp, .thumb, .pageDown, .lineDown], ptInRect (rect part) x y
  rail_start : start bVert (rect .rail) ≤ start bVert (rect .thumb)
  rail_stop : stop bVert (rect .thumb) ≤ stop bVert (rect .rail)

/-- **The thumb reaches both ends of the rail**, at the two extreme positions. -/
def Reaches (bVert : Bool) (si : SCROLLINFO) (rect : Part → RECT) : Prop :=
  (position si = si.nMin.toInt → start bVert (rect .thumb) = start bVert (rect .rail)) ∧
    (position si = max si.nMin.toInt (si.nMax.toInt - si.nPage.toNat + 1) →
      stop bVert (rect .thumb) = stop bVert (rect .rail))

/-- The bar has room: there is room for the smallest thumb, or more positions than one page has, and
a bar that has no rail has an even length. -/
def Roomy (scale : ℕ) (si : SCROLLINFO) (nLength : ℤ) : Prop :=
  if 2 * cxScroll scale < nLength then
    si.nPage.toNat < si.count ∨ minTrack scale ≤ nLength - 2 * cxScroll scale
  else nLength % 2 = 0

/-- The states are those of one range and one page. -/
def SameRange (si si' : SCROLLINFO) : Prop :=
  si'.nMin = si.nMin ∧ si'.nMax = si.nMax ∧ si'.nPage = si.nPage

/-! ### The numbers -/

theorem int_eq {n : ℤ} (h₀ : -0x80000000 ≤ n) (h₁ : n ≤ 0x7FFFFFFF) : int n = some n := by
  refine if_pos ⟨?_, ?_⟩
  · show -(0x7FFFFFFF : ℤ) - 1 ≤ n
    omega
  · exact h₁

theorem asInt_eq {n : ℤ} (h₀ : -0x80000000 ≤ n) (h₁ : n ≤ 0x7FFFFFFF) : asInt n = n :=
  Int.bmod_eq_of_le (by omega) (by omega)

theorem asInt_asUint {n : ℤ} (h₀ : -0x80000000 ≤ n) (h₁ : n ≤ 0x7FFFFFFF) :
    asInt (asUint n) = n := by
  have hmod : asInt (asUint n) = asInt n := Int.emod_bmod n 4294967296
  rw [hmod, asInt_eq h₀ h₁]

theorem asUint_eq {n : ℤ} (h₀ : 0 ≤ n) (h₁ : n < 0x100000000) : asUint n = n :=
  Int.emod_eq_of_lt h₀ h₁

theorem asUint_le {n : ℤ} (h : 0 ≤ n) : asUint n ≤ n := by
  unfold asUint
  omega

section Numbers

variable {scale : ℕ} {si : SCROLLINFO}

theorem cxScroll_nonneg (scale : ℕ) : 0 ≤ cxScroll scale := by
  unfold cxScroll
  omega

theorem minTrack_nonneg (scale : ℕ) : 0 ≤ minTrack scale := by
  unfold minTrack
  omega

theorem toInt_page (h : Fits si) : si.nPage.toInt32.toInt = si.nPage.toNat := by
  have hpage : si.nPage.toInt32.toInt = Int.bmod si.nPage.toNat 4294967296 := by
    rw [← Int32.toInt_toBitVec, UInt32.toBitVec_toInt32, BitVec.toInt_eq_toNat_bmod]
    rfl
  have := h.page
  rw [hpage]
  exact Int.bmod_eq_of_le (by omega) (by omega)

theorem widenedMax_eq (h : Valid si) (hfits : Fits si) :
    widenedMax si = some (max si.nMax.toInt (si.nMin.toInt + si.nPage.toNat - 1)) := by
  have hend := hfits.pageEnd
  have hpage := h.page
  have hmin := si.nMin.le_toInt
  simp only [widenedMax, toInt_page hfits, Option.bind_eq_bind]
  rw [int_eq (by omega) hend, Option.bind_some, int_eq (by omega) (by omega), Option.bind_some,
    asInt_asUint (by omega) (by omega)]
  congr 1
  split_ifs <;> omega

/-- The length of the thumb in a rail of length `nInterHei`. -/
def thumbLength (scale : ℕ) (si : SCROLLINFO) (nInterHei : ℤ) : ℤ :=
  if nInterHei < minTrack scale then 0
  else if si.count ≤ si.nPage.toNat then nInterHei
  else max (minTrack scale) (asUint (si.nPage.toNat * nInterHei) / si.count)

theorem thumbLength_bounds (scale : ℕ) (si : SCROLLINFO) {nInterHei : ℤ}
    (hrail : 0 ≤ nInterHei) :
    0 ≤ thumbLength scale si nInterHei ∧ thumbLength scale si nInterHei ≤ nInterHei := by
  have hmin := minTrack_nonneg scale
  unfold thumbLength
  split_ifs with hshort hpage
  · exact ⟨le_rfl, hrail⟩
  · exact ⟨hrail, le_rfl⟩
  · have hpos : 0 < si.count := by omega
    refine ⟨le_max_of_le_left hmin, max_le (not_lt.1 hshort) ?_⟩
    -- a product that wraps around makes the thumb shorter
    have hwrap : asUint (si.nPage.toNat * nInterHei) ≤ si.nPage.toNat * nInterHei :=
      asUint_le (by positivity)
    refine Int.ediv_le_of_le_mul hpos (hwrap.trans ?_)
    rw [mul_comm]
    exact mul_le_mul_of_nonneg_left (not_le.1 hpage).le hrail

theorem measure_eq {nLength : ℤ} (h : Valid si) (hfits : Fits si) (hlen : 0 < nLength)
    (hmax : nLength ≤ 0x7FFFFFFF) :
    measure scale si (max si.nMax.toInt (si.nMin.toInt + si.nPage.toNat - 1)) nLength =
      some
        { nLength
          nArrowHei :=
            if max 0 (nLength - 2 * cxScroll scale) = 0 then nLength / 2 else cxScroll scale
          nSlideHei := thumbLength scale si (max 0 (nLength - 2 * cxScroll scale))
          nEmptyHei := max 0 (nLength - 2 * cxScroll scale) -
            thumbLength scale si (max 0 (nLength - 2 * cxScroll scale)) } := by
  have hend := hfits.pageEnd
  have hcount := hfits.count
  have hpages := hfits.page
  have hpage := h.page
  have hrange := h.inRange.range
  have hmin := si.nMin.le_toInt
  have hcx := cxScroll_nonneg scale
  have hdef : si.count = si.nMax.toInt - si.nMin.toInt + 1 := rfl
  generalize hI : max 0 (nLength - 2 * cxScroll scale) = nInterHei
  have hrail : 0 ≤ nInterHei ∧ nInterHei ≤ 0x7FFFFFFF := by omega
  simp only [measure, hI, Option.bind_eq_bind]
  rw [int_eq (by omega) (by omega), Option.bind_some, int_eq (by omega) (by omega),
    Option.bind_some, if_neg (by omega),
    asInt_asUint (n := si.nMin.toInt + si.nPage.toNat - 1) (by omega) (by omega)]
  have hslide : ∀ share : ℤ, (si.nPage.toNat < si.count → share =
      asUint (si.nPage.toNat * nInterHei) / si.count) →
      (if nInterHei < minTrack scale then 0
        else if (if max si.nMax.toInt (si.nMin.toInt + si.nPage.toNat - 1) =
            si.nMin.toInt + si.nPage.toNat - 1 then nInterHei else share) < minTrack scale
          then minTrack scale
          else if max si.nMax.toInt (si.nMin.toInt + si.nPage.toNat - 1) =
            si.nMin.toInt + si.nPage.toNat - 1 then nInterHei else share) =
        thumbLength scale si nInterHei := by
    intro share hshare
    unfold thumbLength
    split_ifs with h1 h2 h3 h4 h5 h6 <;> first | rfl | omega
  rw [hslide]
  intro hlt
  have hwrap : 0 ≤ asUint (si.nPage.toNat * nInterHei) := Int.emod_nonneg _ (by decide)
  have hle : asUint (si.nPage.toNat * nInterHei) / si.count ≤ nInterHei := by
    have hwrap : asUint (si.nPage.toNat * nInterHei) ≤ si.nPage.toNat * nInterHei :=
      asUint_le (mul_nonneg (by positivity) hrail.1)
    refine Int.ediv_le_of_le_mul (by omega) (hwrap.trans ?_)
    rw [mul_comm]
    exact mul_le_mul_of_nonneg_left hlt.le hrail.1
  have hge : 0 ≤ asUint (si.nPage.toNat * nInterHei) / si.count := Int.ediv_nonneg hwrap (by omega)
  have hcount' : max si.nMax.toInt (si.nMin.toInt + si.nPage.toNat - 1) - si.nMin.toInt + 1 =
      si.count := by omega
  rw [hcount', asUint_eq (n := si.count) (by omega) (by omega), asInt_eq (by omega) (by omega)]

/-- How far the thumb is from the beginning of the rail. -/
def offsetOf (si : SCROLLINFO) (nEmptyHei : ℤ) : ℤ :=
  if si.nPage.toNat < si.count then
    nEmptyHei * (position si - si.nMin.toInt) / (si.count - si.nPage.toNat)
  else if si.count = si.nPage.toNat then nEmptyHei / 2 else 0

/-- The position is in the range, as far as the page leaves it. -/
theorem Valid.position (h : Valid si) : si.nMin.toInt ≤ position si ∧
    position si ≤ max si.nMin.toInt (si.nMax.toInt - si.nPage.toNat + 1) := by
  unfold ScrollBar.position
  split_ifs with htrack
  · exact h.inRange.pos
  · exact h.inRange.trackPos htrack

theorem offsetOf_bounds (h : Valid si) (nEmptyHei : ℤ) (hempty : 0 ≤ nEmptyHei) :
    0 ≤ offsetOf si nEmptyHei ∧ offsetOf si nEmptyHei ≤ nEmptyHei := by
  obtain ⟨hpos, hle⟩ := h.position
  have hdef : si.count = si.nMax.toInt - si.nMin.toInt + 1 := rfl
  unfold offsetOf
  split_ifs with hlt heq
  · refine ⟨Int.ediv_nonneg (mul_nonneg hempty (by omega)) (by omega), ?_⟩
    exact Int.ediv_le_of_le_mul (by omega) (mul_le_mul_of_nonneg_left (by omega) hempty)
  · omega
  · exact ⟨le_rfl, hempty⟩

theorem thumbOffset_eq (h : Valid si) (hfits : Fits si) (nEmptyHei : ℤ) (hempty : 0 ≤ nEmptyHei)
    (hmax : nEmptyHei ≤ 0x7FFFFFFF) : thumbOffset si nEmptyHei = some (offsetOf si nEmptyHei) := by
  obtain ⟨hpos, hle⟩ := h.position
  have hbounds := offsetOf_bounds h nEmptyHei hempty
  have hcount := hfits.count
  have hpages := hfits.page
  have hpage := h.page
  have hrange := h.inRange.range
  have hdef : si.count = si.nMax.toInt - si.nMin.toInt + 1 := rfl
  have hrest : si.nMax.toInt - si.nMin.toInt - si.nPage.toNat + 1 = si.count - si.nPage.toNat := by
    omega
  simp only [thumbOffset, Option.bind_eq_bind]
  rw [int_eq (by omega) (by omega), Option.bind_some, hrest]
  congr 1
  unfold offsetOf at hbounds ⊢
  rcases lt_trichotomy (si.nPage.toNat : ℤ) si.count with hlt | heq | hgt
  · rw [if_pos hlt] at hbounds ⊢
    rw [asUint_eq (by omega) (by omega), if_neg (by omega),
      Int.tdiv_eq_ediv_of_nonneg (mul_nonneg hempty (by omega)), asInt_eq (by omega) (by omega)]
  · have hzero : asUint (si.count - si.nPage.toNat) = 0 := by
      rw [heq, sub_self]
      rfl
    rw [if_pos hzero, if_neg heq.not_lt, if_pos heq.symm, Int.tdiv_eq_ediv_of_nonneg hempty]
  · -- a page longer than the range leaves one position
    have hone : position si = si.nMin.toInt := by omega
    have hwrap : asUint (si.count - si.nPage.toNat) ≠ 0 := by
      unfold asUint
      omega
    rw [if_neg hwrap, if_neg (by omega), if_neg (by omega), hone, sub_self, mul_zero, Int.zero_tdiv]
    rfl

theorem offsetOf_mono {si' : SCROLLINFO} (nEmptyHei : ℤ) (hempty : 0 ≤ nEmptyHei)
    (hsame : SameRange si si') (hle : position si ≤ position si') :
    offsetOf si nEmptyHei ≤ offsetOf si' nEmptyHei := by
  obtain ⟨hmin, hmax, hpage⟩ := hsame
  have hcount : si'.count = si.count := by
    unfold SCROLLINFO.count
    rw [hmin, hmax]
  unfold offsetOf
  rw [hcount, hmin, hpage]
  split_ifs with hlt
  · exact Int.ediv_le_ediv (by omega) (mul_le_mul_of_nonneg_left (by omega) hempty)
  · exact le_rfl
  · exact le_rfl

end Numbers

/-! ### The rectangles -/

section Rectangles

variable {scale : ℕ} {bVert : Bool} {si : SCROLLINFO} {left top nLength : ℤ}

/-- The length of the rail where the arrows have their size. -/
def railLength (scale : ℕ) (nLength : ℤ) : ℤ := max 0 (nLength - 2 * cxScroll scale)

theorem railLength_nonneg (scale : ℕ) (nLength : ℤ) : 0 ≤ railLength scale nLength :=
  le_max_left _ _

/-- The length of an arrow. -/
def arrowLength (scale : ℕ) (nLength : ℤ) : ℤ :=
  if railLength scale nLength = 0 then nLength / 2 else cxScroll scale

/-- Where the thumb begins in the rail. -/
def thumbStart (scale : ℕ) (si : SCROLLINFO) (nLength : ℤ) : ℤ :=
  offsetOf si (railLength scale nLength - thumbLength scale si (railLength scale nLength))

/-- Where the parts begin and end. -/
def partSpan (scale : ℕ) (si : SCROLLINFO) (nLength : ℤ) : Part → ℤ × ℤ
  | .rail => (arrowLength scale nLength, nLength - arrowLength scale nLength)
  | .lineUp => (0, arrowLength scale nLength)
  | .pageUp => (arrowLength scale nLength,
    arrowLength scale nLength + thumbStart scale si nLength)
  | .thumb => (arrowLength scale nLength + thumbStart scale si nLength,
    arrowLength scale nLength + thumbStart scale si nLength +
      thumbLength scale si (railLength scale nLength))
  | .pageDown => (arrowLength scale nLength + thumbStart scale si nLength +
      thumbLength scale si (railLength scale nLength),
    nLength - arrowLength scale nLength)
  | .lineDown => (nLength - arrowLength scale nLength, nLength)

/-- The rectangle of a part. -/
def partRect (scale : ℕ) (bVert : Bool) (si : SCROLLINFO) (left top nLength : ℤ) (part : Part) :
    RECT :=
  place scale bVert (bar scale bVert left top nLength) (partSpan scale si nLength part)

@[simp]
theorem length_bar (scale : ℕ) (bVert : Bool) (left top nLength : ℤ) :
    stop bVert (bar scale bVert left top nLength) - start bVert (bar scale bVert left top nLength) =
      nLength := by
  cases bVert <;> simp [bar, start, stop]

theorem start_place (s : ℤ × ℤ) : start bVert (place scale bVert (bar scale bVert left top nLength)
    s) = start bVert (bar scale bVert left top nLength) + s.1 := by
  cases bVert <;> simp [bar, start, place, Region.RECT.offset, add_comm]

theorem stop_place (s : ℤ × ℤ) : stop bVert (place scale bVert (bar scale bVert left top nLength)
    s) = start bVert (bar scale bVert left top nLength) + s.2 := by
  cases bVert <;> simp [bar, start, stop, place, Region.RECT.offset, add_comm]

theorem ptInRect_place (s : ℤ × ℤ) (x y : ℤ) :
    ptInRect (place scale bVert (bar scale bVert left top nLength) s) x y ↔
      (if bVert then left ≤ x ∧ x < left + cxScroll scale else top ≤ y ∧ y < top + cxScroll scale) ∧
        s.1 ≤ (if bVert then y - top else x - left) ∧
        (if bVert then y - top else x - left) < s.2 := by
  cases bVert <;> simp [ptInRect, bar, place, Region.RECT.offset] <;> omega

theorem place_bar (scale : ℕ) (bVert : Bool) (left top nLength : ℤ) :
    place scale bVert (bar scale bVert left top nLength) (0, nLength) =
    bar scale bVert left top nLength := by
  cases bVert <;> simp [bar, place, Region.RECT.offset, add_comm]

theorem thumbStart_bounds (h : Valid si) (scale : ℕ) (nLength : ℤ) :
    0 ≤ thumbStart scale si nLength ∧
      thumbStart scale si nLength + thumbLength scale si (railLength scale nLength) ≤
        railLength scale nLength := by
  have hthumb := thumbLength_bounds scale si (railLength_nonneg scale nLength)
  have hoffset := offsetOf_bounds h
    (railLength scale nLength - thumbLength scale si (railLength scale nLength)) (by omega)
  exact ⟨hoffset.1, by unfold thumbStart; omega⟩

/-- The arrows and the rail make up the bar, but for the one unit that is left of an odd length. -/
theorem arrowLength_bounds (scale : ℕ) (hlen : 0 ≤ nLength) : 0 ≤ arrowLength scale nLength ∧
    2 * arrowLength scale nLength + railLength scale nLength ≤ nLength := by
  have hcx := cxScroll_nonneg scale
  unfold arrowLength railLength
  split_ifs <;> omega

theorem getScrollBarPartRect_eq (h : Valid si) (hfits : Fits si) (scale : ℕ) (bVert : Bool)
    (left top : ℤ) (hlen : 0 < nLength) (hmax : nLength ≤ 0x7FFFFFFF) (part : Part) :
    getScrollBarPartRect scale bVert si part (bar scale bVert left top nLength) =
      some (partRect scale bVert si left top nLength part) := by
  have hpage : si.nPage ≠ 0 := by
    intro hzero
    have := h.page
    rw [hzero] at this
    exact absurd this (by decide)
  have hrail : 0 ≤ railLength scale nLength ∧ railLength scale nLength ≤ 0x7FFFFFFF := by
    have hcx := cxScroll_nonneg scale
    unfold railLength
    omega
  have hthumb := thumbLength_bounds scale si hrail.1
  have hoffset := thumbOffset_eq h hfits
    (railLength scale nLength - thumbLength scale si (railLength scale nLength)) (by omega)
    (by omega)
  rw [getScrollBarPartRect, if_neg hpage, widenedMax_eq h hfits]
  simp only [length_bar, Option.bind_eq_bind, Option.bind_some]
  rw [int_eq (by omega) hmax, Option.bind_some, if_neg (by omega), measure_eq h hfits hlen hmax,
    Option.bind_some]
  unfold railLength at hoffset
  cases part <;> simp only [span, hoffset, Option.map_some] <;> rfl

theorem tiled_partRect (h : Valid si) (scale : ℕ) (bVert : Bool) (left top : ℤ)
    (hlen : 0 < nLength) :
    Tiled bVert (bar scale bVert left top nLength)
      (partRect scale bVert si left top nLength) := by
  have harrow := arrowLength_bounds scale hlen.le
  have hthumb := thumbLength_bounds scale si (railLength_nonneg scale nLength)
  have hstart := thumbStart_bounds h scale nLength
  refine ⟨?_, ?_, ?_, ?_, ?_, ?_, fun part => ?_, fun x y => ?_, ?_, ?_⟩
  · rw [partRect, start_place]
    exact add_zero _
  · rw [partRect, partRect, start_place, stop_place]
    rfl
  · rw [partRect, partRect, start_place, stop_place]
    rfl
  · rw [partRect, partRect, start_place, stop_place]
    rfl
  · rw [partRect, partRect, start_place, stop_place]
    rfl
  · have hlength := length_bar scale bVert left top nLength
    rw [partRect, stop_place]
    show _ + nLength = _
    omega
  · rw [partRect, start_place, stop_place]
    cases part <;> simp only [partSpan] <;> omega
  · nth_rewrite 1 [← place_bar scale bVert left top nLength]
    simp only [partRect, ptInRect_place, List.mem_cons, List.not_mem_nil, or_false,
      exists_eq_or_imp, exists_eq_left, partSpan]
    generalize (if bVert then y - top else x - left) = z
    by_cases hacross : if bVert then left ≤ x ∧ x < left + cxScroll scale
      else top ≤ y ∧ y < top + cxScroll scale
    · simp only [hacross, true_and]
      omega
    · simp only [hacross, false_and, or_self]
  · rw [partRect, partRect, start_place, start_place]
    simp only [partSpan]
    omega
  · rw [partRect, partRect, stop_place, stop_place]
    simp only [partSpan]
    omega

theorem reaches_partRect (h : Valid si) (hroom : Roomy scale si nLength) :
    Reaches bVert si (partRect scale bVert si left top nLength) := by
  have hcx := cxScroll_nonneg scale
  have hmin := minTrack_nonneg scale
  have hdef : si.count = si.nMax.toInt - si.nMin.toInt + 1 := rfl
  have hsum : thumbStart scale si nLength = 0 ∧
      thumbLength scale si (railLength scale nLength) = 0 ∧
      nLength = 2 * arrowLength scale nLength ∨
      nLength = 2 * arrowLength scale nLength + railLength scale nLength ∧
      (position si = si.nMin.toInt → thumbStart scale si nLength = 0) ∧
      (position si = max si.nMin.toInt (si.nMax.toInt - si.nPage.toNat + 1) →
        thumbStart scale si nLength + thumbLength scale si (railLength scale nLength) =
          railLength scale nLength) := by
    unfold Roomy at hroom
    split_ifs at hroom with hlong
    · right
      have hrail : railLength scale nLength = nLength - 2 * cxScroll scale := by
        unfold railLength
        omega
      have harrow : arrowLength scale nLength = cxScroll scale := by
        unfold arrowLength
        rw [if_neg (by omega)]
      refine ⟨by omega, fun hpos => ?_, fun hpos => ?_⟩
      · unfold thumbStart offsetOf
        split_ifs with hlt heq
        · rw [hpos, sub_self, mul_zero, Int.zero_ediv]
        · rw [thumbLength, if_neg (by omega), if_pos (by omega), sub_self]
          rfl
        · rfl
      · unfold thumbStart offsetOf
        split_ifs with hlt heq
        · have hrest : position si - si.nMin.toInt = si.count - si.nPage.toNat := by omega
          rw [hrest, Int.mul_ediv_cancel _ (by omega)]
          omega
        · rw [thumbLength, if_neg (by omega), if_pos (by omega), sub_self]
          omega
        · rw [thumbLength, if_neg (by omega), if_pos (by omega)]
          omega
    · left
      have hrail : railLength scale nLength = 0 := by
        unfold railLength
        omega
      have harrow : arrowLength scale nLength = nLength / 2 := if_pos hrail
      have hthumb := thumbLength_bounds scale si (le_refl 0)
      have hstart := thumbStart_bounds h scale nLength
      rw [hrail] at hstart ⊢
      omega
  constructor <;> intro hpos <;> rw [partRect, partRect]
  · rw [start_place, start_place]
    simp only [partSpan]
    omega
  · rw [stop_place, stop_place]
    simp only [partSpan]
    omega

theorem getScrollBarPartRect_zero (h : Valid si) (hfits : Fits si) (scale : ℕ) (bVert : Bool)
    (left top : ℤ) (part : Part) :
    getScrollBarPartRect scale bVert si part (bar scale bVert left top 0) =
      some ⟨0, 0, cxScroll scale, 0⟩ := by
  unfold getScrollBarPartRect
  split_ifs
  · rfl
  · rw [widenedMax_eq h hfits]
    simp only [length_bar, Option.bind_eq_bind, Option.bind_some]
    rfl

theorem hitTestLoop_eq {rcAll : RECT} {rect : Part → RECT}
    (hrect : ∀ part, getScrollBarPartRect scale bVert si part rcAll = some (rect part)) (x y : ℤ)
    (parts : List Part) : hitTestLoop scale bVert si rcAll x y parts =
      some (parts.find? fun part => ptInRect (rect part) x y) := by
  induction parts with
  | nil => rfl
  | cons part parts ih =>
    rw [hitTestLoop, hrect, Option.bind_some, List.find?_cons, ih]
    by_cases hin : ptInRect (rect part) x y
    · simp only [hin, if_true, decide_true]
    · simp only [hin, if_false, decide_false]

end Rectangles

/-- **The parts of a bar.** They tile it, the thumb goes forward with the position and reaches the
ends of a rail that has room, and the hit test finds a part at the points of the bar. -/
theorem parts_tile (scale : ℕ) (bVert : Bool) (si : SCROLLINFO) (left top nLength : ℤ)
    (h : Valid si) (hfits : Fits si) (hlen : 0 ≤ nLength) (hmax : nLength ≤ 0x7FFFFFFF) :
    ∃ rect : Part → RECT,
      (∀ part, getScrollBarPartRect scale bVert si part (bar scale bVert left top nLength) =
        some (rect part)) ∧
      (0 < nLength → Tiled bVert (bar scale bVert left top nLength) rect ∧
        (Roomy scale si nLength → Reaches bVert si rect) ∧
        ∀ si' rc, Valid si' → SameRange si si' → position si ≤ position si' →
          getScrollBarPartRect scale bVert si' .thumb (bar scale bVert left top nLength) =
            some rc → start bVert (rect .thumb) ≤ start bVert rc) ∧
      ∀ x y, ∃ hit,
        scrollBarHitTest scale bVert si (bar scale bVert left top nLength) x y = some hit ∧
        (∀ part, hit = some part → ptInRect (rect part) x y) ∧
        (hit.isSome ↔ ptInRect (bar scale bVert left top nLength) x y) := by
  rcases hlen.eq_or_lt with rfl | hpos
  · have hrect := getScrollBarPartRect_zero h hfits scale bVert left top
    have hnone : ∀ x y, ¬ ptInRect ⟨0, 0, cxScroll scale, 0⟩ x y := by
      intro x y hin
      exact absurd hin.2.1 (not_le.2 hin.2.2)
    refine ⟨fun _ => ⟨0, 0, cxScroll scale, 0⟩, hrect, fun hlt => absurd hlt (by decide),
      fun x y => ⟨none, ?_, fun part hpart => absurd hpart (by simp), ?_⟩⟩
    · rw [scrollBarHitTest, hitTestLoop_eq hrect]
      simp only [hnone, decide_false, List.find?_cons, List.find?_nil]
    · refine iff_of_false (by simp) fun hin => ?_
      cases bVert <;> simp only [ptInRect, bar, if_true, Bool.false_eq_true, if_false] at hin <;>
        omega
  · have hrect := getScrollBarPartRect_eq h hfits scale bVert left top hpos hmax
    have htiled := tiled_partRect h scale bVert left top hpos
    refine ⟨partRect scale bVert si left top nLength, hrect, fun _ => ⟨htiled,
      reaches_partRect h, fun si' rc h' hsame hle hrc => ?_⟩, fun x y => ?_⟩
    · obtain ⟨hmin, hmx, hpage⟩ := hsame
      have hcount : si'.count = si.count := by
        unfold SCROLLINFO.count
        rw [hmin, hmx]
      have hfits' : Fits si' :=
        ⟨hpage ▸ hfits.page, by rw [hmin, hpage]; exact hfits.pageEnd, hcount ▸ hfits.count⟩
      rw [getScrollBarPartRect_eq h' hfits' scale bVert left top hpos hmax,
        Option.some.injEq] at hrc
      have hthumb := thumbLength_bounds scale si (railLength_nonneg scale nLength)
      have hlength : thumbLength scale si' (railLength scale nLength) =
          thumbLength scale si (railLength scale nLength) := by
        unfold thumbLength
        rw [hcount, hpage]
      have hmono := offsetOf_mono (railLength scale nLength -
        thumbLength scale si (railLength scale nLength)) (by omega) ⟨hmin, hmx, hpage⟩ hle
      rw [← hrc, partRect, partRect, start_place, start_place]
      simp only [partSpan, thumbStart, hlength]
      omega
    · refine ⟨_, hitTestLoop_eq hrect x y _, fun part hpart => ?_, ?_⟩
      · simpa using List.find?_some hpart
      · rw [htiled.cover, List.find?_isSome]
        constructor
        · rintro ⟨part, hmem, hin⟩
          refine ⟨part, ?_, by simpa using hin⟩
          simp only [List.mem_cons] at hmem ⊢
          tauto
        · rintro ⟨part, hmem, hin⟩
          refine ⟨part, ?_, by simpa using hin⟩
          simp only [List.mem_cons] at hmem ⊢
          tauto

/-- A bar of ten positions that has the position 3. -/
def tenPositions (nPage : UInt32) (nPos : Int32) : SCROLLINFO := ⟨0, 9, nPage, nPos, -1⟩

theorem valid_tenPositions : Valid (tenPositions 4 3) ∧ Fits (tenPositions 4 3) :=
  ⟨⟨⟨by decide, ⟨by decide, by decide⟩, fun h => absurd rfl h⟩, by decide⟩,
    ⟨by decide, by decide, by decide⟩⟩

theorem parts_tile_ten : ∃ rect : Part → RECT,
    (∀ part, getScrollBarPartRect 100 true (tenPositions 4 3) part (bar 100 true 0 0 132) =
      some (rect part)) ∧
    (0 < (132 : ℤ) → Tiled true (bar 100 true 0 0 132) rect ∧
      (Roomy 100 (tenPositions 4 3) 132 → Reaches true (tenPositions 4 3) rect) ∧
      ∀ si' rc, Valid si' → SameRange (tenPositions 4 3) si' →
        position (tenPositions 4 3) ≤ position si' →
        getScrollBarPartRect 100 true si' .thumb (bar 100 true 0 0 132) = some rc →
        start true (rect .thumb) ≤ start true rc) ∧
    ∀ x y, ∃ hit, scrollBarHitTest 100 true (tenPositions 4 3) (bar 100 true 0 0 132) x y =
      some hit ∧ (∀ part, hit = some part → ptInRect (rect part) x y) ∧
      (hit.isSome ↔ ptInRect (bar 100 true 0 0 132) x y) :=
  parts_tile 100 true (tenPositions 4 3) 0 0 132 valid_tenPositions.1 valid_tenPositions.2
    (by decide) (by decide)

/-- **A thumb that stays in the middle.** The page is the whole range, so the position is at both
ends of it, and a rail of three units has no room for the smallest thumb. -/
theorem thumb_centred : Valid (tenPositions 10 0) ∧
    getScrollBarPartRect 100 true (tenPositions 10 0) .thumb (bar 100 true 0 0 35) =
      some ⟨0, 17, 16, 17⟩ ∧
    getScrollBarPartRect 100 true (tenPositions 10 0) .rail (bar 100 true 0 0 35) =
      some ⟨0, 16, 16, 19⟩ ∧
    ∀ rect : Part → RECT, (∀ part, getScrollBarPartRect 100 true (tenPositions 10 0) part
      (bar 100 true 0 0 35) = some (rect part)) → ¬ Reaches true (tenPositions 10 0) rect := by
  have hthumb : getScrollBarPartRect 100 true (tenPositions 10 0) .thumb (bar 100 true 0 0 35) =
      some ⟨0, 17, 16, 17⟩ := by decide
  have hrail : getScrollBarPartRect 100 true (tenPositions 10 0) .rail (bar 100 true 0 0 35) =
      some ⟨0, 16, 16, 19⟩ := by decide
  refine ⟨⟨⟨by decide, ⟨by decide, by decide⟩, fun h => absurd rfl h⟩, by decide⟩, hthumb, hrail,
    fun rect hrect hreach => ?_⟩
  have hstart := hreach.1 rfl
  rw [Option.some.inj ((hrect .thumb).symm.trans hthumb),
    Option.some.inj ((hrect .rail).symm.trans hrail)] at hstart
  exact absurd hstart (by decide)

end ScrollBar

end Swinx
